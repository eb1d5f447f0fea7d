import EventHub.Event.Reader
import EventHub.Main
import EventHub.Registry.Threads
import EventHub.Store.Commands
import EventHub.Store.Loopback
import EventHub.Proofs.Json.SingleLine
import EventHub.Proofs.Connection.Acts
import EventHub.Proofs.Connection.Disposal
import EventHub.Proofs.Event.Framing
import EventHub.Proofs.Cluster.ExactlyOnce
import EventHub.Proofs.Cluster.StoreCalls
import EventHub.Proofs.Event.Streams
import EventHub.Proofs.Cluster.Calls
import EventHub.Proofs.Cluster.Histories
import EventHub.Proofs.Cluster.Interchange
import EventHub.Proofs.Cluster.Fleet
import EventHub.Proofs.Cluster.Deeds
import EventHub.Proofs.Cluster.Balance
import EventHub.Proofs.Cluster.Records
import EventHub.Proofs.Cluster.Handlings
import EventHub.Proofs.Web.RelayedFrames
import EventHub.Proofs.Cluster.Isolation
import EventHub.Proofs.Web.OpenStreams
import EventHub.Proofs.Web.Answers
import EventHub.Proofs.Web.Visits
import EventHub.Proofs.Cluster.Resubscriptions
import EventHub.Proofs.Cluster.Renewals
import EventHub.Proofs.Registry.Races
import EventHub.Proofs.Connection.Patience
import EventHub.Proofs.Cluster.Clearings
import EventHub.Proofs.Cluster.Relaying
import EventHub.Proofs.Json.Paths
import EventHub.Proofs.Relay.Streams
import EventHub.Proofs.Relay.Broker
import EventHub.Proofs.Web.FirstFrames
import EventHub.Proofs.Store.Counting
import EventHub.Proofs.Store.Deployments
import EventHub.Proofs.Cluster.Pauses
import EventHub.Proofs.Web.Addressees
