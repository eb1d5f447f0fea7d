import EventHub.Settings.Distributed
import EventHub.Store.Basic
import EventHub.Time.Timestamp.Basic
/-!
# Commands to the store

The keys under which records, the connections of a server and the counter are stored, and the
commands that each call sends.
-/

namespace EventHub.Store

def connectionKey (keyPrefix : String) (id : ConnectionId) : String :=
  keyPrefix ++ ":connection:" ++ id.text

def serverKey (keyPrefix : String) (id : ServerId) : String :=
  keyPrefix ++ ":server:" ++ id.text ++ ":connections"

def countKey (keyPrefix : String) : String := keyPrefix ++ ":connections:count"

def transaction (commands : List (List String)) : List (List String) :=
  ["MULTI"] :: commands ++ [["EXEC"]]

def registerCommands (keyPrefix : String) (r : Record) (connectedAt : Time.Timestamp)
    (lifetime : Time.Duration) : List (List String) :=
  let key := connectionKey keyPrefix r.connection
  let owner := serverKey keyPrefix r.server
  let expiry := toString (Settings.Distributed.expiryMillis lifetime)
  transaction
    [["HMSET", key, "serverId", r.server.text, "clientId", r.client, "connectionId",
        r.connection.text, "connectedAt", String.ofList connectedAt.offsetText, "lastEventId",
        r.lastEventId.getD ""],
      ["PEXPIRE", key, expiry],
      ["SADD", owner, r.connection.text],
      ["PEXPIRE", owner, expiry],
      ["INCRBY", countKey keyPrefix, "1"]]

def unregisterCommands (keyPrefix : String) (server : ServerId) (id : ConnectionId) :
    List (List String) :=
  transaction
    [["DEL", connectionKey keyPrefix id],
      ["SREM", serverKey keyPrefix server, id.text],
      ["DECRBY", countKey keyPrefix, "1"]]

def countCommands (keyPrefix : String) : List (List String) := [["GET", countKey keyPrefix]]

def refreshCommands (keyPrefix : String) (server : ServerId) (ids : List ConnectionId)
    (lifetime : Time.Duration) : List (List String) :=
  let expiry := toString (Settings.Distributed.expiryMillis lifetime)
  ids.map (fun id => ["PEXPIRE", connectionKey keyPrefix id, expiry]) ++
    [["PEXPIRE", serverKey keyPrefix server, expiry]]

def Call.commands (keyPrefix : String) (connectedAt : Time.Timestamp) (lifetime : Time.Duration) :
    Call → List (List String)
  | register r _ => registerCommands keyPrefix r connectedAt lifetime
  | unregister server id => unregisterCommands keyPrefix server id
  | count => countCommands keyPrefix
  | refresh server ids _ => refreshCommands keyPrefix server ids lifetime

end EventHub.Store
