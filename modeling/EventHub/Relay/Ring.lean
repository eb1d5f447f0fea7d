/-!
# The relay in memory

Messages on named channels, of which the latest are kept: as many as the capacity rounded up to a
power of two. Each subscriber reads from a position of its own. One that falls too far behind is
told how many messages it has lost and goes on with the oldest one kept.
-/

namespace EventHub.Relay

structure Ring where
  capacity : Nat
  /-- The number of messages sent so far. -/
  sent : Nat := 0
  /-- The latest messages, the oldest first, each with its channel. -/
  kept : List (String × String) := []
deriving DecidableEq, Repr

/-- Where a subscriber reads: the number of messages sent before the one it reads next. -/
structure Ring.Reader where
  channels : List String
  position : Nat
deriving DecidableEq, Repr

namespace Ring

def ofCapacity (capacity : Nat) : Ring := { capacity := (max capacity 1).nextPowerOfTwo }

def send (r : Ring) (channel message : String) : Ring :=
  let kept := r.kept ++ [(channel, message)]
  { r with sent := r.sent + 1, kept := kept.drop (kept.length - r.capacity) }

def subscribe (r : Ring) (channels : List String) : Reader := ⟨channels, r.sent⟩

def oldest (r : Ring) : Nat := r.sent - r.kept.length

inductive Item where
  | message (text : String)
  /-- So many messages were lost. -/
  | lost (count : Nat)
deriving DecidableEq, Repr

def seek (reader : Reader) : List (String × String) → Option Item × Reader
  | [] => (none, reader)
  | (channel, message) :: rest =>
    if reader.channels.contains channel then
      (some (.message message), { reader with position := reader.position + 1 })
    else seek { reader with position := reader.position + 1 } rest

def next (r : Ring) (reader : Reader) : Option Item × Reader :=
  if reader.position < r.oldest then
    (some (.lost (r.oldest - reader.position)), { reader with position := r.oldest })
  else seek reader (r.kept.drop (reader.position - r.oldest))

/-- Everything that a reader can read now; each item but a notice of loss takes a message. -/
def readAll (r : Ring) (reader : Reader) : List Item × Reader := go (r.kept.length + 2) reader
where
  /-- At most so many items. -/
  go (limit : Nat) (reader : Reader) : List Item × Reader :=
    match limit with
    | 0 => ([], reader)
    | limit + 1 =>
      match r.next reader with
      | (none, reader) => ([], reader)
      | (some item, reader) =>
        let (items, reader) := go limit reader
        (item :: items, reader)

end Ring

end EventHub.Relay
