import EventHub.Log.Level
/-!
# Log records

Which records are written, to which output, and as what. Unless everything is wanted, what comes
from the parts below the service is left out.
-/

namespace EventHub.Log

structure Record where
  level : Level
  /-- The part of the program that speaks. -/
  target : String
  message : String
  /-- Where in the program the record is made. -/
  place : String
deriving DecidableEq, Repr

/-- The parts below the service. A target belongs to one if it begins with its name. -/
def lowerParts : List String := ["redis", "tower", "tower_http", "hyper", "h2", "axum"]

def isWritten (level : Level) (r : Record) : Bool :=
  r.level.detail ≤ level.detail && r.level ≠ .off &&
    (level = .trace || !lowerParts.any fun part => part.toList.isPrefixOf r.target.toList)

def isGrave (r : Record) : Bool := r.level = .error

/-- The line of a record. Only the most detailed ones say where they come from. -/
def line (time : String) (r : Record) : String :=
  time ++ " [" ++ r.level.name ++ "] " ++ r.target ++ ": " ++
    (if r.level = .trace then "[" ++ r.place ++ "] " else "") ++ r.message

def lines (time : String) (level : Level) (records : List Record) : List String × List String :=
  let (grave, rest) := (records.filter (isWritten level)).partition isGrave
  (rest.map (line time), grave.map (line time))

end EventHub.Log
