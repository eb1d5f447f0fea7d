/-!
# Modes of operation

What kind of installation the service runs in.
-/

namespace EventHub.Settings

inductive Mode where
  | development
  | production
  | staging
deriving DecidableEq, Repr

namespace Mode

def name : Mode → String
  | development => "development"
  | production => "production"
  | staging => "staging"

def all : List Mode := [development, production, staging]

def ofName? (text : String) : Option Mode :=
  let lower := String.ofList (text.toList.map Char.toLower)
  all.find? fun m => m.name = lower

end Mode

end EventHub.Settings
