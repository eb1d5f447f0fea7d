/-!
# Levels of log records

From the gravest to the most detailed, and `off`, which no record has.
-/

namespace EventHub.Log

inductive Level where
  | off
  | error
  | warn
  | info
  | debug
  | trace
deriving DecidableEq, Repr

namespace Level

def name : Level → String
  | off => "OFF"
  | error => "ERROR"
  | warn => "WARN"
  | info => "INFO"
  | debug => "DEBUG"
  | trace => "TRACE"

def all : List Level := [off, error, warn, info, debug, trace]

def ofName? (text : String) : Option Level := all.find? fun l => l.name = text

def detail : Level → Nat
  | off => 0
  | error => 1
  | warn => 2
  | info => 3
  | debug => 4
  | trace => 5

end Level

end EventHub.Log
