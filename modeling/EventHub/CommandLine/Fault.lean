import EventHub.CommandLine.Opt
import EventHub.Text.Similarity
/-!
# Arguments that cannot be used

Why a command line is turned away, and the text that says so. Asking for help or for the version
ends the reading of the command line in the same way.
-/

namespace EventHub.CommandLine

inductive Fault where
  /-- Nothing has this name. `similar` is the form of an option with nearly the same name, and
  `used` are the options that stand in front, with the similar one. -/
  | unknownArgument (argument : String) (similar : Option String) (used : List String)
  | valueMissing (opt : Opt)
  /-- The value is none of the words that the option takes. -/
  | unknownWord (opt : Opt) (value : String)
  | badNumber (opt : Opt) (value : String) (fault : NumberFault)
  | repeated (opt : Opt)
  /-- A value for a switch that takes none. -/
  | valueNotTaken (switch value : String) (used : List String)
  | help
  | version
deriving DecidableEq, Repr

def usage (program : String) (used : List String) : String :=
  "Usage: " ++ program ++
    if used.isEmpty then " [OPTIONS]" else String.join (used.map (" " ++ ·))

namespace Fault

def summary : Fault → String
  | unknownArgument argument similar _ =>
    "error: unexpected argument '" ++ argument ++ "' found" ++
      match similar with
      | some s => "\n\n  tip: a similar argument exists: '" ++ s ++ "'"
      | none => ""
  | valueMissing opt =>
    "error: a value is required for '" ++ opt.shown ++ "' but none was supplied" ++
      possible opt.words
  | unknownWord opt value =>
    (if value.isEmpty then
      "error: a value is required for '" ++ opt.shown ++ "' but none was supplied"
    else "error: invalid value '" ++ value ++ "' for '" ++ opt.shown ++ "'") ++
      possible opt.words ++
      match Text.mostSimilar value opt.words with
      | some s => "\n\n  tip: a similar value exists: '" ++ s ++ "'"
      | none => ""
  | badNumber opt value fault =>
    "error: invalid value '" ++ value ++ "' for '" ++ opt.shown ++ "': " ++ fault.message
  | repeated opt => "error: the argument '" ++ opt.shown ++ "' cannot be used multiple times"
  | valueNotTaken switch value _ =>
    "error: unexpected value '" ++ value ++ "' for '" ++ switch ++
      "' found; no more were expected"
  | help | version => ""
where
  /-- The list of the words that an option takes. -/
  possible (words : List String) : String :=
    if words.isEmpty then "" else "\n  [possible values: " ++ ", ".intercalate words ++ "]"

def usage? (program : String) : Fault → Option String
  | unknownArgument _ _ used | valueNotTaken _ _ used => some (usage program used)
  | repeated _ => some (usage program [])
  | _ => none

def text (program : String) (f : Fault) : String :=
  f.summary ++
    (match f.usage? program with
      | some u => "\n\n" ++ u
      | none => "") ++
    "\n\nFor more information, try '--help'.\n"

end Fault

end EventHub.CommandLine
