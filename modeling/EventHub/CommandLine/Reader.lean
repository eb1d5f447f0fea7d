import EventHub.CommandLine.Fault
import EventHub.Text.Split
/-!
# Reading a command line

Arguments are read from left to right. The value of an option may be attached to it, or be the next
argument, and then it is looked at only when the one behind it is. Options that are not given take
their values from the environment, in the order of the table.
-/

namespace EventHub.CommandLine

/-- The options given, in the order of their first use, with their values. -/
structure Given where
  values : List (Opt × List Value) := []
  /-- An option whose value is still to be looked at, or to come. -/
  pending : Option (Opt × Option String) := none
deriving Repr

def readValues (opt : Opt) (text : String) : Except Fault (List Value) :=
  let number (r : Except NumberFault Nat) : Except Fault (List Value) :=
    match r with
    | .ok n => .ok [.number n]
    | .error f => .error (.badNumber opt text f)
  match opt.kind with
  | .text => .ok [.text text]
  | .texts => .ok ((Text.splitAll ',' text.toList).map fun cs => .text (String.ofList cs))
  | .word words => if words.contains text then .ok [.text text] else .error (.unknownWord opt text)
  | .number => number (readNumber text)
  | .port => number (readPort text)

namespace Given

def find? (g : Given) (opt : Opt) : Option (List Value) :=
  (g.values.find? fun p => p.1 = opt).map (·.2)

def append (g : Given) (opt : Opt) (values : List Value) : Given :=
  match g.find? opt with
  | none => { g with values := g.values ++ [(opt, values)] }
  | some _ =>
    { g with values := g.values.map fun p => if p.1 = opt then (opt, p.2 ++ values) else p }

def accept (g : Given) (opt : Opt) (text : String) : Except Fault Given :=
  if (g.find? opt).isSome && !opt.isRepeatable then .error (.repeated opt)
  else (readValues opt text).map (g.append opt)

def settle (g : Given) : Except Fault Given :=
  match g.pending with
  | none => .ok g
  | some (opt, none) => .error (.valueMissing opt)
  | some (opt, some text) => { g with pending := none }.accept opt text

/-- The options used so far, as messages name them. One that is used twice too often counts as
not used. -/
def used (g : Given) : List String :=
  let names := g.values.map (·.1.shown)
  match g.pending with
  | some (opt, some _) =>
    if opt.isRepeatable then if names.contains opt.shown then names else names ++ [opt.shown]
    else if names.contains opt.shown then names.filter (· ≠ opt.shown)
    else names ++ [opt.shown]
  | _ => names

end Given

def switches : List (String × Char × Fault) := [("help", 'h', .help), ("version", 'V', .version)]

def unknownLong (table : List Opt) (g : Given) (name : String) : Fault :=
  let similar := Text.mostSimilar name (table.map Opt.long ++ switches.map (·.1))
  let suggested := match similar with
    | none => []
    | some s =>
      match table.find? fun (o : Opt) => o.long = s with
      | some o => [o.shown]
      | none => ["--" ++ s]
  .unknownArgument ("--" ++ name) (similar.map ("--" ++ ·))
    (g.used ++ suggested.filter fun s => !g.used.contains s)

/-- Reads an argument that begins with two hyphens; `name` stands behind them. -/
def readLong (table : List Opt) (g : Given) (name : List Char) : Except Fault Given :=
  let (name, value?) := Text.splitFirst '=' name
  let name := String.ofList name
  match table.find? fun (o : Opt) => o.long = name with
  | some opt => do
    let g ← g.settle
    match value? with
    | some value => g.accept opt (String.ofList value)
    | none => return { g with pending := some (opt, none) }
  | none =>
    match switches.find? fun s => s.1 = name with
    | some (name, _, fault) =>
      match value? with
      | some value =>
        .error (.valueNotTaken ("--" ++ name) (String.ofList value) (g.used ++ ["--" ++ name]))
      | none => do
        let _ ← g.settle
        throw fault
    | none => .error (unknownLong table g name)

/-- Reads an argument that begins with one hyphen: a letter and perhaps its value. -/
def readShort (table : List Opt) (g : Given) (letter : Char) (rest : List Char) :
    Except Fault Given :=
  match table.find? fun (o : Opt) => o.letter = some letter with
  | some opt => do
    let g ← g.settle
    match rest with
    | [] => return { g with pending := some (opt, none) }
    | '=' :: value => g.accept opt (String.ofList value)
    | value => g.accept opt (String.ofList value)
  | none =>
    match switches.find? fun s => s.2.1 = letter with
    | some (_, _, fault) => do
      let _ ← g.settle
      throw fault
    | none => .error (.unknownArgument (String.ofList ['-', letter]) none [])

def readArguments (table : List Opt) (g : Given) : List String → Except Fault Given
  | [] => g.settle
  | argument :: rest =>
    match argument.toList with
    | ['-', '-'] =>
      match rest with
      | [] => g.settle
      | a :: _ => .error (.unknownArgument a none [])
    | '-' :: '-' :: name => do readArguments table (← readLong table g name) rest
    | '-' :: letter :: more => do readArguments table (← readShort table g letter more) rest
    | _ =>
      match g.pending with
      | some (opt, none) =>
        readArguments table { g with pending := some (opt, some argument) } rest
      | _ => .error (.unknownArgument argument none [])

def readEnvironment (environment : List (String × String)) (g : Given) :
    List Opt → Except Fault Given
  | [] => .ok g
  | opt :: table =>
    if (g.find? opt).isSome then readEnvironment environment g table
    else match environment.find? fun p => p.1 = opt.capitals with
      | none => readEnvironment environment g table
      | some (_, text) => do readEnvironment environment (← g.accept opt text) table

def read (table : List Opt) (environment : List (String × String)) (arguments : List String) :
    Except Fault Given := do
  readEnvironment environment (← readArguments table {} arguments) table

/-! ## Help -/

def helpEntry (environment : List (String × String)) (o : Opt) : String :=
  let value := ((environment.find? fun p => p.1 = o.capitals).map (·.2)).getD ""
  "  " ++ (match o.letter with
    | some c => String.ofList ['-', c, ',', ' ']
    | none => "    ") ++ o.shown ++ "\n          " ++ o.help ++
    " [env: " ++ o.capitals ++ "=" ++ value ++ "]" ++
    (match o.default with
      | some d => " [default: " ++ d ++ "]"
      | none => "") ++
    (if o.words.isEmpty then "" else " [possible values: " ++ ", ".intercalate o.words ++ "]")

def helpText (program : String) (table : List Opt) (environment : List (String × String)) :
    String :=
  usage program [] ++ "\n\nOptions:\n" ++
    "\n".intercalate (table.map (helpEntry environment) ++
      ["  -h, --help\n          Print help", "  -V, --version\n          Print version"]) ++ "\n"

end EventHub.CommandLine
