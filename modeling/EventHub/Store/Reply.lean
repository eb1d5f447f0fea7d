import EventHub.Numeric.Width
import EventHub.Store.Basic
import EventHub.Text.Digits
import EventHub.Text.Split
/-!
# Replies of the store

The replies to commands, how they are read, and what those to a whole call amount to.
-/

namespace EventHub.Store

inductive Reply where
  | status (s : String)
  /-- The code of an error is its first word. -/
  | error (code : String)
  | integer (n : Int)
  | text (s : String)
  | nil
  | list (items : List Reply)
deriving Repr

namespace Reply

def takeLine : List Char → Option (List Char × List Char)
  | '\r' :: '\n' :: rest => some ([], rest)
  | c :: rest => (takeLine rest).map fun (line, rest) => (c :: line, rest)
  | [] => none

def readInteger (digits : List Char) : Option Int :=
  match digits with
  | '-' :: rest => (Text.digitsValue? rest).map fun n => -(n : Int)
  | '+' :: rest => (Text.digitsValue? rest).map fun n => (n : Int)
  | rest => (Text.digitsValue? rest).map fun n => (n : Int)

def read (depth : Nat) (text : List Char) : Option (Reply × List Char) :=
  match depth with
  | 0 => none
  | depth + 1 => do
    let (line, rest) ← takeLine text
    match line with
    | '+' :: s => return (.status (String.ofList s), rest)
    | '-' :: s => return (.error (String.ofList (Text.splitFirst ' ' s).1), rest)
    | ':' :: s => return (.integer (← readInteger s), rest)
    | '$' :: s =>
      let n ← readInteger s
      if n < 0 then return (.nil, rest)
      else return (.text (String.ofList (rest.take n.toNat)), rest.drop (n.toNat + 2))
    | '*' :: s =>
      let n ← readInteger s
      if n < 0 then return (.nil, rest)
      else
        let (items, rest) ← readItems depth n.toNat rest
        return (.list items, rest)
    | _ => none
where
  /-- Reads so many replies. -/
  readItems (depth : Nat) : Nat → List Char → Option (List Reply × List Char)
    | 0, text => some ([], text)
    | n + 1, text => do
      let (item, text) ← read depth text
      let (items, text) ← readItems depth n text
      return (item :: items, text)

mutual

def firstError? : Reply → Option String
  | .error code => some code
  | .list items => firstErrorIn? items
  | _ => none

def firstErrorIn? : List Reply → Option String
  | [] => none
  | r :: rest => (firstError? r).or (firstErrorIn? rest)

end

end Reply

def replyError (code : String) : Error := ⟨.store (.ofCode code), some (.external code)⟩

def pipelineResult (replies : List Reply) : Except Error Unit :=
  match Reply.firstErrorIn? replies with
  | some code => .error (replyError code)
  | none => .ok ()

/-- The result of a transaction. An error in place of its results, when no command of it was
refused, is never told apart. -/
def transactionResult (before : List Reply) (last : Reply) : Except Error Unit :=
  match pipelineResult before, last with
  | .error e, _ => .error e
  | .ok (), .error code => .error ⟨.store .unavailable, some (.external code)⟩
  | .ok (), last => pipelineResult [last]

/-- The result of counting: a number, a text that is one, or nothing for zero. -/
def countResult : Reply → Except Error Nat
  | .error code => .error (replyError code)
  | .nil => .ok 0
  | .integer n => .ok (floorCount n)
  | .text s | .status s =>
    match Reply.readInteger s.toList with
    | some n =>
      if -(Numeric.limit 63 : Int) ≤ n && n < Numeric.limit 63 then .ok (floorCount n)
      else .error (replyError "TYPE")
    | none => .error (replyError "TYPE")
  | .list _ => .error (replyError "TYPE")

/-- The result of a call with these replies to its commands. -/
def Call.result (replies : List Reply) : Call → Except Error Nat
  | register .. | unregister .. =>
    (transactionResult replies.dropLast (replies.getLast?.getD .nil)).map fun _ => 0
  | count => countResult (replies.headD .nil)
  | refresh .. => (pipelineResult replies).map fun _ => 0

end EventHub.Store
