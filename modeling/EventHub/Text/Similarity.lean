/-!
# Similar words

How many characters two words share at nearby places, and how many of these are in another order.
The similarity is a fraction between zero and one.
-/

namespace EventHub.Text

/-- A fraction; `den` is positive wherever one is made. -/
structure Fraction where
  num : Nat
  den : Nat
deriving DecidableEq, Repr

def Fraction.lt (a b : Fraction) : Bool := a.num * b.den < b.num * a.den

namespace Similarity

/-- Takes the first free place from `low` up to below `high` that holds the character. The places
are counted from `place`; a taken one is marked. -/
def claim (c : Char) (low high place : Nat) : List (Char × Bool) → Option (List (Char × Bool))
  | [] => none
  | (d, taken) :: rest =>
    if low ≤ place && place < high && d = c && !taken then some ((d, true) :: rest)
    else (claim c low high (place + 1) rest).map ((d, taken) :: ·)

/-- The characters of the first word that found a partner, and the second word with the partners
marked. -/
def pair (range index : Nat) :
    List Char → List (Char × Bool) → List Char × List (Char × Bool)
  | [], b => ([], b)
  | c :: rest, b =>
    match claim c (index - range) (index + range + 1) 0 b with
    | some b =>
      let (found, b) := pair range (index + 1) rest b
      (c :: found, b)
    | none => pair range (index + 1) rest b

end Similarity

def similarity (a b : List Char) : Fraction :=
  if a.isEmpty && b.isEmpty then ⟨1, 1⟩
  else
    let range := max a.length b.length / 2 - 1
    let (left, marked) := Similarity.pair range 0 a (b.map (·, false))
    let right := (marked.filter (·.2)).map (·.1)
    let m := left.length
    let t := ((left.zip right).filter fun p => p.1 ≠ p.2).length / 2
    if m = 0 then ⟨0, 1⟩
    else
      ⟨m * m * b.length + m * m * a.length + (m - t) * a.length * b.length,
        3 * a.length * b.length * m⟩

/-- The most similar of the words, the last of several, unless its similarity is at most 7/10. -/
def mostSimilar (word : String) (words : List String) : Option String :=
  let best := words.foldl (fun best w =>
    let s := similarity word.toList w.toList
    if !Fraction.lt ⟨7, 10⟩ s then best
    else match best with
      | some (t, v) => if Fraction.lt s t then some (t, v) else some (s, w)
      | none => some (s, w)) (none : Option (Fraction × String))
  best.map (·.2)

end EventHub.Text
