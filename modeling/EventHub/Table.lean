/-!
# Tables

Finite maps as lists of pairs, in the order in which the keys first came. A table built by these
operations has no key twice.
-/

namespace EventHub

abbrev Table (κ ν : Type) := List (κ × ν)

namespace Table

variable {κ ν : Type} [DecidableEq κ]

def find? (t : Table κ ν) (key : κ) : Option ν :=
  match t with
  | [] => none
  | (k, v) :: rest => if k = key then some v else find? rest key

def contains (t : Table κ ν) (key : κ) : Bool := (find? t key).isSome

/-- Replaces the value of a key that is present, or adds the key at the end. -/
def set (t : Table κ ν) (key : κ) (value : ν) : Table κ ν :=
  match t with
  | [] => [(key, value)]
  | (k, v) :: rest => if k = key then (key, value) :: rest else (k, v) :: set rest key value

def erase (t : Table κ ν) (key : κ) : Table κ ν :=
  match t with
  | [] => []
  | (k, v) :: rest => if k = key then erase rest key else (k, v) :: erase rest key

def keys (t : Table κ ν) : List κ := t.map (·.1)

def values (t : Table κ ν) : List ν := t.map (·.2)

end Table

end EventHub
