/-!
# Splitting texts

At every occurrence of a character, or at the first one.
-/

namespace EventHub.Text

def splitAll (separator : Char) : List Char → List (List Char)
  | [] => [[]]
  | c :: rest =>
    if c = separator then [] :: splitAll separator rest
    else match splitAll separator rest with
      | [] => [[c]]
      | part :: more => (c :: part) :: more

/-- What stands before the first separator, and what stands behind it if there is one. -/
def splitFirst (separator : Char) : List Char → List Char × Option (List Char)
  | [] => ([], none)
  | c :: rest =>
    if c = separator then ([], some rest)
    else
      let (before, behind) := splitFirst separator rest
      (c :: before, behind)

end EventHub.Text
