/-!
# Lines

A line ends at a line feed, or at a carriage return followed by one; the end of the text ends the
last line. The terminators belong to no line.
-/

namespace EventHub.Text

def lines : List Char → List (List Char)
  | [] => []
  | '\n' :: rest => [] :: lines rest
  | '\r' :: '\n' :: rest => [] :: lines rest
  | c :: rest =>
    match lines rest with
    | [] => [[c]]
    | line :: more => (c :: line) :: more

end EventHub.Text
