/-! The lines of a text. -/
namespace PixelCode.Text

def consFirst (c : Char) : List (List Char) → List (List Char)
  | [] => [[c]]
  | line :: rest => (c :: line) :: rest

/-- The lines of a text. A line feed ends a line and is dropped with a carriage return right before
it; what follows the last line feed is a line of its own unless it is empty. -/
def lines : List Char → List (List Char)
  | [] => []
  | '\n' :: cs => [] :: lines cs
  | '\r' :: '\n' :: cs => [] :: lines cs
  | c :: cs => consFirst c (lines cs)

end PixelCode.Text
