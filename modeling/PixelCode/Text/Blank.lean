/-! Blank characters, and the pieces of a text between separators. -/
namespace PixelCode.Text

def blankRanges : List (Nat × Nat) :=
  [(0x09, 0x0d), (0x20, 0x20), (0x85, 0x85), (0xa0, 0xa0), (0x1680, 0x1680), (0x2000, 0x200a),
   (0x2028, 0x2029), (0x202f, 0x202f), (0x205f, 0x205f), (0x3000, 0x3000)]

def isBlank (c : Char) : Bool :=
  blankRanges.any fun (first, last) => first ≤ c.toNat && c.toNat ≤ last

def fields (separates : Char → Bool) : List Char → List (List Char)
  | [] => [[]]
  | c :: cs =>
    if separates c then [] :: fields separates cs
    else match fields separates cs with
      | [] => [[c]]
      | piece :: pieces => (c :: piece) :: pieces

def pieces (separates : Char → Bool) (cs : List Char) : List (List Char) :=
  (fields separates cs).filter (! ·.isEmpty)

def words (cs : List Char) : List (List Char) :=
  pieces isBlank cs

end PixelCode.Text
