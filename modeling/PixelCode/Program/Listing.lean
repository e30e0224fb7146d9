import PixelCode.Program
import PixelCode.Text.Blank
import PixelCode.Text.Digits
import PixelCode.Text.Lines

/-! Programs written as hexadecimal bytes, with comments after a hash sign. -/
namespace PixelCode.Program

structure ListingError where
  token : String
  index : Nat
  deriving DecidableEq, Repr

def ListingError.message (e : ListingError) : String :=
  s!"invalid hex byte '{e.token}' at token {e.index}"

def isListingSeparator (c : Char) : Bool := Text.isBlank c || c == ','

def listingTokens (text : List Char) : List (List Char) :=
  (Text.lines text).flatMap fun line =>
    Text.pieces isListingSeparator (line.takeWhile (· ≠ '#'))

def tokenDigits : List Char → List Char
  | '0' :: 'x' :: digits => digits
  | '0' :: 'X' :: digits => digits
  | digits => digits

/-- The byte that a token stands for. Its digits, a plus sign included, take one or two bytes. -/
def tokenByte? (token : List Char) : Option UInt8 :=
  let digits := tokenDigits token
  if digits.isEmpty || 2 < (digits.flatMap String.utf8EncodeChar).length then none
  else (Text.unsigned? 16 256 digits).map UInt8.ofNat

def readTokens : Nat → List (List Char) → Except ListingError (List UInt8)
  | _, [] => .ok []
  | index, token :: tokens =>
    match tokenByte? token with
    | none => .error ⟨String.ofList token, index⟩
    | some b => (readTokens (index + 1) tokens).map (b :: ·)

def ofListing (text : String) : Except ListingError Program :=
  (readTokens 0 (listingTokens text.toList)).map ofList

def rows : List UInt8 → List (List UInt8)
  | [] => []
  | b :: bytes => (b :: bytes.take 15) :: rows (bytes.drop 15)
termination_by bytes => bytes.length
decreasing_by
  rw [List.length_drop, List.length_cons]
  omega

def rowText (row : List UInt8) : List Char :=
  [' '].intercalate (row.map Text.hexByte) ++ ['\n']

def listing (p : Program) : String :=
  String.ofList ((rows p.toList).flatMap rowText)

end PixelCode.Program
