import PixelCode.Text.Digits
import PixelCode.Text.Upper

/-! The words of assembly text and what they stand for. -/
namespace PixelCode.Assembly

inductive Token where
  | name (s : String)
  | number (n : Nat)
  deriving DecidableEq, Repr

namespace Token

def text : Token → String
  | name s => s
  | number n => toString n

def numberLimit : Nat := 0x10000000000000000

def isGraphic (c : Char) : Bool := 0x21 ≤ c.toNat && c.toNat ≤ 0x7e

/-- The code of a character between apostrophes; the first apostrophe is already taken. -/
def characterCode? : List Char → Option Nat
  | [c, '\''] => if isGraphic c then some c.toNat else none
  | _ => none

def decimal? (word : List Char) : Option Nat :=
  (Text.digits? 10 word).filter (· < numberLimit)

/-- The token that a word stands for. A word that starts like a number and is none stands for
nothing; any other word is a name. -/
def ofWord? : List Char → Option Token
  | '0' :: 'x' :: digits => (Text.unsigned? 16 numberLimit digits).map number
  | '0' :: 'X' :: digits => (Text.unsigned? 16 numberLimit digits).map number
  | '\'' :: rest => (characterCode? rest).map number
  | word =>
    if word.head?.any Char.isDigit then (decimal? word).map number
    else some (name (String.ofList (Text.upper word)))

end Token
end PixelCode.Assembly
