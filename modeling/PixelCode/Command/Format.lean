import PixelCode.Files.Path

/-! How a program or an image is stored in a file. -/
namespace PixelCode.Command

inductive Format where
  | bin
  | hex
  | rgba
  | png
  deriving DecidableEq, Repr

namespace Format

def label : Format → String
  | bin => "Bin"
  | hex => "Hex"
  | rgba => "Rgba"
  | png => "Png"

def ofName? : String → Option Format
  | "bin" => some bin
  | "hex" => some hex
  | "rgba" => some rgba
  | "png" => some png
  | _ => none

/-- The format that the extension of a path suggests, in either letter case. Other files hold plain
bytes. -/
def ofPath (path : String) : Format :=
  match (Files.extension? path).map fun e => e.map Char.toLower with
  | some "hex" => hex
  | some "rgba" => rgba
  | some "png" => png
  | _ => bin

end Format
end PixelCode.Command
