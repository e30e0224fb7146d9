import PixelCode.Text.Blank

/-! Paths as texts: their segments between slashes, file names and extensions. -/
namespace PixelCode.Files

def segments (path : String) : List (List Char) :=
  Text.fields (· == '/') path.toList

def isVoid (segment : List Char) : Bool := segment == [] || segment == ['.']

/-- The directory segments and the file name of a path. Void segments at the end are ignored; a path
whose last segment leads to a parent directory has no file name. -/
def splitName? (path : String) : Option (List (List Char) × List Char) :=
  match (segments path).reverse.dropWhile isVoid with
  | [] => none
  | name :: directories => if name = ['.', '.'] then none else some (directories.reverse, name)

/-- The stem of a file name, and its extension: what follows the last dot. A name whose only dot
comes first has no extension. -/
def splitExtension (name : List Char) : List Char × Option (List Char) :=
  match name.reverse.dropWhile (· != '.') with
  | [] => (name, none)
  | [_] => (name, none)
  | _ :: stem => (stem.reverse, some (name.reverse.takeWhile (· != '.')).reverse)

def extension? (path : String) : Option String :=
  (splitName? path).bind fun (_, name) => (splitExtension name).2.map String.ofList

/-- A file name with its extension replaced or, if it has none, added. Where the old extension
leaves two dots behind, they lead to the parent directory and take no new one. -/
def renamed (name extension : List Char) : List Char :=
  let stem := (splitExtension name).1
  if stem = ['.'] then ['.', '.'] else stem ++ '.' :: extension

/-- The path with its extension replaced or added. A path without file name stays as it is. -/
def withExtension (path : String) (extension : String) : String :=
  match splitName? path with
  | none => path
  | some (directories, name) =>
    String.ofList (['/'].intercalate (directories ++ [renamed name extension.toList]))

end PixelCode.Files
