import PixelCode.Files.Path

/-! Files and directories, as paths lead to them from a working directory. -/
namespace PixelCode.Files

inductive Error where
  | noEntry
  | notDirectory
  | isDirectory
  deriving DecidableEq, Repr

def Error.message : Error → String
  | noEntry => "No such file or directory (os error 2)"
  | notDirectory => "Not a directory (os error 20)"
  | isDirectory => "Is a directory (os error 21)"

inductive Origin where
  | above (levels : Nat)
  | root
  deriving DecidableEq, Repr

def Origin.parent : Origin → Origin
  | above levels => above (levels + 1)
  | root => root

structure Location where
  origin : Origin
  names : List (List Char)
  deriving DecidableEq, Repr

namespace Location

def ofNames (names : List (List Char)) : Location := ⟨.above 0, names⟩

def parent (location : Location) : Location :=
  match location.names with
  | [] => ⟨location.origin.parent, []⟩
  | names => ⟨location.origin, names.dropLast⟩

def child (location : Location) (name : List Char) : Location :=
  ⟨location.origin, location.names ++ [name]⟩

/-- Where the segments of a path start, and those that remain to be followed: an empty first segment
of several stands for the root. -/
def start : List (List Char) → Location × List (List Char)
  | [] :: segment :: rest => (⟨.root, []⟩, segment :: rest)
  | segments => (.ofNames [], segments)

end Location

inductive Node where
  | directory
  | file (bytes : List UInt8)
  deriving DecidableEq, Repr

structure Store where
  nodes : List (Location × Node)
  deriving DecidableEq, Repr

namespace Store

def empty : Store := ⟨[]⟩

def node? (s : Store) (location : Location) : Option Node :=
  if location.names = [] then some .directory else s.nodes.lookup location

def put (s : Store) (location : Location) (node : Node) : Store :=
  if (s.nodes.lookup location).isSome then
    ⟨s.nodes.map fun entry => if entry.1 = location then (location, node) else entry⟩
  else ⟨s.nodes ++ [(location, node)]⟩

def follow (s : Store) (location : Location) (segment : List Char) : Except Error Location :=
  match s.node? location with
  | none => .error .noEntry
  | some (.file _) => .error .notDirectory
  | some .directory =>
    if isVoid segment then .ok location
    else if segment = ['.', '.'] then .ok location.parent
    else .ok (location.child segment)

def followAll (s : Store) : Location → List (List Char) → Except Error Location
  | location, [] => .ok location
  | location, segment :: rest => do
    let location ← s.follow location segment
    s.followAll location rest

/-- The location that a path names. The empty path names none. -/
def locate (s : Store) (path : String) : Except Error Location :=
  if path.isEmpty then .error .noEntry
  else
    let (location, segments) := Location.start (segments path)
    s.followAll location segments

def read (s : Store) (path : String) : Except Error (List UInt8) := do
  match s.node? (← s.locate path) with
  | none => .error .noEntry
  | some .directory => .error .isDirectory
  | some (.file bytes) => .ok bytes

/-- Writes a file, which is created or replaced. A path that ends with a slash, a dot or a step to a
parent directory can only name a directory. -/
def write (s : Store) (path : String) (bytes : List UInt8) : Except Error Store :=
  if path.isEmpty then .error .noEntry
  else
    let (origin, all) := Location.start (segments path)
    match all.reverse.dropWhile (· == []) with
    | [] => .error .isDirectory
    | last :: directories => do
      let directory ← s.followAll origin directories.reverse
      let location ← s.follow directory last
      if directories.length + 1 < all.length || isVoid last || last == ['.', '.'] then
        .error .isDirectory
      else match s.node? location with
        | some .directory => .error .isDirectory
        | _ => .ok (s.put location (.file bytes))

def files (s : Store) : List (String × List UInt8) :=
  s.nodes.filterMap fun (location, node) =>
    match location.origin, node with
    | .above 0, .file bytes => some (String.ofList (['/'].intercalate location.names), bytes)
    | _, _ => none

end Store
end PixelCode.Files
