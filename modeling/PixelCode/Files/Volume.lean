import PixelCode.Files.Store

/-! Volumes: what a command needs from a system of files. -/
namespace PixelCode.Files

/-- A state of some files that are read and written as wholes. Failures are texts that say why. -/
class Volume (F : Type) where
  read : F → String → Except String (List UInt8)
  write : F → String → List UInt8 → Except String F

instance : Volume Store where
  read files path := (files.read path).mapError Error.message
  write files path bytes := (files.write path bytes).mapError Error.message

end PixelCode.Files
