import PixelCode.Command.Perform
import PixelCode.Png.Codec

/-! The command line. -/
namespace PixelCode

open Command

def systemMessage : IO.Error → String
  | .noFileOrDirectory .. => Files.Error.noEntry.message
  | .inappropriateType _ code _ =>
    if code = 20 ∨ code = -20 then Files.Error.notDirectory.message
    else Files.Error.isDirectory.message
  | .resourceExhausted .. => noSpace
  | e => toString e

def attempt {α : Type} (action : IO α) : IO (Except String α) := do
  try
    return .ok (← action)
  catch e => return .error (systemMessage e)

def tellError (text : String) : IO Unit := do
  let stream ← IO.getStderr
  stream.putStr text
  stream.flush

instance : Host IO where
  readFile path := attempt do return (← IO.FS.readBinFile path).data.toList
  writeFile path bytes := attempt (IO.FS.writeBinFile path ⟨bytes.toArray⟩)
  stdout := return .unlimited
  deliver sink := attempt do
    let stream ← IO.getStdout
    stream.write ⟨sink.received⟩
    stream.flush
  report notice := do
    match ← attempt (tellError notice.render) with
    | .ok () => return none
    | .error reason => return some reason
  panic p := do
    discard (attempt (tellError (p.message ++ "\n")))
  reserve size := return size < 0x1000000000

def ampleFuel : Nat := 0x4000000000000000

end PixelCode

def main (arguments : List String) : IO UInt32 := do
  let bytes (text : String) : List UInt8 := text.toUTF8.data.toList
  let env : PixelCode.Command.Environment :=
    ⟨(← IO.getEnv "CHROMA_LOG").map bytes, (← IO.getEnv "RUST_LOG").map bytes⟩
  let exit ← PixelCode.Command.launch ⟨PixelCode.Png.codec, .byLevel⟩ PixelCode.ampleFuel env
    (("chroma" :: arguments).map bytes)
  return exit.code
