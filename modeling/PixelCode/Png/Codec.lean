import PixelCode.Image.Raster
import PixelCode.Png.Checksum
import PixelCode.Png.Inflate

/-! Portable network graphics with samples of eight or sixteen bits and without interlacing. -/
namespace PixelCode.Png

def signature : List UInt8 := [0x89, 0x50, 0x4e, 0x47, 0x0d, 0x0a, 0x1a, 0x0a]

def channelsCode : Channels → UInt8
  | .grey => 0
  | .rgb => 2
  | .greyAlpha => 4
  | .rgba => 6

def channelsOf? (code : UInt8) : Option Channels :=
  [Channels.grey, .rgb, .greyAlpha, .rgba].find? (channelsCode · = code)

def tag (name : String) : List UInt8 := name.toUTF8.data.toList

def chunk (name : String) (data : List UInt8) : List UInt8 :=
  let body := tag name ++ data
  wordBytes (UInt32.ofNat data.length) ++ body ++ wordBytes (crc32 body)

def chunkLimit : Nat := 0x7fffffff

def dataChunks (data : List UInt8) : List UInt8 :=
  if data.length ≤ chunkLimit then chunk "IDAT" data
  else chunk "IDAT" (data.take chunkLimit) ++ dataChunks (data.drop chunkLimit)
termination_by data.length
decreasing_by
  rw [List.length_drop]
  unfold chunkLimit at *
  omega

def plainRows (size : Nat) : Nat → List UInt8 → List UInt8
  | 0, _ => []
  | height + 1, samples => 0 :: samples.take size ++ plainRows size height (samples.drop size)

def storedHead (final : UInt8) (size : Nat) : List UInt8 :=
  let low := UInt8.ofNat size
  let high := UInt8.ofNat (size / 256)
  [final, low, high, ~~~low, ~~~high]

def storedBlocks (data : List UInt8) : List UInt8 :=
  if data.length ≤ 65535 then storedHead 1 data.length ++ data
  else storedHead 0 65535 ++ data.take 65535 ++ storedBlocks (data.drop 65535)
termination_by data.length
decreasing_by
  rw [List.length_drop]
  omega

def stream (data : List UInt8) : List UInt8 :=
  [0x78, 0x01] ++ storedBlocks data ++ wordBytes (adler32 data)

def header (layout : SampleLayout) (width height : Nat) : List UInt8 :=
  wordBytes (UInt32.ofNat width) ++ wordBytes (UInt32.ofNat height) ++
    [if layout.wide then 16 else 8, channelsCode layout.channels, 0, 0, 0]

def encodeSamples (layout : SampleLayout) (width height : Nat) (samples : List UInt8) :
    List UInt8 :=
  signature ++ chunk "IHDR" (header layout width height) ++
    dataChunks (stream (plainRows (width * layout.pixelBytes) height samples)) ++ chunk "IEND" []

def encode (r : Raster) : List UInt8 := encodeSamples .rgba8 r.width r.height r.rgba

def number (bytes : List UInt8) : Nat := bytes.foldl (fun n b => 256 * n + b.toNat) 0

def chunks (bytes : List UInt8) : List (List UInt8 × List UInt8) :=
  let size := number (bytes.take 4)
  if 12 + size ≤ bytes.length then
    ((bytes.drop 4).take 4, (bytes.drop 8).take size) :: chunks (bytes.drop (12 + size))
  else []
termination_by bytes.length
decreasing_by
  rw [List.length_drop]
  omega

def nearest (left up corner : UInt8) : UInt8 :=
  let estimate : Int := left.toNat + up.toNat - corner.toNat
  let distance (b : UInt8) : Nat := (estimate - b.toNat).natAbs
  if distance left ≤ distance up ∧ distance left ≤ distance corner then left
  else if distance up ≤ distance corner then up
  else corner

def restoreRow (step : Nat) (filter : UInt8) (above row : Array UInt8) : Array UInt8 :=
  (List.range row.size).foldl (fun out i =>
    let left := if step ≤ i then out.getD (i - step) 0 else 0
    let up := above.getD i 0
    let corner := if step ≤ i then above.getD (i - step) 0 else 0
    let predicted := match filter with
      | 1 => left
      | 2 => up
      | 3 => UInt8.ofNat ((left.toNat + up.toNat) / 2)
      | 4 => nearest left up corner
      | _ => 0
    out.push (row.getD i 0 + predicted)) #[]

def restoreRows (step size : Nat) (data : Array UInt8) :
    Nat → Nat → Array UInt8 → List UInt8
  | 0, _, _ => []
  | height + 1, start, above =>
    let row := restoreRow step (data.getD start 0) above (data.extract (start + 1) (start + 1 + size))
    row.toList ++ restoreRows step size data height (start + 1 + size) row

inductive DecodeError where
  | endOfFile
  | wrongSignature
  | wrongHeader
  | wrongData
  deriving DecidableEq, Repr

def DecodeError.message : DecodeError → String
  | endOfFile => "unexpected end of file"
  | wrongSignature => "Format error decoding Png: Invalid PNG signature."
  | wrongHeader => "Format error decoding Png: Unsupported image header."
  | wrongData => "Format error decoding Png: Unsupported image data."

/-- What follows a word of the signature. A word is compared once all of its four bytes are there. -/
def afterWord (word bytes : List UInt8) : Except DecodeError (List UInt8) :=
  if bytes.length < 4 then .error .endOfFile
  else if bytes.take 4 = word then .ok (bytes.drop 4)
  else .error .wrongSignature

def afterSignature (bytes : List UInt8) : Except DecodeError (List UInt8) := do
  let rest ← afterWord (signature.take 4) bytes
  afterWord (signature.drop 4) rest

private theorem afterWord_eq_ok_iff {word bytes rest : List UInt8} (hw : word.length = 4) :
    afterWord word bytes = .ok rest ↔ bytes = word ++ rest := by
  unfold afterWord
  constructor
  · intro h
    split at h
    · cases h
    · split at h
      · next heq =>
        cases h
        rw [← heq, List.take_append_drop]
      · cases h
  · rintro rfl
    rw [if_neg (by simp [hw]), if_pos (by simp [← hw]), ← hw, List.drop_left]

theorem afterSignature_eq_ok_iff {bytes rest : List UInt8} :
    afterSignature bytes = .ok rest ↔ bytes = signature ++ rest := by
  have hs : signature.take 4 ++ signature.drop 4 = signature := List.take_append_drop 4 signature
  have hl : (signature.take 4).length = 4 := rfl
  have hr : (signature.drop 4).length = 4 := rfl
  constructor
  · intro h
    cases hf : afterWord (signature.take 4) bytes with
    | error e => rw [afterSignature, hf] at h; cases h
    | ok tail =>
      rw [afterSignature, hf] at h
      have ht : tail = signature.drop 4 ++ rest := (afterWord_eq_ok_iff hr).1 h
      rw [(afterWord_eq_ok_iff hl).1 hf, ht, ← List.append_assoc, hs]
  · intro h
    have hf : afterWord (signature.take 4) bytes = .ok (signature.drop 4 ++ rest) :=
      (afterWord_eq_ok_iff hl).2 (by rw [h, ← List.append_assoc, hs])
    rw [afterSignature, hf]
    exact (afterWord_eq_ok_iff hr).2 rfl

def layout? (header : List UInt8) : Option (Nat × Nat × SampleLayout) :=
  let width := number (header.take 4)
  let height := number ((header.drop 4).take 4)
  match header.drop 8 with
  | [depth, code, 0, 0, 0] =>
    if width = 0 ∨ height = 0 ∨ ¬(depth = 8 ∨ depth = 16) then none
    else (channelsOf? code).map fun channels => (width, height, ⟨channels, depth == 16⟩)
  | _ => none

def named (name : String) (chunks : List (List UInt8 × List UInt8)) : List (List UInt8) :=
  (chunks.filter (·.1 = tag name)).map (·.2)

/-- The image in the chunks of a file. Checksums are not verified. -/
def ofChunks : List (List UInt8 × List UInt8) → Except DecodeError Raster
  | [] => .error .endOfFile
  | (_, header) :: rest =>
    match layout? header with
    | none => .error .wrongHeader
    | some (width, height, layout) =>
      let size := width * layout.pixelBytes
      let failure := if (named "IEND" rest).isEmpty then DecodeError.endOfFile else .wrongData
      match inflate? ((named "IDAT" rest).flatten.drop 2).toArray with
      | none => .error failure
      | some pixels =>
        if pixels.size < height * (size + 1) then .error failure
        else .ok ⟨width, height, layout.toRgba (restoreRows layout.pixelBytes size pixels height 0 #[])⟩

def decode (bytes : List UInt8) : Except DecodeError Raster := do
  ofChunks (chunks (← afterSignature bytes))

def codec : ImageCodec := ⟨fun bytes => (decode bytes).mapError DecodeError.message, encode⟩

end PixelCode.Png
