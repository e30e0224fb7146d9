/-! The two checksums of image files. -/
namespace PixelCode.Png

def crcBit (crc : UInt32) : UInt32 :=
  if crc &&& 1 = 1 then (crc >>> 1) ^^^ 0xedb88320 else crc >>> 1

def crcByte (crc : UInt32) (b : UInt8) : UInt32 :=
  Nat.repeat crcBit 8 (crc ^^^ b.toUInt32)

def crc32 (bytes : List UInt8) : UInt32 :=
  bytes.foldl crcByte 0xffffffff ^^^ 0xffffffff

def adler32 (bytes : List UInt8) : UInt32 :=
  let (a, b) := bytes.foldl (fun (a, b) x =>
    let a := (a + x.toNat) % 65521
    (a, (b + a) % 65521)) (1, 0)
  UInt32.ofNat (b * 65536 + a)

def wordBytes (w : UInt32) : List UInt8 :=
  [(w >>> 24).toUInt8, (w >>> 16).toUInt8, (w >>> 8).toUInt8, w.toUInt8]

end PixelCode.Png
