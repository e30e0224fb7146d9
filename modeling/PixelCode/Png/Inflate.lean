/-! Decompression of deflated data. -/
namespace PixelCode.Png

def bit? (data : Array UInt8) (pos : Nat) : Option Nat :=
  data[pos / 8]?.map fun b => b.toNat / Nat.pow 2 (pos % 8) % 2

def bits? (data : Array UInt8) (pos : Nat) : Nat → Option Nat
  | 0 => some 0
  | count + 1 => do
    let low ← bit? data pos
    let high ← bits? data (pos + 1) count
    return low + 2 * high

/-- A canonical prefix code: how many code words there are of each length from one on, and the
symbols in the order of their code words. -/
structure PrefixCode where
  counts : List Nat
  symbols : Array Nat

namespace PrefixCode

/-- The code in which symbol `i` has a word of length `lengths[i]`, and none for length zero. -/
def ofLengths (lengths : List Nat) : PrefixCode :=
  let ofLength (length : Nat) : List Nat :=
    (lengths.zipIdx.filter (·.1 = length)).map (·.2)
  let byLength := (List.range 15).map fun i => ofLength (i + 1)
  ⟨byLength.map List.length, byLength.flatten.toArray⟩

/-- Reads a symbol, bit by bit, and returns it with the position after it. `code` is what was read,
`first` the first code word of the current length and `index` the number of shorter words. -/
def readFrom (c : PrefixCode) (data : Array UInt8) :
    List Nat → Nat → Nat → Nat → Nat → Option (Nat × Nat)
  | [], _, _, _, _ => none
  | count :: counts, code, first, index, pos => do
    let code := code + (← bit? data pos)
    if code < first + count then
      return (← c.symbols[index + (code - first)]?, pos + 1)
    else c.readFrom data counts (2 * code) (2 * (first + count)) (index + count) (pos + 1)

def read (c : PrefixCode) (data : Array UInt8) (pos : Nat) : Option (Nat × Nat) :=
  c.readFrom data c.counts 0 0 0 pos

end PrefixCode

def lengthTable : Array (Nat × Nat) :=
  #[(3, 0), (4, 0), (5, 0), (6, 0), (7, 0), (8, 0), (9, 0), (10, 0), (11, 1), (13, 1), (15, 1),
    (17, 1), (19, 2), (23, 2), (27, 2), (31, 2), (35, 3), (43, 3), (51, 3), (59, 3), (67, 4),
    (83, 4), (99, 4), (115, 4), (131, 5), (163, 5), (195, 5), (227, 5), (258, 0)]

def distanceTable : Array (Nat × Nat) :=
  #[(1, 0), (2, 0), (3, 0), (4, 0), (5, 1), (7, 1), (9, 2), (13, 2), (17, 3), (25, 3), (33, 4),
    (49, 4), (65, 5), (97, 5), (129, 6), (193, 6), (257, 7), (385, 7), (513, 8), (769, 8),
    (1025, 9), (1537, 9), (2049, 10), (3073, 10), (4097, 11), (6145, 11), (8193, 12), (12289, 12),
    (16385, 13), (24577, 13)]

def extended? (table : Array (Nat × Nat)) (symbol : Nat) (data : Array UInt8) (pos : Nat) :
    Option (Nat × Nat) := do
  let (base, extra) ← table[symbol]?
  return (base + (← bits? data pos extra), pos + extra)

def copyBack (distance : Nat) : Nat → Array UInt8 → Option (Array UInt8)
  | 0, out => some out
  | count + 1, out =>
    if 0 < distance ∧ distance ≤ out.size then do
      copyBack distance count (out.push (← out[out.size - distance]?))
    else none

/-- Decodes the symbols of a compressed block. Each takes at least one bit, so `fuel` bits suffice. -/
def symbols (literals distances : PrefixCode) (data : Array UInt8) :
    Nat → Nat → Array UInt8 → Option (Nat × Array UInt8)
  | 0, _, _ => none
  | fuel + 1, pos, out => do
    let (symbol, pos) ← literals.read data pos
    if symbol < 256 then symbols literals distances data fuel pos (out.push (UInt8.ofNat symbol))
    else if symbol = 256 then return (pos, out)
    else
      let (length, pos) ← extended? lengthTable (symbol - 257) data pos
      let (code, pos) ← distances.read data pos
      let (distance, pos) ← extended? distanceTable code data pos
      symbols literals distances data fuel pos (← copyBack distance length out)

def fixedLiterals : PrefixCode :=
  .ofLengths (.replicate 144 8 ++ .replicate 112 9 ++ .replicate 24 7 ++ .replicate 8 8)

def fixedDistances : PrefixCode := .ofLengths (.replicate 30 5)

def codeLengths (c : PrefixCode) (data : Array UInt8) (count : Nat) :
    Nat → Nat → List Nat → Option (List Nat × Nat)
  | 0, _, _ => none
  | fuel + 1, pos, lengths => do
    if count ≤ lengths.length then return (lengths.take count, pos)
    let (symbol, pos) ← c.read data pos
    if symbol < 16 then codeLengths c data count fuel pos (lengths ++ [symbol])
    else if symbol = 16 then
      let times := 3 + (← bits? data pos 2)
      let last ← lengths.getLast?
      codeLengths c data count fuel (pos + 2) (lengths ++ .replicate times last)
    else if symbol = 17 then
      let times := 3 + (← bits? data pos 3)
      codeLengths c data count fuel (pos + 3) (lengths ++ .replicate times 0)
    else
      let times := 11 + (← bits? data pos 7)
      codeLengths c data count fuel (pos + 7) (lengths ++ .replicate times 0)

def codeLengthOrder : List Nat := [16, 17, 18, 0, 8, 7, 9, 6, 10, 5, 11, 4, 12, 3, 13, 2, 14, 1, 15]

def ownCodes (data : Array UInt8) (pos : Nat) : Option (PrefixCode × PrefixCode × Nat) := do
  let literalCount := 257 + (← bits? data pos 5)
  let distanceCount := 1 + (← bits? data (pos + 5) 5)
  let codeCount := 4 + (← bits? data (pos + 10) 4)
  let stored ← (List.range codeCount).mapM fun i => bits? data (pos + 14 + 3 * i) 3
  let assigned := codeLengthOrder.zip stored
  let code := PrefixCode.ofLengths ((List.range 19).map fun i => (assigned.lookup i).getD 0)
  let (lengths, pos) ← codeLengths code data (literalCount + distanceCount) 321
    (pos + 14 + 3 * codeCount) []
  return (.ofLengths (lengths.take literalCount), .ofLengths (lengths.drop literalCount), pos)

def storedBlock (data : Array UInt8) (pos : Nat) (out : Array UInt8) :
    Option (Nat × Array UInt8) := do
  let start := (pos + 7) / 8
  let size := (← data[start]?).toNat + 256 * (← data[start + 1]?).toNat
  if start + 4 + size ≤ data.size then
    return (8 * (start + 4 + size), out ++ data.extract (start + 4) (start + 4 + size))
  else none

def blocks (data : Array UInt8) : Nat → Nat → Array UInt8 → Option (Array UInt8)
  | 0, _, _ => none
  | fuel + 1, pos, out => do
    let final ← bit? data pos
    let kind ← bits? data (pos + 1) 2
    let (pos, out) ←
      if kind = 0 then storedBlock data (pos + 3) out
      else if kind = 1 then
        symbols fixedLiterals fixedDistances data (8 * data.size + 1) (pos + 3) out
      else if kind = 2 then do
        let (literals, distances, pos) ← ownCodes data (pos + 3)
        symbols literals distances data (8 * data.size + 1) pos out
      else none
    if final = 1 then return out else blocks data fuel pos out

def inflate? (data : Array UInt8) : Option (Array UInt8) :=
  blocks data (8 * data.size + 1) 0 #[]

end PixelCode.Png
