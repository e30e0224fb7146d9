import PixelCode.Png.Codec
import PixelCode.Proofs.Except

/-! An image that was written as a file is read back: its pixels stand there row by row without filters, in blocks
without compression. -/
namespace PixelCode.Png

section Parts
variable {data : Array UInt8} {before part : List UInt8}

private theorem getElem?_part (hdata : data.toList = before ++ part) (i : Nat) :
    data[before.length + i]? = part[i]? := by
  rw [← Array.getElem?_toList, hdata, List.getElem?_append_right (Nat.le_add_right _ _), Nat.add_sub_cancel_left]

private theorem extract_part (hdata : data.toList = before ++ part) (i size : Nat) :
    data.extract (before.length + i) (before.length + i + size) = ((part.drop i).take size).toArray := by
  apply Array.toList_inj.1
  rw [Array.toList_extract, List.extract_eq_take_drop, hdata, Nat.add_sub_cancel_left, ← List.drop_drop,
    List.drop_left]

end Parts

section Inflation
variable {data : Array UInt8} {before payload rest : List UInt8} {final : UInt8}

/-- The bits of a byte that stands somewhere in the data. -/
theorem bit?_of_byte (hdata : data.toList = before ++ final :: rest) {i : Nat} (hi : i < 8) :
    bit? data (8 * before.length + i) = some (final.toNat / Nat.pow 2 i % 2) := by
  have hdiv : (8 * before.length + i) / 8 = before.length + 0 := by omega
  have hmod : (8 * before.length + i) % 8 = i := by omega
  rw [bit?, hdiv, hmod, getElem?_part hdata]
  rfl

private theorem length_storedHead (final : UInt8) (size : Nat) :
    (storedHead final size).length = 5 := rfl

private theorem storedBlock_eq
    (hdata : data.toList = before ++ (storedHead final payload.length ++ (payload ++ rest)))
    (hsize : payload.length ≤ 65535) (out : Array UInt8) :
    storedBlock data (8 * before.length + 3) out =
      some (8 * (before.length + 5 + payload.length), out ++ payload.toArray) := by
  have hstart : (8 * before.length + 3 + 7) / 8 = before.length + 1 := by omega
  have hlow : data[before.length + 1]? = some (UInt8.ofNat payload.length) := getElem?_part hdata 1
  have hhigh : data[before.length + 1 + 1]? = some (UInt8.ofNat (payload.length / 256)) := getElem?_part hdata 2
  have hpayload : data.extract (before.length + 5) (before.length + 5 + payload.length) = payload.toArray :=
    (extract_part hdata 5 payload.length).trans (congrArg List.toArray List.take_left)
  have hbytes : (UInt8.ofNat payload.length).toNat + 256 * (UInt8.ofNat (payload.length / 256)).toNat =
      payload.length := by
    rw [UInt8.toNat_ofNat', UInt8.toNat_ofNat']
    omega
  have hroom : before.length + 5 + payload.length ≤ data.size := by
    rw [← Array.length_toList, hdata]
    simp only [List.length_append, length_storedHead]
    omega
  simp only [storedBlock, hstart, hlow, hhigh, Option.bind_eq_bind, Option.bind_some, hbytes]
  rw [if_pos hroom]
  exact congrArg some (Prod.ext rfl (congrArg (out ++ ·) hpayload))

/-- A stored block gives its payload, and decompression goes on behind it unless it is the last one. -/
theorem blocks_stored (hdata : data.toList = before ++ (storedHead final payload.length ++ (payload ++ rest)))
    (hfinal : final = 0 ∨ final = 1) (hsize : payload.length ≤ 65535) (fuel : Nat) (out : Array UInt8) :
    blocks data (fuel + 1) (8 * before.length) out =
      if final = 1 then some (out ++ payload.toArray)
      else blocks data fuel (8 * (before.length + 5 + payload.length)) (out ++ payload.toArray) := by
  have hflag : bit? data (8 * before.length) = some final.toNat := by
    rw [← Nat.add_zero (8 * before.length), bit?_of_byte hdata (by decide)]
    rcases hfinal with rfl | rfl <;> rfl
  have hkind : bits? data (8 * before.length + 1) 2 = some 0 := by
    simp only [bits?, Nat.add_assoc, bit?_of_byte hdata (show 1 < 8 by decide),
      bit?_of_byte hdata (show 1 + 1 < 8 by decide)]
    rcases hfinal with rfl | rfl <;> rfl
  simp only [blocks, hflag, hkind, storedBlock_eq hdata hsize, Option.bind_eq_bind, Option.bind_some, if_true]
  rcases hfinal with rfl | rfl <;> rfl

/-- A step for each byte is more than enough, since only the last block can be empty. -/
theorem blocks_storedBlocks {bytes : List UInt8} {fuel : Nat} (hfuel : bytes.length ≤ fuel)
    (hdata : data.toList = before ++ (storedBlocks bytes ++ rest)) (out : Array UInt8) :
    blocks data (fuel + 1) (8 * before.length) out = some (out ++ bytes.toArray) := by
  fun_induction storedBlocks bytes generalizing before fuel out with
  | case1 bytes hlast =>
    rw [List.append_assoc] at hdata
    rw [blocks_stored hdata (.inr rfl) hlast, if_pos rfl]
  | case2 bytes hmore ih =>
    have hlength : (bytes.take 65535).length = 65535 := by
      rw [List.length_take]
      omega
    have hhead : data.toList = before ++ (storedHead 0 (bytes.take 65535).length ++
        (bytes.take 65535 ++ (storedBlocks (bytes.drop 65535) ++ rest))) := by
      rw [hlength]
      simpa using hdata
    have hbehind : data.toList = before ++ (storedHead 0 65535 ++ bytes.take 65535) ++
        (storedBlocks (bytes.drop 65535) ++ rest) := by
      simpa using hdata
    have hposition : (before ++ (storedHead 0 65535 ++ bytes.take 65535)).length = before.length + 5 + 65535 := by
      rw [List.length_append, List.length_append, length_storedHead, hlength, Nat.add_assoc]
    have hwhole : (bytes.take 65535).toArray ++ (bytes.drop 65535).toArray = bytes.toArray := by simp
    obtain ⟨fuel, rfl⟩ : ∃ n, fuel = n + 1 := ⟨fuel - 1, by omega⟩
    rw [blocks_stored hhead (.inl rfl) (by omega), if_neg (by decide), hlength, ← hposition,
      ih (by rw [List.length_drop]; omega) hbehind, Array.append_assoc, hwhole]

private theorem length_le_storedBlocks (bytes : List UInt8) :
    bytes.length ≤ (storedBlocks bytes).length := by
  fun_induction storedBlocks bytes with
  | case1 bytes _ => simp
  | case2 bytes _ ih =>
    rw [List.length_drop] at ih
    rw [List.length_append, List.length_append, List.length_take]
    omega

private theorem inflate?_storedBlocks (bytes rest : List UInt8) :
    inflate? (storedBlocks bytes ++ rest).toArray = some bytes.toArray := by
  have hlength := length_le_storedBlocks bytes
  have hfuel : bytes.length ≤ 8 * (storedBlocks bytes ++ rest).toArray.size := by
    rw [List.size_toArray, List.length_append]
    omega
  have hdata : (storedBlocks bytes ++ rest).toArray.toList = [] ++ (storedBlocks bytes ++ rest) := rfl
  rw [inflate?]
  exact (blocks_storedBlocks hfuel hdata #[]).trans (by rw [Array.empty_append])

end Inflation

section Samples

private theorem restoreRow_plain (step : Nat) (above row : Array UInt8) :
    restoreRow step 0 above row = row := by
  have hplain : restoreRow step 0 above row =
      (List.range row.size).foldl (fun out i => out.push (row.getD i 0)) #[] := by
    simp [restoreRow]
  rw [hplain, List.foldl_push_eq_append]
  apply Array.ext
  · simp
  · intro i h₁ h₂
    simp [h₂]

private theorem length_plainRows {size height : Nat} {samples : List UInt8}
    (h : samples.length = height * size) :
    (plainRows size height samples).length = height * (size + 1) := by
  induction height generalizing samples with
  | zero => simp [plainRows]
  | succ height ih =>
    rw [Nat.add_mul, Nat.one_mul] at h
    have hdrop : (samples.drop size).length = height * size := by
      rw [List.length_drop]
      omega
    simp only [plainRows, List.length_append, List.length_cons, List.length_take, ih hdrop, Nat.add_mul, h]
    omega

private theorem restoreRows_plainRows {step size height : Nat} {samples before : List UInt8}
    {data above : Array UInt8}
    (hsamples : samples.length = height * size) (hdata : data.toList = before ++ plainRows size height samples) :
    restoreRows step size data height before.length above = samples := by
  induction height generalizing samples before above with
  | zero => simp_all [restoreRows]
  | succ height ih =>
    rw [Nat.add_mul, Nat.one_mul] at hsamples
    have hdrop : (samples.drop size).length = height * size := by
      rw [List.length_drop]
      omega
    rw [plainRows, List.cons_append] at hdata
    have hfilter : data.getD before.length 0 = 0 := by
      rw [Array.getD_eq_getD_getElem?, ← Nat.add_zero before.length, getElem?_part hdata]
      rfl
    have hrow : data.extract (before.length + 1) (before.length + 1 + size) = (samples.take size).toArray := by
      rw [extract_part hdata 1 size, List.drop_one, List.tail_cons, List.take_left' (by rw [List.length_take]; omega)]
    have hbehind : data.toList = before ++ 0 :: samples.take size ++ plainRows size height (samples.drop size) := by
      simpa using hdata
    have hposition : (before ++ 0 :: samples.take size).length = before.length + 1 + size := by
      simp only [List.length_append, List.length_cons, List.length_take]
      omega
    simp only [restoreRows, hfilter, restoreRow_plain, hrow]
    rw [← hposition, ih hdrop hbehind]
    exact List.take_append_drop size samples

private theorem toRgba_rgba {samples : List UInt8} {n : Nat} (h : samples.length = 4 * n) :
    Channels.rgba.toRgba samples = samples := by
  induction n generalizing samples with
  | zero =>
    rw [List.length_eq_zero_iff.1 h]
    rfl
  | succ n ih =>
    match samples with
    | [] | [_] | [_, _] | [_, _, _] => simp only [List.length_cons, List.length_nil] at h; omega
    | r :: g :: b :: a :: rest =>
      rw [Channels.toRgba, ih]
      simp only [List.length_cons] at h
      omega

end Samples

section Chunks

private theorem number_wordBytes (w : UInt32) : number (wordBytes w) = w.toNat := by
  have hlt := w.toNat_lt
  simp only [number, wordBytes, List.foldl_cons, List.foldl_nil, UInt32.toNat_toUInt8, UInt32.toNat_shiftRight,
    UInt32.reduceToNat, Nat.reduceMod, Nat.shiftRight_eq_div_pow, Nat.reducePow]
  omega

private theorem number_wordBytes_ofNat {n : Nat} (h : n < 0x100000000) :
    number (wordBytes (UInt32.ofNat n)) = n := by
  rw [number_wordBytes, UInt32.toNat_ofNat']
  exact Nat.mod_eq_of_lt h

/-- The four parts of a chunk. -/
theorem chunks_append {word name data check rest : List UInt8} (hword : word.length = 4) (hname : name.length = 4)
    (hcheck : check.length = 4) (hsize : number word = data.length) :
    chunks (word ++ (name ++ (data ++ (check ++ rest)))) = (name, data) :: chunks rest := by
  have hfirst : (word ++ (name ++ (data ++ (check ++ rest)))).take 4 = word := by
    rw [← hword, List.take_left]
  have hsecond : (word ++ (name ++ (data ++ (check ++ rest)))).drop 4 = name ++ (data ++ (check ++ rest)) := by
    rw [← hword, List.drop_left]
  have hthird : (word ++ (name ++ (data ++ (check ++ rest)))).drop 8 = data ++ (check ++ rest) := by
    rw [show 8 = 4 + 4 from rfl, ← List.drop_drop, hsecond, ← hname, List.drop_left]
  have hlast : (word ++ (name ++ (data ++ (check ++ rest)))).drop (12 + data.length) = rest := by
    rw [show 12 + data.length = 8 + (data.length + 4) by omega, ← List.drop_drop, hthird, ← List.drop_drop,
      List.drop_left, ← hcheck, List.drop_left]
  rw [chunks]
  simp only [hfirst, hsize, hsecond, hthird, hlast]
  rw [if_pos (by simp only [List.length_append, hword, hname, hcheck]; omega), ← hname, List.take_left,
    List.take_left]

private theorem chunks_chunk {name : String} {data rest : List UInt8}
    (hname : (tag name).length = 4) (hdata : data.length < 0x100000000) :
    chunks (chunk name data ++ rest) = (tag name, data) :: chunks rest := by
  simp only [chunk, List.append_assoc]
  exact chunks_append rfl hname rfl (number_wordBytes_ofNat hdata)

/-- The data of a file is cut into pieces, one for each of its data chunks. -/
theorem chunks_dataChunks (data rest : List UInt8) :
    ∃ pieces : List (List UInt8), pieces.flatten = data ∧
      chunks (dataChunks data ++ rest) =
        pieces.map (tag "IDAT", ·) ++ chunks rest := by
  fun_induction dataChunks data with
  | case1 data hfits =>
    refine ⟨[data], by simp, ?_⟩
    rw [chunks_chunk (by decide +kernel) (by unfold chunkLimit at hfits; omega)]
    rfl
  | case2 data hmore ih =>
    obtain ⟨pieces, hpieces, hchunks⟩ := ih
    refine ⟨data.take chunkLimit :: pieces, by rw [List.flatten_cons, hpieces, List.take_append_drop], ?_⟩
    rw [List.append_assoc, chunks_chunk (by decide +kernel), hchunks]
    · rfl
    · rw [List.length_take]
      unfold chunkLimit
      omega

private theorem chunks_nil : chunks [] = [] := by
  unfold chunks
  simp

private theorem named_append_end (pieces : List (List UInt8)) :
    named "IDAT" (pieces.map (tag "IDAT", ·) ++ [(tag "IEND", [])]) = pieces := by
  have hother : tag "IEND" ≠ tag "IDAT" := by decide +kernel
  induction pieces with
  | nil => simp [named, hother]
  | cons piece pieces ih => simpa [named] using ih

end Chunks

section Image
variable {width height : Nat} {rgba : List UInt8}

private theorem layout?_header (layout : SampleLayout) (hpositive : 0 < width ∧ 0 < height)
    (hwidth : width < 0x100000000) (hheight : height < 0x100000000) :
    layout? (header layout width height) = some (width, height, layout) := by
  have hfirst : number ((header layout width height).take 4) = width := number_wordBytes_ofNat hwidth
  have hsecond : number (((header layout width height).drop 4).take 4) = height := number_wordBytes_ofNat hheight
  have hthird : (header layout width height).drop 8 =
      [if layout.wide then 16 else 8, channelsCode layout.channels, 0, 0, 0] := rfl
  have hsides : width ≠ 0 ∧ height ≠ 0 := by omega
  have hcode : channelsOf? (channelsCode layout.channels) = some layout.channels := by
    cases layout.channels <;> rfl
  obtain ⟨channels, wide⟩ := layout
  simp only [layout?, hfirst, hsecond, hthird, hcode]
  cases wide <;> simp [hsides]

private theorem positive_of_layout? {bytes : List UInt8} {layout : SampleLayout}
    (h : layout? bytes = some (width, height, layout)) : 0 < width ∧ 0 < height := by
  unfold layout? at h
  dsimp only at h
  split at h
  · split at h
    · cases h
    next hsides =>
      obtain ⟨channels, -, heq⟩ := Option.map_eq_some_iff.1 h
      cases heq
      omega
  · cases h

/-- The image in a file whose data chunks hold the plain rows of its pixels. -/
theorem ofChunks_plainRows {header tail : List UInt8} {name : List UInt8} {rest : List (List UInt8 × List UInt8)}
    (hheader : layout? header = some (width, height, .rgba8)) (hsize : rgba.length = 4 * (width * height))
    (hdata : (named "IDAT" rest).flatten =
      [0x78, 0x01] ++ (storedBlocks (plainRows (width * 4) height rgba) ++ tail)) :
    ofChunks ((name, header) :: rest) = .ok ⟨width, height, rgba⟩ := by
  have hsamples : rgba.length = height * (width * 4) := by
    rw [hsize, Nat.mul_left_comm height, Nat.mul_comm height, Nat.mul_left_comm]
  have hinflate : inflate? ((named "IDAT" rest).flatten.drop 2).toArray =
      some (plainRows (width * 4) height rgba).toArray := by
    rw [hdata]
    exact inflate?_storedBlocks _ tail
  have hlength : (plainRows (width * 4) height rgba).toArray.size = height * (width * 4 + 1) :=
    length_plainRows hsamples
  have hrows : (plainRows (width * 4) height rgba).toArray.toList = [] ++ plainRows (width * 4) height rgba := rfl
  have hrestore : restoreRows 4 (width * 4) (plainRows (width * 4) height rgba).toArray height 0 #[] = rgba :=
    restoreRows_plainRows hsamples hrows
  simp only [ofChunks, hheader, hinflate]
  rw [if_neg (by rw [hlength]; exact Nat.lt_irrefl _)]
  show Except.ok (⟨width, height, Channels.rgba.toRgba (restoreRows 4 (width * 4) _ height 0 #[])⟩ : Raster) = _
  rw [hrestore, toRgba_rgba hsize]

theorem decode_encode {r : Raster} (hpositive : 0 < r.width ∧ 0 < r.height) (hwidth : r.width < 0x100000000)
    (hheight : r.height < 0x100000000) (hsize : r.rgba.length = 4 * (r.width * r.height)) :
    decode (encode r) = .ok r := by
  obtain ⟨pieces, hpieces, hchunks⟩ := chunks_dataChunks (stream (plainRows (r.width * 4) r.height r.rgba))
    (chunk "IEND" [])
  have hfile : encode r = signature ++ (chunk "IHDR" (header .rgba8 r.width r.height) ++
      (dataChunks (stream (plainRows (r.width * 4) r.height r.rgba)) ++ chunk "IEND" [])) := by
    simp [encode, encodeSamples, SampleLayout.pixelBytes, SampleLayout.rgba8, Channels.count]
  have hend : chunks (chunk "IEND" []) = [(tag "IEND", [])] := by
    rw [← List.append_nil (chunk "IEND" []), chunks_chunk (by decide +kernel) (by decide), chunks_nil]
  have hdata : (named "IDAT" (pieces.map (tag "IDAT", ·) ++ chunks (chunk "IEND" []))).flatten =
      [0x78, 0x01] ++ (storedBlocks (plainRows (r.width * 4) r.height r.rgba) ++
        wordBytes (adler32 (plainRows (r.width * 4) r.height r.rgba))) := by
    rw [hend, named_append_end, hpieces, stream, List.append_assoc]
  refine bind_eq_ok_iff.2 ⟨_, afterSignature_eq_ok_iff.2 hfile, ?_⟩
  have hheader : (header .rgba8 r.width r.height).length < 0x100000000 := (by decide : 13 < 0x100000000)
  rw [chunks_chunk (by decide +kernel) hheader, hchunks]
  exact ofChunks_plainRows (layout?_header .rgba8 hpositive hwidth hheight) hsize hdata

private theorem positive_of_decode {bytes : List UInt8} {r : Raster} (h : decode bytes = .ok r) :
    0 < r.width ∧ 0 < r.height := by
  obtain ⟨rest, -, h⟩ := bind_eq_ok_iff.1 h
  unfold ofChunks at h
  split at h
  · cases h
  · split at h
    · cases h
    next width height layout hlayout =>
      have hpositive := positive_of_layout? hlayout
      dsimp only at h
      split at h
      · cases h
      · split at h
        · cases h
        · cases h
          exact hpositive

end Image

theorem lossless_codec : codec.Lossless where
  positive h := positive_of_decode (mapError_eq_ok_iff.1 h)
  decode_encode hpositive hwidth hheight hsize :=
    mapError_eq_ok_iff.2 (decode_encode hpositive hwidth hheight hsize)

end PixelCode.Png
