import PixelCode.Proofs.Image.Hiding

/-! Hiding and finding as a lens. What is hidden is found; hiding what is found changes nothing; and of two things
hidden one after the other the second is left. A cover keeps the upper six bits of its channels, and what is found
depends on the other two bits of the channels of whole pixels, and on nothing else. -/
namespace PixelCode.Pixel

def upper (channel : UInt8) : UInt8 := channel >>> 2

section Channel

private theorem toNat_upper (channel : UInt8) : (upper channel).toNat = channel.toNat / 4 := by
  rw [upper, UInt8.toNat_shiftRight]
  exact Nat.shiftRight_eq_div_pow _ _

private theorem upper_withLow (channel bits : UInt8) :
    upper (withLow channel bits) = upper channel := by
  apply UInt8.toNat_inj.1
  rw [toNat_upper, toNat_upper, toNat_withLow]
  omega

private theorem withLow_withLow (channel bits bits' : UInt8) :
    withLow (withLow channel bits) bits' = withLow channel bits' := by
  apply UInt8.toNat_inj.1
  rw [toNat_withLow, toNat_withLow, toNat_withLow]
  omega

private theorem withLow_of_mod_eq {channel bits : UInt8} (h : bits.toNat % 4 = channel.toNat % 4) :
    withLow channel bits = channel := by
  apply UInt8.toNat_inj.1
  rw [toNat_withLow, h]
  omega

end Channel

section Pixel

/-- Two pixels hold the same byte if and only if they agree in the low bits of each channel. -/
theorem byte_eq_iff {px qx : Pixel} : px.byte = qx.byte ↔ px.channels.map low = qx.channels.map low := by
  simp only [← UInt8.toNat_inj, toNat_byte, channels, List.map_cons, List.map_nil, List.cons.injEq, toNat_low,
    and_true]
  omega

private theorem hide_hide (b b' : UInt8) (px : Pixel) : hide b' (hide b px) = hide b' px := by
  simp only [hide, withLow_withLow]

private theorem hide_byte (px : Pixel) : hide px.byte px = px := by
  have hbyte := toNat_byte px
  obtain ⟨hred, hgreen, hblue⟩ := toNat_shiftRight_pairs px.byte
  rw [hide, withLow_of_mod_eq (by rw [hred]; omega), withLow_of_mod_eq (by rw [hgreen]; omega),
    withLow_of_mod_eq (by rw [hblue]; omega), withLow_of_mod_eq (by omega)]

private theorem upper_hide (b : UInt8) (px : Pixel) :
    (hide b px).channels.map upper = px.channels.map upper := by
  simp only [hide, channels, List.map_cons, List.map_nil, upper_withLow]

end Pixel

section Buffer

def wholePixels (buffer : List UInt8) : List UInt8 := buffer.take (4 * (buffer.length / 4))

private theorem toBuffer_cons (px : Pixel) (pixels : List Pixel) :
    toBuffer (px :: pixels) = px.channels ++ toBuffer pixels :=
  List.flatMap_cons

private theorem toBuffer_ofBuffer (buffer : List UInt8) :
    toBuffer (ofBuffer buffer) = wholePixels buffer := by
  fun_induction ofBuffer buffer with
  | case1 r g b a rest ih =>
    have hlength : 4 * ((r :: g :: b :: a :: rest).length / 4) = 4 * (rest.length / 4) + 4 := by
      simp only [List.length_cons]
      omega
    rw [toBuffer_cons, ih, wholePixels, wholePixels, hlength]
    rfl
  | case2 buffer hshort =>
    rw [wholePixels, Nat.div_eq_of_lt (length_lt_of_short hshort)]
    rfl

private theorem toBuffer_ofBuffer_of_length {buffer : List UInt8} {n : Nat}
    (h : buffer.length = 4 * n) : toBuffer (ofBuffer buffer) = buffer := by
  rw [toBuffer_ofBuffer, wholePixels]
  apply List.take_of_length_le
  omega

private theorem length_reveal (buffer : List UInt8) :
    (reveal buffer).length = buffer.length / 4 := by
  have hlength := length_toBuffer (ofBuffer buffer)
  rw [toBuffer_ofBuffer, wholePixels, List.length_take] at hlength
  rw [reveal, List.length_map]
  omega

private theorem map_byte_eq_iff {pixels others : List Pixel} :
    pixels.map byte = others.map byte ↔ (toBuffer pixels).map low = (toBuffer others).map low := by
  induction pixels generalizing others with
  | nil =>
    cases others with
    | nil => exact iff_of_true rfl rfl
    | cons qx others => exact iff_of_false (List.cons_ne_nil _ _).symm (List.cons_ne_nil _ _).symm
  | cons px pixels ih =>
    cases others with
    | nil => exact iff_of_false (List.cons_ne_nil _ _) (List.cons_ne_nil _ _)
    | cons qx others =>
      rw [List.map_cons, List.map_cons, List.cons.injEq, byte_eq_iff, ih, toBuffer_cons, toBuffer_cons,
        List.map_append, List.map_append]
      constructor
      · rintro ⟨hfirst, hrest⟩
        rw [hfirst, hrest]
      · intro h
        exact List.append_inj h rfl

/-- What is found depends on the low bits of whole pixels only, and on all of them. -/
theorem reveal_eq_iff {buffer other : List UInt8} :
    reveal buffer = reveal other ↔ (wholePixels buffer).map low = (wholePixels other).map low := by
  rw [reveal, reveal, map_byte_eq_iff, toBuffer_ofBuffer, toBuffer_ofBuffer]

variable {bytes : List UInt8} {pixels : List Pixel}

private theorem zipWith_hide_zipWith_hide (h : bytes.length = pixels.length) (bytes' : List UInt8) :
    bytes'.zipWith hide (bytes.zipWith hide pixels) = bytes'.zipWith hide pixels := by
  induction bytes' generalizing bytes pixels with
  | nil => rfl
  | cons b' bytes' ih =>
    cases bytes with
    | nil =>
      rw [List.length_eq_zero_iff.1 h.symm]
      rfl
    | cons b bytes =>
      cases pixels with
      | nil => cases h
      | cons px pixels =>
        rw [List.zipWith_cons_cons, List.zipWith_cons_cons, List.zipWith_cons_cons, hide_hide, ih (Nat.succ.inj h)]

private theorem zipWith_hide_map_byte (pixels : List Pixel) :
    (pixels.map byte).zipWith hide pixels = pixels := by
  induction pixels with
  | nil => rfl
  | cons px pixels ih => rw [List.map_cons, List.zipWith_cons_cons, hide_byte, ih]

private theorem map_upper_zipWith_hide (h : bytes.length = pixels.length) :
    (toBuffer (bytes.zipWith hide pixels)).map upper = (toBuffer pixels).map upper := by
  induction bytes generalizing pixels with
  | nil =>
    rw [List.length_eq_zero_iff.1 h.symm]
    rfl
  | cons b bytes ih =>
    cases pixels with
    | nil => cases h
    | cons px pixels =>
      rw [List.zipWith_cons_cons, toBuffer_cons, toBuffer_cons, List.map_append, List.map_append, upper_hide,
        ih (Nat.succ.inj h)]

end Buffer

section Conceal
variable {bytes cover : List UInt8} {width height : Nat} (hfits : width * height * 4 < wordSize)
include hfits

/-- What is in a cover besides its upper bits makes no difference to what is hidden there next. -/
theorem conceal_conceal {image : List UInt8} (h : conceal bytes cover width height = .ok image)
    (bytes' : List UInt8) (width' height' : Nat) :
    conceal bytes' image width' height' = conceal bytes' cover width' height' := by
  obtain ⟨hbytes, hcover, himage⟩ := length_of_conceal hfits h
  have hsame : image.length = cover.length := himage.trans hcover.symm
  rw [conceal_of_length hfits hbytes hcover] at h
  cases h
  rw [conceal, conceal, hsame, ofBuffer_toBuffer, zipWith_hide_zipWith_hide]
  rw [length_ofBuffer hcover, hbytes]

private theorem map_upper_of_conceal {image : List UInt8}
    (h : conceal bytes cover width height = .ok image) : image.map upper = cover.map upper := by
  obtain ⟨hbytes, hcover, -⟩ := length_of_conceal hfits h
  rw [conceal_of_length hfits hbytes hcover] at h
  cases h
  rw [map_upper_zipWith_hide, toBuffer_ofBuffer_of_length hcover]
  rw [length_ofBuffer hcover, hbytes]

private theorem conceal_reveal (hcover : cover.length = 4 * (width * height)) :
    conceal (reveal cover) cover width height = .ok cover := by
  have hbytes : (reveal cover).length = width * height := by
    rw [length_reveal]
    omega
  rw [conceal_of_length hfits hbytes hcover, reveal, zipWith_hide_map_byte, toBuffer_ofBuffer_of_length hcover]

end Conceal

/-- Hiding and finding are a lens, for images whose size fits in memory. Bytes are hidden if and only if there is one
for each pixel and the cover is as large as its sides say; a wrong number of bytes is reported before a wrong cover.
What they are hidden in has the length of the cover and the upper bits of each of its channels, holds those bytes, and
takes other bytes as the cover does. A cover that takes what it holds is left as it is. What a buffer holds is one byte
for each whole pixel, and it is the same for two buffers if and only if the low bits of their whole pixels are. -/
theorem conceal_reveal_lens (bytes cover : List UInt8) (width height : Nat)
    (hfits : width * height * 4 < wordSize) :
    ((∃ image, conceal bytes cover width height = .ok image) ↔
      bytes.length = width * height ∧ cover.length = 4 * (width * height)) ∧
    (bytes.length ≠ width * height →
      conceal bytes cover width height = .error (.sizeMismatch bytes.length width height)) ∧
    (bytes.length = width * height → cover.length ≠ 4 * (width * height) →
      conceal bytes cover width height = .error (.coverMismatch cover.length (4 * (width * height)))) ∧
    (∀ image, conceal bytes cover width height = .ok image →
      image.length = cover.length ∧ image.map upper = cover.map upper ∧ reveal image = bytes ∧
      (∀ bytes' width' height', conceal bytes' image width' height' = conceal bytes' cover width' height') ∧
      conceal (reveal cover) cover width height = .ok cover) ∧
    ∀ buffer, (reveal buffer).length = buffer.length / 4 ∧
      ∀ other, reveal other = reveal buffer ↔ (wholePixels other).map low = (wholePixels buffer).map low := by
  obtain ⟨harea, hsize⟩ := sizes_of_fits hfits
  refine ⟨⟨?_, ?_⟩, ?_, ?_, ?_, fun buffer => ⟨length_reveal buffer, fun other => reveal_eq_iff⟩⟩
  · rintro ⟨image, himage⟩
    obtain ⟨hbytes, hcover, -⟩ := length_of_conceal hfits himage
    exact ⟨hbytes, hcover⟩
  · rintro ⟨hbytes, hcover⟩
    exact ⟨_, conceal_of_length hfits hbytes hcover⟩
  · intro hbytes
    rw [conceal, harea, if_pos hbytes]
  · intro hbytes hcover
    rw [conceal, harea, hsize, if_neg (not_not_intro hbytes), if_pos hcover]
  · intro image himage
    obtain ⟨hbytes, hcover, hlength⟩ := length_of_conceal hfits himage
    obtain ⟨image', himage', hreveal⟩ := exists_conceal hfits hbytes hcover
    cases himage.symm.trans himage'
    exact ⟨hlength.trans hcover.symm, map_upper_of_conceal hfits himage, hreveal, conceal_conceal hfits himage,
      conceal_reveal hfits hcover⟩

/-- Two pixels of a cover take two bytes, and then two others; one byte is too few, and half a cover too small. -/
theorem conceal_reveal_lens_twoPixels :
    conceal [0x62, 0x1b] [255, 254, 3, 0, 1, 2, 128, 77] 2 1 = .ok [253, 254, 0, 2, 0, 1, 130, 79] ∧
      conceal [7, 9] [253, 254, 0, 2, 0, 1, 130, 79] 2 1 = conceal [7, 9] [255, 254, 3, 0, 1, 2, 128, 77] 2 1 ∧
      conceal [0x62] [1, 2] 2 1 = .error (.sizeMismatch 1 2 1) ∧
      conceal [0x62, 0x1b] [1, 2, 3, 4] 2 1 = .error (.coverMismatch 4 8) := by
  have hhidden : conceal [0x62, 0x1b] [255, 254, 3, 0, 1, 2, 128, 77] 2 1 = .ok [253, 254, 0, 2, 0, 1, 130, 79] := by
    rfl
  obtain ⟨-, -, -, hkept, -⟩ := conceal_reveal_lens [0x62, 0x1b] [255, 254, 3, 0, 1, 2, 128, 77] 2 1 (by decide)
  obtain ⟨-, -, -, hagain, -⟩ := hkept _ hhidden
  obtain ⟨-, hsize, -⟩ := conceal_reveal_lens [0x62] [1, 2] 2 1 (by decide)
  obtain ⟨-, -, hcover, -⟩ := conceal_reveal_lens [0x62, 0x1b] [1, 2, 3, 4] 2 1 (by decide)
  exact ⟨hhidden, hagain [7, 9] 2 1, hsize (by decide), hcover (by decide) (by decide)⟩

end PixelCode.Pixel
