import PixelCode.Pixel

/-! Bytes hidden in a cover are found again. A byte is four digits in base four, one in the low bits of each channel. -/
namespace PixelCode.Pixel

def low (channel : UInt8) : UInt8 := channel &&& 3

section Channel

theorem toNat_low (channel : UInt8) : (low channel).toNat = channel.toNat % 4 := by
  rw [low, UInt8.toNat_and]
  exact Nat.and_two_pow_sub_one_eq_mod _ 2

/-- Bits in front of `shift` others are added to them. -/
private theorem toNat_or_of_lt {front rest : UInt8} (shift : Nat)
    (hfront : Nat.pow 2 shift ∣ front.toNat)
    (hrest : rest.toNat < Nat.pow 2 shift) : (front ||| rest).toNat = front.toNat + rest.toNat := by
  obtain ⟨k, hk⟩ := hfront
  rw [UInt8.toNat_or, hk]
  exact (Nat.two_pow_add_eq_or_of_lt hrest k).symm

theorem toNat_withLow (channel bits : UInt8) :
    (withLow channel bits).toNat = channel.toNat / 4 * 4 + bits.toNat % 4 := by
  have hfour : 4 ∣ (channel &&& 0xfc).toNat := by
    rw [UInt8.toNat_and]
    apply Nat.dvd_of_mod_eq_zero
    exact (Nat.and_mod_two_pow (n := 2)).trans (Nat.and_zero _)
  have hjoin (b : UInt8) : (channel &&& 0xfc ||| low b).toNat = (channel &&& 0xfc).toNat + b.toNat % 4 := by
    rw [← toNat_low b]
    apply toNat_or_of_lt 2 hfour
    rw [toNat_low b]
    exact Nat.mod_lt _ (by decide)
  have hwhole : channel &&& 0xfc ||| low channel = channel := by
    apply UInt8.toBitVec_inj.1
    rw [low]
    simp only [UInt8.toBitVec_or, UInt8.toBitVec_and, ← BitVec.and_or_distrib_left]
    exact BitVec.and_allOnes
  have hself := hjoin channel
  rw [hwhole] at hself
  rw [withLow, ← low, hjoin bits]
  omega

end Channel

section Byte

/-- A pair of bits that is moved into one of the three upper places of a byte. -/
private theorem toNat_low_shiftLeft (channel : UInt8) :
    (low channel <<< 6).toNat = 64 * (channel.toNat % 4) ∧ (low channel <<< 4).toNat = 16 * (channel.toNat % 4) ∧
      (low channel <<< 2).toNat = 4 * (channel.toNat % 4) := by
  simp only [UInt8.toNat_shiftLeft, toNat_low, Nat.shiftLeft_eq]
  show channel.toNat % 4 * 64 % 256 = _ ∧ channel.toNat % 4 * 16 % 256 = _ ∧ channel.toNat % 4 * 4 % 256 = _
  omega

/-- The low bits of the channels are the digits of the byte in base four. -/
theorem toNat_byte (px : Pixel) :
    px.byte.toNat = 64 * (px.red.toNat % 4) + 16 * (px.green.toNat % 4) + 4 * (px.blue.toNat % 4) +
      px.alpha.toNat % 4 := by
  obtain ⟨hred, -, -⟩ := toNat_low_shiftLeft px.red
  obtain ⟨-, hgreen, -⟩ := toNat_low_shiftLeft px.green
  obtain ⟨-, -, hblue⟩ := toNat_low_shiftLeft px.blue
  have halpha := toNat_low px.alpha
  have htwo : (low px.red <<< 6 ||| low px.green <<< 4).toNat =
      64 * (px.red.toNat % 4) + 16 * (px.green.toNat % 4) := by
    rw [toNat_or_of_lt 6, hred, hgreen]
    · rw [hred]
      exact Nat.dvd_mul_right 64 _
    · rw [hgreen]
      show _ < 64
      omega
  have hthree : (low px.red <<< 6 ||| low px.green <<< 4 ||| low px.blue <<< 2).toNat =
      64 * (px.red.toNat % 4) + 16 * (px.green.toNat % 4) + 4 * (px.blue.toNat % 4) := by
    rw [toNat_or_of_lt 4, htwo, hblue]
    · rw [htwo]
      show 16 ∣ _
      omega
    · rw [hblue]
      show _ < 16
      omega
  show (low px.red <<< 6 ||| low px.green <<< 4 ||| low px.blue <<< 2 ||| low px.alpha).toNat = _
  rw [toNat_or_of_lt 2, hthree, halpha]
  · rw [hthree]
    show 4 ∣ _
    omega
  · rw [halpha]
    exact Nat.mod_lt _ (by decide)

theorem toNat_shiftRight_pairs (b : UInt8) :
    (b >>> 6).toNat = b.toNat / 64 ∧ (b >>> 4).toNat = b.toNat / 16 ∧ (b >>> 2).toNat = b.toNat / 4 :=
  ⟨Nat.shiftRight_eq_div_pow _ _, Nat.shiftRight_eq_div_pow _ _, Nat.shiftRight_eq_div_pow _ _⟩

private theorem byte_hide (b : UInt8) (px : Pixel) : (hide b px).byte = b := by
  obtain ⟨hred, hgreen, hblue⟩ := toNat_shiftRight_pairs b
  have hlt := b.toNat_lt
  apply UInt8.toNat_inj.1
  simp only [toNat_byte, hide, toNat_withLow, hred, hgreen, hblue]
  omega

end Byte

theorem ofBuffer_toBuffer (pixels : List Pixel) : ofBuffer (toBuffer pixels) = pixels := by
  induction pixels with
  | nil => rfl
  | cons px pixels ih => exact congrArg (px :: ·) ih

theorem length_lt_of_short {buffer : List UInt8} (h : ∀ r g b a rest, buffer = r :: g :: b :: a :: rest → False) :
    buffer.length < 4 := by
  rcases buffer with _ | ⟨r, _ | ⟨g, _ | ⟨b, _ | ⟨a, rest⟩⟩⟩⟩
  · simp
  · simp
  · simp
  · simp
  · exact (h r g b a rest rfl).elim

theorem length_ofBuffer {buffer : List UInt8} {n : Nat} (h : buffer.length = 4 * n) :
    (ofBuffer buffer).length = n := by
  fun_induction ofBuffer buffer generalizing n with
  | case1 r g b a rest ih =>
    have hrest : rest.length = 4 * (n - 1) := by simp only [List.length_cons] at h; omega
    rw [List.length_cons, ih hrest]
    simp only [List.length_cons] at h
    omega
  | case2 buffer hshort =>
    have hlt := length_lt_of_short hshort
    rw [List.length_nil]
    omega

private theorem map_byte_zipWith_hide {bytes : List UInt8} {pixels : List Pixel}
    (h : bytes.length = pixels.length) : (bytes.zipWith hide pixels).map byte = bytes := by
  induction bytes generalizing pixels with
  | nil => rfl
  | cons b bytes ih =>
    cases pixels with
    | nil => cases h
    | cons px pixels =>
      rw [List.zipWith_cons_cons, List.map_cons, byte_hide, ih (Nat.succ.inj h)]

theorem conceal_of_length {bytes cover : List UInt8} {width height : Nat} (hfits : width * height * 4 < wordSize)
    (hbytes : bytes.length = width * height) (hcover : cover.length = 4 * (width * height)) :
    conceal bytes cover width height = .ok (toBuffer (bytes.zipWith hide (ofBuffer cover))) := by
  obtain ⟨harea, hsize⟩ := sizes_of_fits hfits
  rw [conceal, harea, hsize, if_neg (not_not_intro hbytes), if_neg (not_not_intro hcover)]

/-- Bytes that fill a cover can be hidden in it, and are what is found there. -/
theorem exists_conceal {bytes cover : List UInt8} {width height : Nat} (hfits : width * height * 4 < wordSize)
    (hbytes : bytes.length = width * height) (hcover : cover.length = 4 * (width * height)) :
    ∃ image, conceal bytes cover width height = .ok image ∧ reveal image = bytes := by
  refine ⟨_, conceal_of_length hfits hbytes hcover, ?_⟩
  rw [reveal, ofBuffer_toBuffer, map_byte_zipWith_hide]
  rw [length_ofBuffer hcover, hbytes]

theorem length_toBuffer (pixels : List Pixel) : (toBuffer pixels).length = 4 * pixels.length := by
  induction pixels with
  | nil => rfl
  | cons px pixels ih =>
    rw [toBuffer, List.flatMap_cons, List.length_append, ← toBuffer, ih]
    simp only [channels, List.length_cons, List.length_nil]
    omega

/-- Only bytes that fill a cover are hidden in it, and what they are hidden in is as large as the cover. -/
theorem length_of_conceal {bytes cover image : List UInt8} {width height : Nat}
    (hfits : width * height * 4 < wordSize) (h : conceal bytes cover width height = .ok image) :
    bytes.length = width * height ∧ cover.length = 4 * (width * height) ∧
      image.length = 4 * (width * height) := by
  obtain ⟨harea, hsize⟩ := sizes_of_fits hfits
  rw [conceal, harea, hsize] at h
  split at h
  · cases h
  · split at h
    · cases h
    next hbytes hcover =>
      have hbytes := Classical.not_not.1 hbytes
      have hcover := Classical.not_not.1 hcover
      cases h
      refine ⟨hbytes, hcover, ?_⟩
      rw [length_toBuffer, List.length_zipWith, length_ofBuffer hcover, hbytes, Nat.min_self]

end PixelCode.Pixel
