import LexicalLisp.Text.Utf8

/-!
# Decoding what was encoded

The bytes of a text decode to the characters of the text, whatever these are. One character is taken
at a time: its first byte says how many others there are and leaves a range for the second, and the
bits of all of them make up the code point.

The ranges leave out what is no code point or has a shorter encoding. The encoding of a character is
always within them.
-/

namespace LexicalLisp

/-- Join the six bits of a following byte to those before it. -/
def joinBits (bits byte : Nat) : Nat :=
  bits * 64 + byte % 64

namespace Utf8Tail

/-- The byte is in the range of the next one. -/
def fits (tail : Utf8Tail) (b : UInt8) : Bool :=
  tail.low ≤ b && b ≤ tail.high

/-- A byte is in a range if its number is. -/
theorem fits_iff {tail : Utf8Tail} {b : UInt8} :
    tail.fits b = true ↔ tail.low.toNat ≤ b.toNat ∧ b.toNat ≤ tail.high.toNat := by
  simp [fits, UInt8.le_iff_toNat_le]

end Utf8Tail

/-- The numbers of a first byte, a second one and others that are the encoding of a code point.

The second byte may not make the sequence one that could be shorter, nor one of no code point. -/
structure Utf8Sequence (point first second : Nat) (others : List Nat) : Prop where
  announced : 0xC2 ≤ first ∧ first < 0xE0 ∧ others.length = 0 ∨
    0xE0 ≤ first ∧ first < 0xF0 ∧ others.length = 1 ∨
    0xF0 ≤ first ∧ first ≤ 0xF4 ∧ others.length = 2
  following : ∀ n ∈ second :: others, 0x80 ≤ n ∧ n ≤ 0xBF
  not_two : first = 0xE0 → 0xA0 ≤ second
  not_surrogate : first = 0xED → second ≤ 0x9F
  not_three : first = 0xF0 → 0x90 ≤ second
  not_above : first = 0xF4 → second ≤ 0x8F
  bits_eq : (second :: others).foldl joinBits (first % (1 <<< (5 - others.length))) = point

namespace Utf8Sequence

variable {point first second : Nat} {others : List Nat}
  (h : Utf8Sequence point first second others)

include h

/-- The first number is neither that of a byte of its own nor too large. -/
theorem first_mem : 0x80 ≤ first ∧ first < 0x100 := by
  have hannounced := h.announced
  omega

/-- The numbers are those of bytes. -/
theorem toNat_ofNat {n : Nat} (hn : n ∈ first :: second :: others) : (UInt8.ofNat n).toNat = n := by
  apply UInt8.toNat_ofNat_of_lt'
  rcases List.mem_cons.mp hn with rfl | hn
  · exact h.first_mem.2
  · exact Nat.lt_of_le_of_lt (h.following n hn).2 (by decide)

/-- The first byte announces as many bytes as follow, and a range that the second is in. -/
theorem exists_tail : ∃ tail, Utf8Tail.of? (UInt8.ofNat first) = some tail ∧
    tail.fits (UInt8.ofNat second) = true ∧ others.length = tail.more := by
  have hfirst := h.toNat_ofNat List.mem_cons_self
  have hsecond := h.toNat_ofNat (List.mem_cons_of_mem first List.mem_cons_self)
  have hfollowing := h.following second List.mem_cons_self
  obtain ⟨hannounced, -, htwo, hsurrogate, hthree, habove, -⟩ := h
  simp only [Utf8Tail.of?, UInt8.lt_iff_toNat_lt, beq_iff_eq, ← UInt8.toNat_inj, UInt8.reduceToNat,
    Utf8Tail.fits_iff, hfirst, hsecond]
  rcases hannounced with ⟨hlow, hhigh, hlength⟩ | ⟨hlow, hhigh, hlength⟩ | ⟨hlow, hhigh, hlength⟩
  · rw [if_neg (by omega), if_pos hhigh]
    exact ⟨_, rfl, hfollowing, hlength⟩
  · rw [if_neg (by omega), if_neg (by omega)]
    by_cases hE0 : first = 0xE0
    · rw [if_pos hE0]
      exact ⟨_, rfl, ⟨htwo hE0, hfollowing.2⟩, hlength⟩
    rw [if_neg hE0]
    by_cases hED : first = 0xED
    · rw [if_pos hED]
      exact ⟨_, rfl, ⟨hfollowing.1, hsurrogate hED⟩, hlength⟩
    rw [if_neg hED, if_pos hhigh]
    exact ⟨_, rfl, hfollowing, hlength⟩
  · rw [if_neg (by omega), if_neg (by omega), if_neg (by omega), if_neg (by omega),
      if_neg (by omega)]
    by_cases hF0 : first = 0xF0
    · rw [if_pos hF0]
      exact ⟨_, rfl, ⟨hthree hF0, hfollowing.2⟩, hlength⟩
    rw [if_neg hF0]
    by_cases hF4 : first = 0xF4
    · rw [if_neg (by omega), if_pos hF4]
      exact ⟨_, rfl, ⟨hfollowing.1, habove hF4⟩, hlength⟩
    rw [if_pos (by omega)]
    exact ⟨_, rfl, hfollowing, hlength⟩

end Utf8Sequence

/-- A byte of its own is a character. -/
theorem decodeFrom_single {n : Nat} (hn : n < 0x80) (position : Nat) (chars : List Char)
    (rest : List UInt8) :
    decodeFrom position none chars (UInt8.ofNat n :: rest) =
      decodeFrom (position + 1) none (Char.ofNat n :: chars) rest := by
  have hbyte : (UInt8.ofNat n).toNat = n := UInt8.toNat_ofNat_of_lt' (Nat.lt_trans hn (by decide))
  have hlt : UInt8.ofNat n < 0x80 := by
    rw [UInt8.lt_iff_toNat_lt, hbyte]
    exact hn
  rw [decodeFrom, if_pos hlt, hbyte]

/-- A byte that fits completes the character under way, or brings it one byte further. -/
theorem decodeFrom_fitting {p : Utf8Pending} {b : UInt8} (hb : p.tail.fits b = true)
    (position : Nat) (chars : List Char) (rest : List UInt8) :
    decodeFrom position (some p) chars (b :: rest) =
      match p.tail.more with
      | 0 => decodeFrom (position + 1) none (Char.ofNat (joinBits p.bits b.toNat) :: chars) rest
      | more + 1 =>
        decodeFrom (position + 1) (some { p with
          tail := ⟨0x80, 0xBF, more⟩, seen := p.seen + 1, bits := joinBits p.bits b.toNat })
          chars rest := by
  rw [decodeFrom]
  exact if_pos hb

/-- Bytes that all fit complete the character under way. -/
theorem decodeFrom_following {p : Utf8Pending} {b : UInt8} {others : List UInt8}
    (hb : p.tail.fits b = true) (hothers : ∀ o ∈ others, Utf8Tail.fits ⟨0x80, 0xBF, 0⟩ o = true)
    (hlength : others.length = p.tail.more) (position : Nat) (chars : List Char)
    (rest : List UInt8) :
    ∃ position', decodeFrom position (some p) chars (b :: (others ++ rest)) =
      decodeFrom position' none
        (Char.ofNat (((b :: others).map UInt8.toNat).foldl joinBits p.bits) :: chars) rest := by
  induction others generalizing p b position with
  | nil =>
    refine ⟨position + 1, ?_⟩
    rw [decodeFrom_fitting hb, ← hlength]
    rfl
  | cons o others ih =>
    rw [List.forall_mem_cons] at hothers
    rw [decodeFrom_fitting hb, ← hlength]
    exact ih hothers.1 hothers.2 rfl (position + 1)

/-- The bytes of a sequence are the character with its code point. -/
theorem Utf8Sequence.decodeFrom_eq {point first second : Nat} {others : List Nat}
    (h : Utf8Sequence point first second others) (position : Nat) (chars : List Char)
    (rest : List UInt8) :
    ∃ position', decodeFrom position none chars
        ((first :: second :: others).map UInt8.ofNat ++ rest) =
      decodeFrom position' none (Char.ofNat point :: chars) rest := by
  obtain ⟨tail, htail, hsecond, hlength⟩ := h.exists_tail
  have hfirst := h.toNat_ofNat List.mem_cons_self
  have hlarge : ¬ UInt8.ofNat first < 0x80 := by
    rw [UInt8.lt_iff_toNat_lt, hfirst]
    exact Nat.not_lt.mpr h.first_mem.1
  have hbytes : ((second :: others).map UInt8.ofNat).map UInt8.toNat = second :: others := by
    rw [List.map_map]
    exact (List.map_congr_left fun n hn => h.toNat_ofNat (List.mem_cons_of_mem first hn)).trans
      (List.map_id _)
  have hothers : ∀ o ∈ others.map UInt8.ofNat, Utf8Tail.fits ⟨0x80, 0xBF, 0⟩ o = true := by
    intro o ho
    obtain ⟨n, hn, rfl⟩ := List.mem_map.mp ho
    have hn' := List.mem_cons_of_mem second hn
    rw [Utf8Tail.fits_iff, h.toNat_ofNat (List.mem_cons_of_mem first hn')]
    exact h.following n hn'
  let p : Utf8Pending :=
    ⟨UInt8.ofNat first, position, tail, 1, leadBits (UInt8.ofNat first) (tail.more + 1)⟩
  have hbits : p.bits = first % (1 <<< (5 - others.length)) := by
    change leadBits _ _ = _
    rw [leadBits, hfirst, hlength, Nat.add_sub_add_right 5 1]
  have hfits : p.tail.fits (UInt8.ofNat second) = true := hsecond
  have hcount : (others.map UInt8.ofNat).length = p.tail.more := by rwa [List.length_map]
  obtain ⟨position', hdecoded⟩ :=
    decodeFrom_following hfits hothers hcount (position + 1) chars rest
  rw [← List.map_cons, hbytes, hbits, h.bits_eq] at hdecoded
  refine ⟨position', ?_⟩
  rw [List.map_cons, List.cons_append, decodeFrom, if_neg hlarge, htail]
  exact hdecoded

/-- Two bytes are enough for a code point of eleven bits. -/
theorem Utf8Sequence.two {v : Nat} (hlow : 0x7F < v) (hhigh : v ≤ 0x7FF) :
    Utf8Sequence v (v / 64 % 32 + 192) (v % 64 + 128) [] := by
  constructor <;> simp [joinBits] <;> omega

/-- Three bytes are enough for a code point of sixteen bits. -/
theorem Utf8Sequence.three {v : Nat} (hlow : 0x7FF < v) (hhigh : v ≤ 0xFFFF)
    (hsurrogate : v < 0xD800 ∨ 0xDFFF < v) :
    Utf8Sequence v (v / 4096 % 16 + 224) (v / 64 % 64 + 128) [v % 64 + 128] := by
  constructor <;> simp [joinBits] <;> omega

/-- Four bytes are enough for every code point. -/
theorem Utf8Sequence.four {v : Nat} (hlow : 0xFFFF < v) (hhigh : v < 0x110000) :
    Utf8Sequence v (v / 262144 % 8 + 240) (v / 4096 % 64 + 128)
      [v / 64 % 64 + 128, v % 64 + 128] := by
  constructor <;> simp [joinBits] <;> omega

/-- The bytes of a character decode to the character. -/
theorem decodeFrom_utf8EncodeChar (c : Char) (position : Nat) (chars : List Char)
    (rest : List UInt8) :
    ∃ position', decodeFrom position none chars (String.utf8EncodeChar c ++ rest) =
      decodeFrom position' none (c :: chars) rest := by
  have hvalid : c.toNat < 0xD800 ∨ 0xDFFF < c.toNat ∧ c.toNat < 0x110000 := c.valid
  have hc : Char.ofNat c.toNat = c := Char.ofNat_toNat c
  unfold String.utf8EncodeChar
  rw [Char.toNat_val]
  generalize c.toNat = v at hvalid hc
  subst hc
  dsimp only
  split
  · exact ⟨_, decodeFrom_single (by omega) position chars rest⟩
  split
  · exact (Utf8Sequence.two (by omega) (by omega)).decodeFrom_eq position chars rest
  split
  · exact (Utf8Sequence.three (by omega) (by omega) (by omega)).decodeFrom_eq position chars rest
  · exact (Utf8Sequence.four (by omega) (by omega)).decodeFrom_eq position chars rest

/-- The bytes of characters decode to the characters. -/
theorem decodeFrom_flatMap_utf8EncodeChar (text : List Char) (position : Nat) (chars : List Char) :
    decodeFrom position none chars (text.flatMap String.utf8EncodeChar) =
      .ok (chars.reverse ++ text) := by
  induction text generalizing position chars with
  | nil => simp [decodeFrom]
  | cons c text ih =>
    obtain ⟨position', hchar⟩ :=
      decodeFrom_utf8EncodeChar c position chars (text.flatMap String.utf8EncodeChar)
    rw [List.flatMap_cons, hchar, ih, List.reverse_cons, List.append_assoc, List.singleton_append]

/-- The bytes of a text decode to its characters. -/
theorem decodeUtf8_toUTF8 (text : String) :
    decodeUtf8 text.toUTF8.data.toList = .ok text.toList := by
  have hbytes : text.toUTF8.data.toList = text.toList.flatMap String.utf8EncodeChar := by
    calc text.toUTF8.data.toList
      _ = (String.ofList text.toList).toByteArray.data.toList := by
        rw [String.ofList_toList, String.toUTF8_eq_toByteArray]
      _ = text.toList.flatMap String.utf8EncodeChar := by
        rw [String.toByteArray_ofList, List.utf8Encode, List.data_toByteArray]
  rw [hbytes]
  exact decodeFrom_flatMap_utf8EncodeChar text.toList 0 []

end LexicalLisp
