import LexicalLisp.Number
import LexicalLisp.Proofs.Decimal.Rounding

/-!
# Numbers read back

The plain text of a finite number is a literal, and the literal stands for an equal number. Whole
numbers are written exactly; all others through their shortest decimal, with or without an
exponent. Each notation is shown to spell the decimal it was written for, and a decimal that is
spelled out keeps its nearest double.

Only the sign of zero is lost, which equality of numbers does not see.
-/

namespace LexicalLisp

/-- Every character is an ASCII digit. -/
def AllDigits (chars : List Char) : Prop :=
  ∀ c ∈ chars, c.isDigit = true

/-- Zeros are digits. -/
theorem allDigits_replicate_zero (k : Nat) : AllDigits (List.replicate k '0') := by
  intro c hc
  rw [List.eq_of_mem_replicate hc]
  decide

/-- A text is made of digits just where both of its parts are. -/
theorem allDigits_append_iff {front back : List Char} :
    AllDigits (front ++ back) ↔ AllDigits front ∧ AllDigits back :=
  List.forall_mem_append

/-- A whole number is written in digits. -/
theorem allDigits_toDigits (n : Nat) : AllDigits (Nat.toDigits 10 n) :=
  fun _ hc => Nat.isDigit_of_mem_toDigits (by omega) (by omega) hc

/-- Digits are split off up to the first other character. -/
theorem takeDigits_append {digits rest : List Char} (hdigits : AllDigits digits)
    (hrest : ∀ c ∈ rest.head?, c.isDigit = false) :
    takeDigits (digits ++ rest) = (digits, rest) := by
  unfold takeDigits
  rw [List.takeWhile_append_of_pos hdigits, List.dropWhile_append_of_pos hdigits]
  cases rest with
  | nil => simp
  | cons c rest =>
    have hc : c.isDigit = false := hrest c rfl
    simp [hc]

/-- The sign of a signed text of digits is split off. -/
theorem takeSign_signed (negative : Bool) {digits : List Char} (hdigits : AllDigits digits)
    (hne : digits ≠ []) (rest : List Char) :
    takeSign (Number.signed negative (digits ++ rest)).toList = (negative, digits ++ rest) := by
  obtain ⟨c, others, rfl⟩ := List.exists_cons_of_ne_nil hne
  have hc : c.isDigit = true := hdigits c List.mem_cons_self
  cases negative with
  | true => simp [Number.signed, takeSign]
  | false =>
    rw [Number.signed, String.toList_ofList, if_neg Bool.false_ne_true, List.cons_append]
    unfold takeSign
    split
    · rename_i heq
      cases heq
      exact absurd hc (by decide)
    · rename_i heq
      cases heq
      exact absurd hc (by decide)
    · rfl

/-- What is read as an exponent is a mark, an optional sign and digits up to the end. -/
theorem readExponent_cons {mark : Char} {rest : List Char} {exponent : Int}
    (h : readExponent (mark :: rest) = some exponent) :
    (mark = 'e' ∨ mark = 'E') ∧ (takeDigits (takeSign rest).2).2 = [] := by
  by_cases hmark : (mark == 'e' || mark == 'E') = true
  · rw [readExponent, if_pos hmark] at h
    rw [Bool.or_eq_true, beq_iff_eq, beq_iff_eq] at hmark
    refine ⟨hmark, ?_⟩
    simp only at h
    split at h
    · cases h
    · rename_i hend
      rw [Bool.or_eq_true, not_or, Bool.not_eq_true, Bool.not_eq_true, Bool.not_eq_false'] at hend
      exact List.isEmpty_iff.mp hend.2
  · rw [readExponent, if_neg hmark] at h
    cases h

/-- What is read as an exponent starts with neither a digit nor a point. -/
theorem head?_of_readExponent {chars : List Char} {exponent : Int}
    (h : readExponent chars = some exponent) :
    ∀ c ∈ chars.head?, c.isDigit = false ∧ c ≠ '.' := by
  intro c hc
  obtain ⟨rest, rfl⟩ := List.head?_eq_some_iff.mp hc
  rcases (readExponent_cons h).1 with rfl | rfl
  · decide
  · decide

/-- Zeros in front of digits do not count. -/
theorem ofDigitChars_zeros_append (k : Nat) (digits : List Char) :
    Nat.ofDigitChars 10 (List.replicate k '0' ++ digits) 0 = Nat.ofDigitChars 10 digits 0 := by
  rw [Nat.ofDigitChars_append, Nat.ofDigitChars_replicate_zero, Nat.mul_zero]

/-- Zeros behind digits multiply by a power of ten. -/
theorem ofDigitChars_append_zeros (digits : List Char) (k : Nat) :
    Nat.ofDigitChars 10 (digits ++ List.replicate k '0') 0 =
      Nat.ofDigitChars 10 digits 0 * power 10 k := by
  rw [Nat.ofDigitChars_append, Nat.ofDigitChars_replicate_zero, Nat.mul_comm]
  rfl

/-- An exponent mark, a sign and digits are read as the number they stand for. -/
theorem readExponent_of_digits (sign : Char) {digits : List Char} (hdigits : AllDigits digits)
    (hne : digits ≠ []) (hsign : sign = '+' ∨ sign = '-') :
    readExponent ('e' :: sign :: digits) =
      some (if sign = '-' then -(Nat.ofDigitChars 10 digits 0 : Int)
        else Nat.ofDigitChars 10 digits 0) := by
  have htake : takeDigits (digits ++ []) = (digits, []) :=
    takeDigits_append hdigits fun c hc => by cases hc
  rw [List.append_nil] at htake
  rcases hsign with rfl | rfl
  · simp [readExponent, takeSign, htake, hne]
  · simp [readExponent, takeSign, htake, hne]

/-- A written exponent is read back. -/
theorem readExponent_writeExponent (exponent : Int) :
    readExponent (writeExponent exponent) = some exponent := by
  have hdigits : AllDigits (List.replicate (2 - (Nat.toDigits 10 exponent.natAbs).length) '0' ++
      Nat.toDigits 10 exponent.natAbs) :=
    allDigits_append_iff.mpr ⟨allDigits_replicate_zero _, allDigits_toDigits _⟩
  have hne := List.append_ne_nil_of_right_ne_nil
    (List.replicate (2 - (Nat.toDigits 10 exponent.natAbs).length) '0')
    (Nat.toDigits_ne_nil : Nat.toDigits 10 exponent.natAbs ≠ [])
  unfold writeExponent
  by_cases hnegative : exponent < 0
  · rw [if_pos hnegative, readExponent_of_digits _ hdigits hne (.inr rfl), if_pos rfl,
      ofDigitChars_zeros_append, Nat.ofDigitChars_ten_toDigits]
    exact congrArg some (by omega)
  · rw [if_neg hnegative, readExponent_of_digits _ hdigits hne (.inl rfl), if_neg (by decide),
      ofDigitChars_zeros_append, Nat.ofDigitChars_ten_toDigits]
    exact congrArg some (by omega)

/-- With either sign the text is a literal whose magnitude has the nearest double of the
decimal. -/
def Spells (chars : List Char) (d : Decimal) : Prop :=
  ∀ negative, ∃ magnitude : Decimal,
    Numeral.read? (Number.signed negative chars).toList = some ⟨negative, magnitude⟩ ∧
      magnitude.pattern = d.pattern

/-- Decimals with one nearest double are spelled alike. -/
theorem Spells.of_pattern_eq {chars : List Char} {d e : Decimal} (h : Spells chars d)
    (hpattern : d.pattern = e.pattern) : Spells chars e := by
  intro negative
  obtain ⟨magnitude, hread, hmagnitude⟩ := h negative
  exact ⟨magnitude, hread, hmagnitude.trans hpattern⟩

/-- A literal without a point spells its digits at the scale of its exponent. -/
theorem spells_without_point {whole rest : List Char} {exponent : Int}
    (hwhole : AllDigits whole) (hne : whole ≠ []) (hrest : readExponent rest = some exponent) :
    Spells (whole ++ rest) ⟨Nat.ofDigitChars 10 whole 0, exponent⟩ := by
  intro negative
  have hhead := head?_of_readExponent hrest
  have hfraction : takeFraction rest = ([], rest) := by
    unfold takeFraction
    split
    · exact absurd rfl (hhead '.' rfl).2
    · rfl
  have hempty : whole.isEmpty = false := by simp [hne]
  refine ⟨_, ?_, rfl⟩
  simp [Numeral.read?, takeSign_signed negative hwhole hne, hfraction, hempty, hrest,
    takeDigits_append hwhole fun c hc => (hhead c hc).1]

/-- A literal with a point takes the digits after it off the scale. -/
theorem spells_with_point {whole fraction rest : List Char} {exponent : Int}
    (hwhole : AllDigits whole) (hne : whole ≠ []) (hfraction : AllDigits fraction)
    (hrest : readExponent rest = some exponent) :
    Spells (whole ++ '.' :: (fraction ++ rest))
      ⟨Nat.ofDigitChars 10 (whole ++ fraction) 0, exponent - fraction.length⟩ := by
  intro negative
  have hhead := head?_of_readExponent hrest
  have hpoint : takeFraction ('.' :: (fraction ++ rest)) = (fraction, rest) :=
    takeDigits_append hfraction fun c hc => (hhead c hc).1
  have htaken : takeDigits (whole ++ '.' :: (fraction ++ rest)) = (whole, _) :=
    takeDigits_append hwhole fun c hc => by
      obtain rfl : '.' = c := Option.some.inj hc
      decide
  have hempty : whole.isEmpty = false := by simp [hne]
  refine ⟨_, ?_, rfl⟩
  simp [Numeral.read?, takeSign_signed negative hwhole hne, htaken, hpoint, hempty, hrest]

/-- The digits of a whole number spell it. -/
theorem spells_toDigits (n : Nat) : Spells (Nat.toDigits 10 n) ⟨n, 0⟩ := by
  have hspells := spells_without_point (allDigits_toDigits n) Nat.toDigits_ne_nil
    (rfl : readExponent [] = some 0)
  rwa [List.append_nil, Nat.ofDigitChars_ten_toDigits] at hspells

/-- A point and zeros in front of digits lower their scale. -/
theorem spells_leading_zeros {digits : List Char} (hdigits : AllDigits digits) (k : Nat) :
    Spells ('0' :: '.' :: (List.replicate k '0' ++ digits))
      ⟨Nat.ofDigitChars 10 digits 0, -k - digits.length⟩ := by
  have hspells := spells_with_point (allDigits_replicate_zero 1) (List.cons_ne_nil _ _)
    (allDigits_append_iff.mpr ⟨allDigits_replicate_zero k, hdigits⟩)
    (rfl : readExponent [] = some 0)
  have hscale : (0 : Int) - (List.replicate k '0' ++ digits).length = -k - digits.length := by
    rw [List.length_append, List.length_replicate]
    omega
  rwa [List.append_nil, ofDigitChars_zeros_append, ofDigitChars_zeros_append, hscale] at hspells

/-- Zeros behind digits and before the point raise their scale. -/
theorem spells_trailing_zeros {digits : List Char} (hdigits : AllDigits digits)
    (hne : digits ≠ []) (k : Nat) :
    Spells (digits ++ List.replicate k '0' ++ ['.', '0']) ⟨Nat.ofDigitChars 10 digits 0, k⟩ := by
  have hspells := spells_with_point
    (allDigits_append_iff.mpr ⟨hdigits, allDigits_replicate_zero k⟩)
    (List.append_ne_nil_of_left_ne_nil hne _) (allDigits_replicate_zero 1)
    (rfl : readExponent [] = some 0)
  have hscale : (0 : Int) - (List.replicate 1 '0').length + (k + 1 : Nat) = k := by
    rw [List.length_replicate]
    omega
  refine hspells.of_pattern_eq ?_
  rw [List.append_assoc, List.replicate_append_replicate, ofDigitChars_append_zeros,
    Decimal.pattern_mul_power, hscale]

/-- A point among digits lowers their scale by the number of digits behind it. -/
theorem spells_inner_point {digits : List Char} (hdigits : AllDigits digits) (hne : digits ≠ [])
    {k : Nat} (hpos : 0 < k) (hlength : k ≤ digits.length) :
    Spells (digits.take k ++ '.' :: digits.drop k)
      ⟨Nat.ofDigitChars 10 digits 0, k - digits.length⟩ := by
  have hwhole : digits.take k ≠ [] := by
    intro hnil
    rcases List.take_eq_nil_iff.mp hnil with hzero | hempty
    · omega
    · exact hne hempty
  have hscale : (0 : Int) - (digits.drop k).length = k - digits.length := by
    rw [List.length_drop]
    omega
  rw [← List.take_append_drop k digits, allDigits_append_iff] at hdigits
  have hspells := spells_with_point hdigits.1 hwhole hdigits.2 (rfl : readExponent [] = some 0)
  rwa [List.append_nil, List.take_append_drop, hscale] at hspells

/-- Positional notation spells its digits with the point where it was asked for. -/
theorem spells_writePositional {digits : List Char} (hdigits : AllDigits digits)
    (hne : digits ≠ []) (point : Int) :
    Spells (writePositional digits point)
      ⟨Nat.ofDigitChars 10 digits 0, point - digits.length⟩ := by
  unfold writePositional
  by_cases hpoint : point ≤ 0
  · have hspells := spells_leading_zeros hdigits (-point).toNat
    rw [show -((-point).toNat : Int) = point by omega] at hspells
    rwa [if_pos hpoint]
  · rw [if_neg hpoint]
    by_cases hlength : digits.length ≤ point.toNat
    · have hspells := spells_trailing_zeros hdigits hne (point.toNat - digits.length)
      rw [show ((point.toNat - digits.length : Nat) : Int) = point - digits.length by omega]
        at hspells
      rwa [List.drop_eq_nil_of_le hlength, List.take_of_length_le hlength]
    · have hspells := spells_inner_point hdigits hne (show 0 < point.toNat by omega) (by omega)
      have hfraction : (digits.drop point.toNat).isEmpty = false := by
        simp [List.drop_eq_nil_iff, hlength]
      simp only [hfraction]
      rw [show point.toNat - digits.length = 0 by omega, List.replicate_zero, List.append_nil]
      rwa [show (point.toNat : Int) = point by omega] at hspells

/-- Scientific notation spells its digits with the point after the first one. -/
theorem spells_writeScientific {digits : List Char} (hdigits : AllDigits digits)
    (hne : digits ≠ []) (exponent : Int) :
    Spells (writeScientific digits exponent)
      ⟨Nat.ofDigitChars 10 digits 0, exponent + 1 - digits.length⟩ := by
  have hend := readExponent_writeExponent exponent
  obtain ⟨first, others, rfl⟩ := List.exists_cons_of_ne_nil hne
  cases others with
  | nil =>
    have hspells := spells_without_point hdigits hne hend
    have hscale : exponent + 1 - ([first].length : Int) = exponent := Int.add_sub_cancel _ _
    rw [hscale]
    simpa [writeScientific] using hspells
  | cons second others =>
    rw [← List.singleton_append, allDigits_append_iff] at hdigits
    have hspells := spells_with_point hdigits.1 (List.cons_ne_nil _ _) hdigits.2 hend
    have hscale : exponent - ((second :: others).length : Int) =
        exponent + 1 - ((first :: second :: others).length : Int) := by
      rw [List.length_cons, List.length_cons, List.length_cons]
      omega
    rw [hscale] at hspells
    simpa [writeScientific] using hspells

/-- The digits of a number are the significant ones and zeros behind them. -/
theorem exists_significantDigits_append (n : Nat) :
    ∃ k, Nat.toDigits 10 n = significantDigits n ++ List.replicate k '0' := by
  let zeros := (Nat.toDigits 10 n).reverse.takeWhile (· == '0')
  have hzeros : zeros.reverse = List.replicate zeros.length '0' := by
    rw [List.eq_replicate_iff]
    refine ⟨List.length_reverse, fun c hc => ?_⟩
    have hall := List.all_eq_true.mp (List.all_takeWhile (p := (· == '0')))
      c (List.mem_reverse.mp hc)
    exact beq_iff_eq.mp hall
  refine ⟨zeros.length, ?_⟩
  rw [significantDigits, ← hzeros, ← List.reverse_append, List.takeWhile_append_dropWhile,
    List.reverse_reverse]

/-- A decimal has the nearest double of its significant digits, scaled to the same point. -/
theorem Decimal.pattern_significantDigits (n : Nat) (scale : Int) :
    Decimal.pattern ⟨n, scale⟩ =
      Decimal.pattern ⟨Nat.ofDigitChars 10 (significantDigits n) 0,
        digitCount n + scale - (significantDigits n).length⟩ := by
  obtain ⟨k, hk⟩ := exists_significantDigits_append n
  have hcount : digitCount n = (significantDigits n).length + k := by
    rw [digitCount, hk, List.length_append, List.length_replicate]
  have hvalue : n = Nat.ofDigitChars 10 (significantDigits n) 0 * power 10 k := by
    rw [← ofDigitChars_append_zeros, ← hk, Nat.ofDigitChars_ten_toDigits]
  have hscale : digitCount n + scale - (significantDigits n).length = scale + k := by omega
  rw [hscale, ← Decimal.pattern_mul_power, ← hvalue]

/-- A number other than zero has significant digits. -/
theorem significantDigits_ne_nil {n : Nat} (hn : n ≠ 0) : significantDigits n ≠ [] := by
  intro hnil
  obtain ⟨k, hk⟩ := exists_significantDigits_append n
  have hvalue := Nat.ofDigitChars_ten_toDigits (n := n)
  rw [hk, ofDigitChars_append_zeros, hnil, Nat.ofDigitChars_nil, Nat.zero_mul] at hvalue
  exact hn hvalue.symm

/-- The text of a decimal spells it. -/
theorem Decimal.spells_write (d : Decimal) : Spells d.write d := by
  unfold write
  by_cases hzero : d.digits = 0
  · have hspells := spells_with_point (allDigits_replicate_zero 1) (List.cons_ne_nil _ _)
      (allDigits_replicate_zero 1) (rfl : readExponent [] = some 0)
    rw [if_pos hzero]
    refine hspells.of_pattern_eq ?_
    rw [pattern, if_pos (by decide), pattern, if_pos hzero]
  · have hdigits : AllDigits (significantDigits d.digits) := by
      obtain ⟨k, hk⟩ := exists_significantDigits_append d.digits
      exact (allDigits_append_iff.mp (hk ▸ allDigits_toDigits d.digits)).1
    have hne := significantDigits_ne_nil hzero
    have hpattern := pattern_significantDigits d.digits d.scale
    rw [if_neg hzero]
    simp only
    split
    · exact (spells_writePositional hdigits hne _).of_pattern_eq hpattern.symm
    · have hspells := spells_writeScientific hdigits hne (digitCount d.digits + d.scale - 1)
      rw [Int.sub_add_cancel] at hspells
      exact hspells.of_pattern_eq hpattern.symm

/-- A finite number that is whole is nearest to itself. -/
theorem Decimal.pattern_of_units {pattern : Nat} (hfinite : pattern < infinityPattern)
    (hwhole : patternUnits pattern % power 2 unitExponent = 0) :
    Decimal.pattern ⟨patternUnits pattern / power 2 unitExponent, 0⟩ = pattern := by
  have hunits : patternUnits pattern / power 2 unitExponent * power 2 unitExponent =
      patternUnits pattern :=
    Nat.div_mul_cancel (Nat.dvd_of_mod_eq_zero hwhole)
  have hnearest := Decimal.pattern_of_whole (patternUnits pattern / power 2 unitExponent) 0
  rwa [power_zero, Nat.mul_one, hunits, nearestPattern_patternUnits hfinite] at hnearest

/-- The plain text of a finite number is a literal for an equal number. -/
theorem Number.exists_read?_plainText {n : Number} (hfinite : n.isFinite = true) :
    ∃ numeral, Numeral.read? n.plainText.toList = some numeral ∧
      (Number.ofNumeral numeral).same n = true := by
  cases n with
  | nan tag => cases hfinite
  | real negative pattern =>
    have hpattern : pattern < infinityPattern := of_decide_eq_true hfinite
    unfold plainText
    simp only [hpattern, decide_true, Bool.true_and]
    split
    · rename_i hwhole
      obtain ⟨magnitude, hread, hmagnitude⟩ :=
        spells_toDigits (patternUnits pattern / power 2 unitExponent) (negative && pattern != 0)
      refine ⟨_, hread, ?_⟩
      rw [Decimal.pattern_of_units hpattern (beq_iff_eq.mp hwhole)] at hmagnitude
      -- Only zero drops its sign, and the two zeros are equal.
      by_cases hzero : pattern = 0
      · simp [ofNumeral, same, hmagnitude, hzero]
      · simp [ofNumeral, same, hmagnitude, hzero]
    · obtain ⟨magnitude, hread, hmagnitude⟩ := (shortestDecimal pattern).spells_write negative
      rw [fullText, if_pos hpattern]
      refine ⟨_, hread, ?_⟩
      rw [shortestDecimal_pattern hpattern] at hmagnitude
      simp [ofNumeral, same, hmagnitude]

end LexicalLisp
