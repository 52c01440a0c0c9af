import LexicalLisp.Proofs.Value.Equivalence
import LexicalLisp.Proofs.Value.ReadBack

/-!
# Equal values and their text

Printing does not tell equal values apart. The one pair of equal numbers with different encodings
are the two zeros, and the plain text drops the sign of zero; closures and results that are not
numbers equal only themselves. Since both ways of printing see the shape of a value only, equal
values have the same text on one line and within any width.

Values that can be read back are told apart by their text on one line: the text has one sequence of
tokens, that is written for one expression only, and the expression stands for an equal value.
-/

namespace LexicalLisp

/-- The plain text of zero has no sign. -/
theorem Number.plainText_zero (negative : Bool) : (Number.real negative 0).plainText = "0" := by
  have hunits : patternUnits 0 = 0 := rfl
  have hfinite : decide (0 < infinityPattern) = true := by decide
  simp only [plainText, hunits, hfinite, Nat.zero_mod, Nat.zero_div, beq_self_eq_true,
    Bool.and_self, if_true, bne_self_eq_false, Bool.and_false]
  decide

/-- Equal numbers have one plain text. -/
theorem Number.plainText_of_same {m n : Number} (h : m.same n = true) :
    m.plainText = n.plainText := by
  cases m with
  | nan t =>
    cases n with
    | nan u => rfl
    | real _ _ => cases h
  | real s p =>
    cases n with
    | nan _ => cases h
    | real t q =>
      rw [same, Bool.and_eq_true, Bool.or_eq_true, beq_iff_eq, beq_iff_eq, beq_iff_eq] at h
      obtain ⟨rfl, rfl | rfl⟩ := h
      · rfl
      · rw [plainText_zero, plainText_zero]

namespace Value

mutual

/-- Equal values have one printed shape. -/
theorem shape_of_same (v w : Value) (h : v.same w = true) : v.shape = w.shape := by
  match v with
  | .number m =>
    cases w with
    | number n =>
      rw [shape, shape, Number.plainText_of_same (by simpa [same] using h)]
    | _ => simp [same] at h
  | .boolean a => cases w <;> simp_all [same]
  | .symbol m => cases w <;> simp_all [same]
  | .foreign f => cases w <;> simp_all [same]
  | .list xs =>
    cases w with
    | list ys =>
      rw [same] at h
      rw [shape, shape, shapeEach_of_sameItems xs ys h]
    | _ => simp [same] at h
  | .closure t xs body f =>
    cases w with
    | closure u ys other g =>
      rw [same, identical_iff] at h
      rw [h]
    | _ => simp [same] at h

/-- Lists that are equal item by item have the same printed shapes. -/
theorem shapeEach_of_sameItems (xs ys : List Value) (h : sameItems xs ys = true) :
    shapeEach xs = shapeEach ys := by
  match xs, ys with
  | [], [] => rfl
  | [], _ :: _ => simp [sameItems] at h
  | _ :: _, [] => simp [sameItems] at h
  | x :: xs, y :: ys =>
    rw [sameItems, Bool.and_eq_true] at h
    rw [shapeEach, shapeEach, shape_of_same x y h.1, shapeEach_of_sameItems xs ys h.2]

end

/-- Equal values have the same text on one line. -/
theorem render_of_same {v w : Value} (h : v.same w = true) : v.render = w.render := by
  rw [render, render, shape_of_same v w h]

/-- Equal values have the same text within any width. -/
theorem pretty_of_same {v w : Value} (h : v.same w = true) (level width : Int) :
    v.pretty level width = w.pretty level width := by
  rw [pretty, pretty, shape_of_same v w h]

/-- Values that can be read back are equal if they have the same text on one line. -/
theorem same_of_render {v w : Value} (hv : v.readable = true) (hw : w.readable = true)
    (h : v.render = w.render) : v.same w = true := by
  obtain ⟨d, hd, hdv⟩ := exists_derivation_render v hv
  obtain ⟨e, he, hew⟩ := exists_derivation_render w hw
  have htokens : d.tokens ++ [] = e.tokens ++ [] := by rw [← hd, ← he, h]
  obtain ⟨rfl, -⟩ := Derivation.tokens_append_inj d e [] [] htokens
  exact same_trans v d.value w (same_symm d.value v hdv) hew

end Value

/-- Printing respects equality: equal values have one text on one line and one within every width.
And where values can be read back, those with one text on one line are equal. -/
theorem printing_respects_equality (v w : Value) :
    (v.same w = true →
      v.render = w.render ∧ ∀ level width, v.pretty level width = w.pretty level width) ∧
    (v.readable = true → w.readable = true → v.render = w.render → v.same w = true) :=
  ⟨fun h => ⟨Value.render_of_same h, Value.pretty_of_same h⟩,
    fun hv hw h => Value.same_of_render hv hw h⟩

/-- The two zeros are equal and of one text, also inside a list. -/
theorem printing_respects_equality_zero :
    let v := Value.list [.symbol "x", .number (.real true 0)]
    let w := Value.list [.symbol "x", .number (.real false 0)]
    v.render = w.render ∧ v.same w = true :=
  have hsame := (printing_respects_equality (.list [.symbol "x", .number (.real true 0)])
    (.list [.symbol "x", .number (.real false 0)]))
  have hrender := (hsame.1 (by decide)).1
  ⟨hrender, hsame.2 (by decide) (by decide) hrender⟩

end LexicalLisp
