import LexicalLisp.Proofs.Eval.Congruence
import LexicalLisp.Proofs.Eval.Questions

/-!
# Running out of depth

The limit on depth decides how far an evaluation gets, never what it comes to: an evaluation that
stays within a limit comes to the same under every larger one, with the same frames and the same
events. The reason is that running out of depth is passed on by every rule: where the evaluator
gives up on one of the questions of a rule, so does the rule.

The limit counts nested evaluations and nothing else. To compare values is no evaluation, so it does
not give up, however deeply the values are nested.
-/

namespace LexicalLisp

namespace Eval

variable {α β : Type}

/-- The second computation comes to what the first comes to, unless that runs out of depth. -/
def Refines (a b : Eval α) : Prop :=
  ∀ s, (a s).1 ≠ .tooDeep → b s = a s

namespace Refines

/-- A computation comes to what it comes to. -/
theorem refl (a : Eval α) : Refines a a :=
  fun _ _ => rfl

/-- Giving up promises nothing. -/
theorem tooDeep (a : Eval α) : Refines Eval.tooDeep a :=
  fun _ h => absurd rfl h

/-- Computations one after the other. -/
theorem bind {a b : Eval α} {next next' : α → Eval β} (hfirst : Refines a b)
    (hnext : ∀ x, Refines (next x) (next' x)) : Refines (a >>= next) (b >>= next') := by
  intro s hdone
  change andThen b next' s = andThen a next s
  change (andThen a next s).1 ≠ .tooDeep at hdone
  have hfirst := hfirst s
  unfold andThen at hdone ⊢
  rcases hresult : a s with ⟨x | d | _, t⟩
  · rw [hresult] at hfirst hdone
    rw [hfirst nofun]
    exact hnext x t hdone
  · rw [hresult] at hfirst
    rw [hfirst nofun]
  · rw [hresult] at hdone
    exact absurd rfl hdone

/-- Turning errors into values leaves the lack of depth as it is. -/
theorem attempt {a b : Eval α} (h : Refines a b) :
    Refines (Eval.attempt a) (Eval.attempt b) := by
  intro s hdone
  have hinner := h s
  unfold Eval.attempt at hdone ⊢
  rcases hresult : a s with ⟨x | d | _, t⟩
  · rw [hresult] at hinner
    rw [hinner nofun]
  · rw [hresult] at hinner
    rw [hinner nofun]
  · rw [hresult] at hdone
    exact absurd rfl hdone

end Refines

/-- Refinement is passed on by every rule of evaluation. -/
theorem refines_congruence : Congruence Error.arisesInEvaluation fun _ => Refines where
  succeed _ := .refl _
  fail _ := .refl _
  getStore := .refl _
  freshTag := .refl _
  emit _ := .refl _
  put _ _ _ := .refl _
  newFrame _ := .refl _
  bind hfirst hnext := .bind hfirst hnext

end Eval

/-- Evaluation under a limit comes to the same under a larger one. -/
theorem evaluate_refines {limit larger : Nat} (hle : limit ≤ larger) (x : Value) (e : FrameId) :
    Eval.Refines (evaluate limit x e) (evaluate larger x e) := by
  induction limit generalizing larger x e with
  | zero => exact .tooDeep _
  | succ limit ih =>
    obtain ⟨more, rfl⟩ := Nat.exists_eq_succ_of_ne_zero (Nat.ne_zero_of_lt hle)
    exact Eval.refines_congruence.compatible.evaluateWith (ih (Nat.le_of_succ_le_succ hle)) x e

/-- The rule gives up where the evaluator gives up on a question of the rule. -/
def Relays {α : Type} (rule : Evaluator → Eval α) : Prop :=
  ∀ eval s x e t, Asks rule eval s x e t → (eval x e t).1 = .tooDeep → (rule eval s).1 = .tooDeep

/-- A rule that comes to more where its evaluator does passes the lack of depth on. -/
theorem relays_of_refines {α : Type} {rule : Evaluator → Eval α}
    (hrule : ∀ eval eval', (∀ x e, Eval.Refines (eval x e) (eval' x e)) →
      Eval.Refines (rule eval) (rule eval')) : Relays rule := by
  intro eval s x e t ⟨other, hagree, hchanged⟩ hdeep
  apply Classical.byContradiction
  intro hdone
  -- The other answers refine those of the evaluator, since the one changed is a giving up.
  refine hchanged (hrule eval other (fun y g u hu => hagree y g u ?_) s hdone)
  rintro ⟨rfl, rfl, rfl⟩
  exact hu hdeep

/-- Every reserved form passes the lack of depth on. -/
theorem run_relays (form : Form) (operands : List Value) (e : FrameId) :
    Relays fun eval => form.run eval operands e :=
  relays_of_refines fun _ _ h => Eval.refines_congruence.compatible.run h form operands e

/-- Applying a value passes the lack of depth on. -/
theorem applyValue_relays (head : Value) (arguments : List Value) :
    Relays fun eval => applyValue eval head arguments := by
  refine relays_of_refines fun _ _ h => ?_
  cases head with
  | closure tag formals body frame =>
    exact Eval.refines_congruence.compatible.callClosure h tag formals body frame arguments
  | _ => exact .refl _

/-- Every expression passes the lack of depth on. -/
theorem evaluateWith_relays (x : Value) (e : FrameId) :
    Relays fun eval => evaluateWith eval x e :=
  relays_of_refines fun _ _ h => Eval.refines_congruence.compatible.evaluateWith h x e

end LexicalLisp
