import LexicalLisp.Proofs.Eval.Discipline
import LexicalLisp.Proofs.Eval.Steps

/-!
# What a rule asks of its evaluator

A rule of evaluation is given an evaluator for the expressions within the one at hand. Which
questions it puts to the evaluator, and in which states, is not read off its definition: a rule asks
a question if another answer to it, and to it alone, could make a difference. An answer may leave
the state in any way, and may be that there is not enough depth, so no question goes unnoticed.

A rule that stays within a discipline asks no more than the discipline allows.
-/

namespace LexicalLisp

variable {α : Type} {rule : Evaluator → Eval α} {eval : Evaluator} {s t : State} {x : Value}
  {e : FrameId}

/-- The rule asks the evaluator for the value of an expression, in this state: another answer to
this question alone could make a difference. -/
def Asks (rule : Evaluator → Eval α) (eval : Evaluator) (s : State) (x : Value) (e : FrameId)
    (t : State) : Prop :=
  ∃ other : Evaluator, (∀ y g u, ¬ (y = x ∧ g = e ∧ u = t) → other y g u = eval y g u) ∧
    rule other s ≠ rule eval s

/-- A question that the rule arrives at is asked. On its way there, the rule may have put other
questions to the evaluator. -/
theorem asks_of_arrives (next : Evaluator → Value → Eval α)
    (hrule : ∀ other : Evaluator, (∀ y g u, ¬ (y = x ∧ g = e ∧ u = t) → other y g u = eval y g u) →
      rule other s = (other x e >>= next other) t) : Asks rule eval s x e t := by
  classical
  -- An answer that leaves one more event on record than the rule does is noticed.
  let left := (rule eval s).2
  let noticed : State := { left with log := left.log.push (.sourceRead "") }
  let other : Evaluator := fun y g u =>
    if y = x ∧ g = e ∧ u = t then (.tooDeep, noticed) else eval y g u
  have hagree : ∀ y g u, ¬ (y = x ∧ g = e ∧ u = t) → other y g u = eval y g u :=
    fun y g u hne => if_neg hne
  have hanswer : other x e t = (.tooDeep, noticed) := if_pos ⟨rfl, rfl, rfl⟩
  refine ⟨other, hagree, fun hsame => ?_⟩
  rw [hrule other hagree, Eval.bind_of_tooDeep hanswer] at hsame
  have hsize : left.log.size + 1 = left.log.size := by
    rw [← Array.size_push (.sourceRead "")]
    exact congrArg (fun result => result.2.log.size) hsame
  exact absurd hsize (Nat.succ_ne_self _)

/-- Where each run is within the discipline on its own, a rule asks only for expressions that may be
evaluated, in states that are allowed. -/
theorem Discipline.code_of_asks {D : Discipline} {P : D.World → α → Prop} {w : D.World}
    (hsingle : ∀ {w : D.World} {s s' : State}, D.states w s s' → s = s')
    (heval : ∀ {w : D.World} {e : FrameId} {x : Value}, D.code w e x →
      D.Answers w D.value (eval x e))
    (hrule : ∀ other : Evaluator, (∀ {w : D.World} {e : FrameId} {x : Value}, D.code w e x →
      D.Agree w D.value (eval x e) (other x e)) → D.Agree w P (rule eval) (rule other))
    (hs : D.states w s s) (h : Asks rule eval s x e t) :
    ∃ w', D.code w' e x ∧ D.states w' t t := by
  apply Classical.byContradiction
  intro hnone
  obtain ⟨other, hagree, hchanged⟩ := h
  -- On what is allowed the evaluators agree, so the rule cannot tell them apart.
  have hother : ∀ {w : D.World} {e : FrameId} {x : Value}, D.code w e x →
      D.Agree w D.value (eval x e) (other x e) := by
    intro w' g y hy u u' hu
    obtain rfl := hsingle hu
    rw [hagree y g u fun ⟨hyx, hge, hut⟩ => hnone ⟨w', hyx ▸ hge ▸ hy, hut ▸ hu⟩]
    exact heval hy u u hu
  obtain ⟨w', -, hstates, houtcome, -⟩ := (hrule other hother).outcome hs
  exact hchanged (Prod.ext houtcome (hsingle hstates)).symm

end LexicalLisp
