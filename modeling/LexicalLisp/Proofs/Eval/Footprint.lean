import LexicalLisp.Proofs.Eval.Discipline
import LexicalLisp.Proofs.Store.Reach

/-!
# What an evaluation writes

Without assignments, the only form that writes to a frame is `define`, and it writes to the frame
it is evaluated in. The body of a closure is evaluated in a new frame, whenever and wherever the
closure was made. So an evaluation writes to its own frame, the names that its own `define` forms
bind, and to frames that it has created itself.

Assignments have to be absent from all code that the evaluation may run: from the expression, and
from the bodies of all closures that the frame and the expression lead to.
-/

namespace LexicalLisp

/-- The list starts with the reserved name. -/
def Form.heads (form : Form) : List Value → Bool
  | .symbol name :: _ => name == form.name
  | _ => false

/-- The name that a list starting with `define` and a symbol is about. -/
def definedName : List Value → List String
  | .symbol head :: .symbol name :: _ => if head = Form.define.name then [name] else []
  | _ => []

namespace Value

mutual

/-- A list that starts with `set!` occurs somewhere in the value, quoted or not. The code of
closures is not looked into. -/
def assigns : Value → Bool
  | .list items => Form.assign.heads items || assignsEach items
  | _ => false

/-- A list that starts with `set!` occurs in one of the items. -/
def assignsEach : List Value → Bool
  | [] => false
  | v :: rest => assigns v || assignsEach rest

end

mutual

/-- The names that lists starting with `define` are about, outside of `quote` and `lambda` forms.
The code of closures is not looked into. -/
def defines : Value → List String
  | .list items =>
    if Form.quote.heads items || Form.lambda.heads items then []
    else definedName items ++ definesEach items
  | _ => []

/-- The names that are defined in one of the items. -/
def definesEach : List Value → List String
  | [] => []
  | v :: rest => defines v ++ definesEach rest

end

/-- Where no assignment occurs, none occurs in a part. -/
theorem assigns_of_mem {v : Value} {items : List Value} (hv : v ∈ items)
    (h : (Value.list items).assigns = false) : v.assigns = false := by
  rw [assigns, Bool.or_eq_false_iff] at h
  replace h := h.2
  induction items with
  | nil => cases hv
  | cons u rest ih =>
    rw [assignsEach, Bool.or_eq_false_iff] at h
    rcases List.mem_cons.mp hv with rfl | hv
    · exact h.1
    · exact ih hv h.2

/-- What an item defines, the list defines, unless it is a `quote` or `lambda` form. -/
theorem mem_defines_of_mem {v : Value} {items : List Value} (hv : v ∈ items)
    (hquote : Form.quote.heads items = false) (hlambda : Form.lambda.heads items = false)
    {name : String} (h : name ∈ v.defines) : name ∈ (Value.list items).defines := by
  have heach : name ∈ definesEach items := by
    clear hquote hlambda
    induction items with
    | nil => cases hv
    | cons u rest ih =>
      rw [definesEach]
      rcases List.mem_cons.mp hv with rfl | hv
      · exact List.mem_append_left _ h
      · exact List.mem_append_right _ (ih hv)
  simp [defines, hquote, hlambda, heach]

end Value

/-- A list whose head is no reserved name, or that of a form of expressions, is neither a `quote`
nor a `lambda` form. -/
theorem Form.heads_eq_false {head : Value} {items : List Value} {form : Form}
    (h : ∀ other : Form, head = .symbol other.name → other.takesExpressions = true)
    (hform : form.takesExpressions = false) : form.heads (head :: items) = false := by
  cases head with
  | symbol name =>
    rw [Form.heads, beq_eq_false_iff_ne]
    intro heq
    rw [h form (congrArg Value.symbol heq)] at hform
    cases hform
  | _ => rfl

namespace Store

/-- The frames of an earlier store are as they were, but for some names in one of them. -/
structure Keeps (start s : Store) (e : FrameId) (names : List String) : Prop where
  size_le : start.frames.size ≤ s.frames.size
  others : ∀ i < start.frames.size, i ≠ e → s.frames[i]? = start.frames[i]?
  unnamed : ∀ n ∉ names, s.get? e n = start.get? e n

namespace Keeps

variable {start s : Store} {e : FrameId} {names : List String}

/-- Binding one of the names, or binding any name in a newer frame. -/
theorem put (h : start.Keeps s e names) (he : e < start.frames.size) {g : FrameId} {name : String}
    (hg : start.frames.size ≤ g ∨ (g = e ∧ name ∈ names)) (value : Value) :
    start.Keeps (s.put g name value) e names where
  size_le := size_put s g name value ▸ h.size_le
  others i hi hne := by
    have hother : i ≠ g := by
      rcases hg with hnew | ⟨rfl, -⟩
      · exact Nat.ne_of_lt (Nat.lt_of_lt_of_le hi hnew)
      · exact hne
    exact (getElem?_frames_put_of_ne hother name value).trans (h.others i hi hne)
  unnamed n hn := by
    refine Eq.trans ?_ (h.unnamed n hn)
    rw [get?, get?, bindingsOf_put]
    split
    · rename_i heq
      rcases hg with hnew | ⟨-, hname⟩
      · exact absurd heq.1 (Nat.ne_of_lt (Nat.lt_of_lt_of_le he hnew))
      · exact Bindings.get?_put_of_ne (fun hsame : n = name => hn (hsame ▸ hname)) value _
    · rfl

/-- Adding a frame. -/
theorem push (h : start.Keeps s e names) (he : e < start.frames.size) (frame : Frame) :
    start.Keeps (s.push frame) e names where
  size_le := by
    rw [size_push]
    exact Nat.le_succ_of_le h.size_le
  others i hi hne := by
    have hold := Nat.ne_of_lt (Nat.lt_of_lt_of_le hi h.size_le)
    exact (getElem?_frames_push_of_ne hold frame).trans (h.others i hi hne)
  unnamed n hn := by
    have hold := Nat.ne_of_lt (Nat.lt_of_lt_of_le he h.size_le)
    rw [← h.unnamed n hn, get?, get?, bindingsOf_push, if_neg hold]

end Keeps

end Store

/-- Nothing that the frame or value leads to has an assignment in its body. -/
abbrev Store.Unassigning (s : Store) : Node → Prop :=
  s.LeadsOnlyTo (Node.IfClosure (·.body.assigns = false))

/-- Evaluation of what led to no assignment at the start. Expressions are evaluated in a frame that
was created since then, or in one frame from before where they define certain names only. -/
def definingOnly (start : Store) (e₀ : FrameId) (names : List String) : Discipline where
  World := Discipline.Still
  states _ s s' := s = s' ∧ s.store.Enclosed start.Unassigning ∧ start.Keeps s.store e₀ names
  value _ v := start.Unassigning (.value v)
  code _ e x := start.Unassigning (.frame e) ∧ start.Unassigning (.value x) ∧ x.assigns = false ∧
    (start.frames.size ≤ e ∨ (e = e₀ ∧ ∀ n ∈ x.defines, n ∈ names))

/-- Evaluation without assignments keeps everything but the names it defines in its own frame. -/
theorem definingOnly_lawful {start : Store} {e₀ : FrameId} (he₀ : e₀ < start.frames.size)
    (names : List String) : (definingOnly start e₀ names).Lawful where
  value_mono _ hv := hv
  code_mono _ hx := hx
  number _ _ := .of_links nofun nofun
  boolean _ _ := .of_links nofun nofun
  emit event := by
    rintro ⟨rfl, henclosed, hkeeps⟩
    exact ⟨rfl, henclosed, hkeeps⟩
  tag := by
    rintro _ s s' ⟨rfl, henclosed, hkeeps⟩
    exact ⟨rfl, rfl, henclosed.tag _, hkeeps.size_le, hkeeps.others, hkeeps.unnamed⟩
  lookup := by
    rintro _ e name s s' ⟨he, -⟩ ⟨rfl, henclosed, -⟩
    exact ⟨rfl, fun hfound => henclosed.lookup? he hfound⟩
  closure := fun ⟨_, hx, _⟩ => hx
  quote := fun ⟨_, hx, _⟩ => hx.item (by simp)
  lambda := by
    rintro _ e fs b s s' ⟨he, hx, hassigns, -⟩ ⟨rfl, henclosed, hkeeps⟩
    refine ⟨rfl, ⟨⟩, le_refl _, ⟨rfl, henclosed.tag _, hkeeps.size_le, hkeeps.others,
      hkeeps.unnamed⟩, .closure (Node.ifClosure_closure_iff.mpr ?_) he (hx.item (by simp))⟩
    exact Value.assigns_of_mem (v := b) (by simp) hassigns
  define := by
    rintro _ e name x ⟨he, hx, hassigns, hplace⟩
    refine ⟨⟨he, hx.item (by simp), Value.assigns_of_mem (by simp) hassigns,
      hplace.imp_right fun hown =>
        ⟨hown.1, fun n hn => hown.2 n (Value.mem_defines_of_mem (by simp) rfl rfl hn)⟩⟩, ?_⟩
    rintro _ v s s' - hv ⟨rfl, henclosed, hkeeps⟩
    refine ⟨rfl, henclosed.put e name hv, hkeeps.put he₀ (hplace.imp_right fun hown => ?_) v⟩
    exact ⟨hown.1, hown.2 name (by simp [Value.defines, Form.heads, definedName, Form.name])⟩
  assign := by
    rintro _ e name x ⟨-, -, hassigns, -⟩
    simp [Value.assigns, Form.heads] at hassigns
  operands := by
    rintro _ e head xs ⟨he, hx, hassigns, hplace⟩ htakes y hy
    have hmem : y ∈ head :: xs := List.mem_cons_of_mem _ hy
    have hquote : Form.quote.heads (head :: xs) = false := Form.heads_eq_false htakes rfl
    have hlambda : Form.lambda.heads (head :: xs) = false := Form.heads_eq_false htakes rfl
    exact ⟨he, hx.item hmem, Value.assigns_of_mem hmem hassigns, hplace.imp_right fun hown =>
      ⟨hown.1, fun n hn => hown.2 n (Value.mem_defines_of_mem hmem hquote hlambda hn)⟩⟩
  head := by
    rintro _ e head xs ⟨he, hx, hassigns, hplace⟩ hfree
    have htakes : ∀ form : Form, head = .symbol form.name → form.takesExpressions = true :=
      fun form heq => absurd heq (hfree form)
    have hquote : Form.quote.heads (head :: xs) = false := Form.heads_eq_false htakes rfl
    have hlambda : Form.lambda.heads (head :: xs) = false := Form.heads_eq_false htakes rfl
    exact ⟨he, hx.item List.mem_cons_self, Value.assigns_of_mem List.mem_cons_self hassigns,
      hplace.imp_right fun hown => ⟨hown.1, fun n hn => hown.2 n
        (Value.mem_defines_of_mem List.mem_cons_self hquote hlambda hn)⟩⟩
  enter := by
    rintro _ t fs b f us bindings s s' hclosure hargs hbound ⟨rfl, henclosed, hkeeps⟩
    -- The body runs in a new frame, so what it defines is none of the names at stake.
    refine ⟨rfl, ⟨⟩, le_refl _, ⟨rfl, ?_, hkeeps.push he₀ _⟩, ?_, hclosure.body, ?_,
      .inl hkeeps.size_le⟩
    · exact henclosed.push hclosure.captured (forall_bindFormals hbound hargs)
    · exact henclosed.fresh _ (Nat.le_refl _)
    · exact Node.ifClosure_closure_iff.mp (hclosure _ .refl)

/-- An evaluation that comes by no assignment writes to its own frame what it defines there, and
otherwise to frames that it creates.

No list that starts with `set!` occurs in the expression, or in the body of a closure that the frame
or the expression leads to. -/
theorem evaluate_writes_only_definitions {s : State} {e : FrameId} {x : Value}
    (he : e < s.store.frames.size) (hx : x.assigns = false)
    (hreach : ∀ c : Closure, s.store.Reachable e x (.value c.toValue) → c.body.assigns = false)
    (limit : Nat) :
    (∀ i < s.store.frames.size, i ≠ e →
      (evaluate limit x e s).2.store.frames[i]? = s.store.frames[i]?) ∧
    ∀ n ∉ x.defines, (evaluate limit x e s).2.store.get? e n = s.store.get? e n := by
  obtain ⟨hframe, hvalue⟩ := Store.LeadsOnlyTo.of_reachable hreach
  obtain ⟨-, -, ⟨-, -, hkeeps⟩, -, -⟩ :=
    ((definingOnly_lawful he x.defines).evaluate limit (w := Discipline.Still.mk)
      ⟨hframe, hvalue, hx, .inr ⟨rfl, fun _ hn => hn⟩⟩).outcome
        ⟨rfl, s.store.enclosed_leadsOnlyTo fun _ _ => nofun, Nat.le_refl _, fun _ _ _ => rfl,
          fun _ _ => rfl⟩
  exact ⟨hkeeps.others, hkeeps.unnamed⟩

/-- Calling a closure whose body defines `m` changes neither `m` in the frame of the call nor the
other frame. -/
theorem evaluate_writes_only_definitions_call :
    let body := Value.list [.symbol "define", .symbol "m", .symbol "n"]
    let call := Value.list [.symbol "define", .symbol "a", .list [.symbol "f", .boolean true]]
    let s : State := { store := ⟨#[⟨none, [("f", .closure 0 [.symbol "n"] body 0)]⟩,
      ⟨none, [("a", .boolean false)]⟩], 1⟩ }
    call.assigns = false ∧
      (∀ c : Closure, s.store.Reachable 0 call (.value c.toValue) → c.body.assigns = false) ∧
      (evaluate 5 call 0 s).2.store.frames[1]? = s.store.frames[1]? ∧
      (evaluate 5 call 0 s).2.store.get? 0 "m" = s.store.get? 0 "m" := by
  intro body call s
  have hheld (g : FrameId) : ∀ c ∈ s.store.closuresIn g, c.body.assigns = false := by
    match g with
    | 0 => exact List.forall_mem_singleton.mpr rfl
    | 1 | _ + 2 => exact nofun
  have hreach (c : Closure) (h : s.store.Reachable 0 call (.value c.toValue)) :
      c.body.assigns = false :=
    h.of_forall hheld (List.forall_mem_nil _)
  have hkept := evaluate_writes_only_definitions (s := s) (e := 0) (x := call) Nat.two_pos rfl
    hreach 5
  exact ⟨rfl, hreach, hkept.1 1 Nat.one_lt_two nofun, hkept.2 "m" (by decide)⟩

/-- Looking only at closures within the expression and at those that the frame leads to is not
enough. A closure within the expression may call one that is bound where it was made, and that one
may assign. -/
theorem assignment_behind_closure_in_expression :
    let assigning := Value.list [.symbol "set!", .symbol "z", .boolean true]
    let x := Value.list [.closure 1 [] (.list [.symbol "d"]) 1]
    let s : State := { store := ⟨#[⟨none, []⟩,
      ⟨none, [("z", .boolean false), ("d", .closure 0 [] assigning 1)]⟩], 2⟩ }
    s.store.WellFormed ∧ 0 < s.store.frames.size ∧ x.assigns = false ∧
      (∀ c ∈ x.closures, c.body.assigns = false) ∧
      (∀ c : Closure, s.store.Leads (.frame 0) (.value c.toValue) → c.body.assigns = false) ∧
      1 < s.store.frames.size ∧
      (evaluate 4 x 0 s).2.store.frames[1]? ≠ s.store.frames[1]? := by
  intro assigning x s
  have halone {z : Node} (hleads : s.store.Leads (.frame 0) z) : z = .frame 0 := by
    rcases hleads.cases_head with rfl | ⟨_, hlink, -⟩
    · rfl
    · cases hlink with
      | contains hcontains =>
        cases hcontains with
        | outer houter => cases houter
        | bound hmem => cases hmem
  refine ⟨⟨?_, ?_, ?_⟩, Nat.two_pos, rfl, List.forall_mem_singleton.mpr rfl, ?_,
    Nat.one_lt_two, ?_⟩
  · intro e o houter
    match e with
    | 0 | 1 | _ + 2 => cases houter
  · intro e
    match e with
    | 0 | _ + 2 => exact List.nodup_nil
    | 1 => decide
  · intro e c hc
    match e with
    | 0 | _ + 2 => cases hc
    | 1 => exact List.mem_singleton.mp hc ▸ Nat.one_lt_two
  · intro c hleads
    cases halone hleads
  · intro hsame
    have hvalue : (evaluate 4 x 0 s).2.store.get? 1 "z" = s.store.get? 1 "z" := by
      rw [Store.get?, Store.get?, Store.bindingsOf, Store.bindingsOf, hsame]
    cases hvalue

end LexicalLisp
