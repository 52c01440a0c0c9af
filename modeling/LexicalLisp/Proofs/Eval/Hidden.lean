import LexicalLisp.Proofs.Eval.Footprint
import LexicalLisp.Proofs.Store.Hidden

/-!
# Names that make no difference

A name makes no difference to an evaluation that never looks it up, binds it or assigns to it. A
reserved name at the head of a list is none of these: the list is a form, whatever the name is bound
to. So an evaluation cannot tell two states apart that differ in the bindings of hidden names only,
if these names occur in its code as reserved heads only, apart from quoted data.

The code of an evaluation is the expression and the bodies of the closures that it may come by. A
closure that only a hidden name leads to is none of them, so what is asked of the closures is asked
in the store without the bindings of hidden names.
-/

namespace LexicalLisp

variable {hidden : String → Bool}

namespace Value

/-- A symbol that is the name of a form. -/
def isReserved : Value → Bool
  | .symbol name => (Form.ofName? name).isSome
  | _ => false

mutual

/-- Outside of `quote` forms, hidden names occur as reserved heads only. The code of closures is not
looked into. -/
def avoids (hidden : String → Bool) : Value → Bool
  | .symbol name => !hidden name
  | .list (head :: operands) =>
    Form.quote.heads (head :: operands) ||
      ((head.isReserved || avoids hidden head) && avoidsEach hidden operands)
  | _ => true

/-- Hidden names occur in the items, outside of `quote` forms, as reserved heads only. -/
def avoidsEach (hidden : String → Bool) : List Value → Bool
  | [] => true
  | v :: rest => avoids hidden v && avoidsEach hidden rest

end

/-- Items avoid hidden names one by one. -/
theorem avoidsEach_iff {items : List Value} :
    avoidsEach hidden items = true ↔ ∀ v ∈ items, v.avoids hidden = true := by
  induction items with
  | nil => simp [avoidsEach]
  | cons v rest ih => simp [avoidsEach, ih]

/-- A list that is no `quote` form and avoids hidden names does so in every operand, and in its head
unless that is reserved. -/
theorem parts_avoid {head : Value} {operands : List Value}
    (h : (Value.list (head :: operands)).avoids hidden = true)
    (hquote : Form.quote.heads (head :: operands) = false) :
    (head.isReserved = true ∨ head.avoids hidden = true) ∧
      ∀ v ∈ operands, v.avoids hidden = true := by
  rw [avoids, hquote, Bool.false_or, Bool.and_eq_true, Bool.or_eq_true, avoidsEach_iff] at h
  exact h

/-- What is no symbol with the name of a form is not reserved. -/
theorem isReserved_eq_false {v : Value} (h : ∀ form : Form, v ≠ .symbol form.name) :
    v.isReserved = false := by
  cases v with
  | symbol name =>
    cases hform : Form.ofName? name with
    | none => simp [isReserved, hform]
    | some form => exact absurd (congrArg Value.symbol (Form.name_of_ofName? hform)) (h form)
  | _ => rfl

end Value

/-- The bodies of the closures that the frame or value leads to avoid hidden names. -/
abbrev Store.Blind (s : Store) (hidden : String → Bool) : Node → Prop :=
  s.LeadsOnlyTo (Node.IfClosure (·.body.avoids hidden = true))

/-- Evaluation of what avoids hidden names and led by other names to what does so at the start, in
two states that agree outside of these names. Both record the same events from the start on. -/
def overlooking (hidden : String → Bool) (visible : Store) (log log' : Array Event) :
    Discipline where
  World := Discipline.Still
  states _ s s' := (s.store.without hidden).Enclosed (visible.Blind hidden) ∧
    s.store.AgreeOutside hidden s'.store ∧ ∃ events, s.log = log ++ events ∧ s'.log = log' ++ events
  value _ v := visible.Blind hidden (.value v)
  code _ e x := visible.Blind hidden (.frame e) ∧ visible.Blind hidden (.value x) ∧
    x.avoids hidden = true

section Laws

variable {visible : Store} {log log' : Array Event} {s s' : State}

/-- Binding a name that is not hidden. -/
theorem overlooking_put (hs : (overlooking hidden visible log log').states ⟨⟩ s s') {name : String}
    (hname : hidden name = false) (e : FrameId) {v : Value}
    (hv : visible.Blind hidden (.value v)) :
    (overlooking hidden visible log log').states ⟨⟩ { s with store := s.store.put e name v }
      { s' with store := s'.store.put e name v } := by
  obtain ⟨henclosed, hagree, hlogs⟩ := hs
  refine ⟨?_, hagree.put e name v, hlogs⟩
  change ((s.store.put e name v).without hidden).Enclosed _
  rw [Store.without_put s.store hname]
  exact henclosed.put e name hv

/-- Entering a closure. The frame of the call may bind hidden names, to the same values on both
sides. -/
theorem overlooking_push (hs : (overlooking hidden visible log log').states ⟨⟩ s s') {f : FrameId}
    (hf : visible.Blind hidden (.frame f)) {bindings : Bindings}
    (hbindings : ∀ binding ∈ bindings, visible.Blind hidden (.value binding.2)) :
    (overlooking hidden visible log log').states ⟨⟩
      { s with store := s.store.push ⟨some f, bindings⟩ }
      { s' with store := s'.store.push ⟨some f, bindings⟩ } := by
  obtain ⟨henclosed, hagree, hlogs⟩ := hs
  refine ⟨?_, hagree.push _, hlogs⟩
  change ((s.store.push ⟨some f, bindings⟩).without hidden).Enclosed _
  rw [Store.without_push]
  exact henclosed.push hf fun binding hmem => hbindings binding (List.mem_of_mem_filter hmem)

/-- The parts that are evaluated avoid hidden names if the whole does. -/
theorem overlooking_lawful (hidden : String → Bool) (visible : Store) (log log' : Array Event) :
    (overlooking hidden visible log log').Lawful where
  value_mono _ hv := hv
  code_mono _ hx := hx
  number _ _ := .of_links nofun nofun
  boolean _ _ := .of_links nofun nofun
  emit event := by
    rintro ⟨henclosed, hagree, events, hlog, hlog'⟩
    refine ⟨henclosed, hagree, events.push event, ?_, ?_⟩
    · simp [hlog]
    · simp [hlog']
  tag := fun ⟨henclosed, hagree, hlogs⟩ =>
    ⟨hagree.tag_eq, henclosed.tag _, hagree.tag, hlogs⟩
  lookup := by
    rintro _ e name s s' ⟨he, -, hname⟩ ⟨henclosed, hagree, -⟩
    rw [Value.avoids, Bool.not_eq_true'] at hname
    have hvisible := (s.store.agreeOutside_without hidden).lookup?_eq hname e
    exact ⟨hagree.lookup?_eq hname e, fun hfound => henclosed.lookup? he (hvisible ▸ hfound)⟩
  closure := fun ⟨_, hx, _⟩ => hx
  quote := fun ⟨_, hx, _⟩ => hx.item (by simp)
  lambda := by
    rintro _ e fs b s s' ⟨he, hx, havoids⟩ ⟨henclosed, hagree, hlogs⟩
    refine ⟨congrArg (·.length - 1) (hagree.chain_eq e), ⟨⟩, le_refl _,
      ⟨henclosed.tag _, hagree.tag, hlogs⟩, .closure ?_ he (hx.item (by simp))⟩
    exact Node.ifClosure_closure_iff.mpr ((Value.parts_avoid havoids rfl).2 b (by simp))
  define := by
    rintro _ e name x ⟨he, hx, havoids⟩
    obtain ⟨-, hparts⟩ := Value.parts_avoid havoids rfl
    have hname := hparts (.symbol name) (by simp)
    rw [Value.avoids, Bool.not_eq_true'] at hname
    exact ⟨⟨he, hx.item (by simp), hparts x (by simp)⟩,
      fun _ hv hs => overlooking_put hs hname e hv⟩
  assign := by
    rintro _ e name x ⟨he, hx, havoids⟩
    obtain ⟨-, hparts⟩ := Value.parts_avoid havoids rfl
    have hname := hparts (.symbol name) (by simp)
    rw [Value.avoids, Bool.not_eq_true'] at hname
    exact ⟨⟨he, hx.item (by simp), hparts x (by simp)⟩,
      fun _ hs => ⟨hs.2.1.find?_eq hname e, fun hv _ => overlooking_put hs hname _ hv⟩⟩
  operands := by
    rintro _ e head xs ⟨he, hx, havoids⟩ htakes y hy
    have hquote : Form.quote.heads (head :: xs) = false := Form.heads_eq_false htakes rfl
    exact ⟨he, hx.item (List.mem_cons_of_mem _ hy), (Value.parts_avoid havoids hquote).2 y hy⟩
  head := by
    rintro _ e head xs ⟨he, hx, havoids⟩ hfree
    have hquote : Form.quote.heads (head :: xs) = false :=
      Form.heads_eq_false (fun form heq => absurd heq (hfree form)) rfl
    refine ⟨he, hx.item List.mem_cons_self, ?_⟩
    rcases (Value.parts_avoid havoids hquote).1 with hreserved | hhead
    · rw [Value.isReserved_eq_false hfree] at hreserved
      cases hreserved
    · exact hhead
  enter := by
    rintro _ t fs b f us bindings s s' hclosure hargs hbound hs
    refine ⟨hs.2.1.size_eq, ⟨⟩, le_refl _,
      overlooking_push hs hclosure.captured (forall_bindFormals hbound hargs), ?_,
      hclosure.body, ?_⟩
    · exact hs.1.fresh _ (Nat.le_of_eq (Store.size_without hidden s.store))
    · exact Node.ifClosure_closure_iff.mp (hclosure _ .refl)

end Laws

/-- Bindings of hidden names make no difference to an evaluation whose code avoids these names.

Outside of quoted data, they occur as reserved heads only: in the expression, and in the bodies of
the closures that the frame and the expression lead to by other names. -/
theorem evaluate_blind_to_hidden_names {hidden : String → Bool} {s t : State} {e : FrameId}
    {x : Value} (hagree : s.store.AgreeOutside hidden t.store) (hx : x.avoids hidden = true)
    (hreach : ∀ c : Closure, (s.store.without hidden).Reachable e x (.value c.toValue) →
      c.body.avoids hidden = true)
    (limit : Nat) :
    (evaluate limit x e s).1 = (evaluate limit x e t).1 ∧
    (evaluate limit x e s).2.store.AgreeOutside hidden (evaluate limit x e t).2.store ∧
    ∃ events, (evaluate limit x e s).2.log = s.log ++ events ∧
      (evaluate limit x e t).2.log = t.log ++ events := by
  let visible := s.store.without hidden
  obtain ⟨hframe, hvalue⟩ := Store.LeadsOnlyTo.of_reachable hreach
  obtain ⟨-, -, ⟨-, hstores, hlogs⟩, houtcome, -⟩ :=
    ((overlooking_lawful hidden visible s.log t.log).evaluate limit (w := Discipline.Still.mk)
      ⟨hframe, hvalue, hx⟩).outcome
        ⟨visible.enclosed_leadsOnlyTo fun _ _ => nofun, hagree, #[], by simp, by simp⟩
  exact ⟨houtcome, hstores, hlogs⟩

/-- A reserved name that is bound, and a name that one state does not bind, make no difference to a
call of a closure that chooses. -/
theorem evaluate_blind_to_hidden_names_choice :
    let hidden := fun name : String => name == "if" || name == "n"
    let body := Value.list [.symbol "if", .symbol "v", .symbol "v", .boolean true]
    let f := Value.closure 0 [.symbol "v"] body 0
    let x := Value.list [.symbol "define", .symbol "y", .list [.symbol "f", .boolean false]]
    let s : State := { store := ⟨#[⟨none, [("if", .boolean true), ("f", f)]⟩], 1⟩ }
    let t : State := { store := ⟨#[⟨none, [("f", f), ("n", .boolean true)]⟩], 1⟩ }
    s.store.AgreeOutside hidden t.store ∧ x.avoids hidden = true ∧
      (∀ c : Closure, (s.store.without hidden).Reachable 0 x (.value c.toValue) →
        c.body.avoids hidden = true) ∧
      (evaluate 5 x 0 s).1 = (evaluate 5 x 0 t).1 := by
  intro hidden body f x s t
  have hagree : s.store.AgreeOutside hidden t.store := by
    refine ⟨rfl, rfl, fun e => ?_, fun e name hname => ?_⟩
    · cases e <;> rfl
    · simp only [hidden, Bool.or_eq_false_iff, beq_eq_false_iff_ne] at hname
      cases e with
      | zero => simp [s, t, Store.get?, Store.bindingsOf, Bindings.get?, Ne.symm hname.1,
          Ne.symm hname.2]
      | succ e => rfl
  have hheld (g : FrameId) :
      ∀ c ∈ (s.store.without hidden).closuresIn g, c.body.avoids hidden = true := by
    intro c hc
    have hc := s.store.mem_closuresIn_of_without hc
    cases g with
    | zero => exact List.mem_singleton.mp hc ▸ rfl
    | succ g => cases hc
  have hreach (c : Closure) (h : (s.store.without hidden).Reachable 0 x (.value c.toValue)) :
      c.body.avoids hidden = true :=
    h.of_forall hheld (List.forall_mem_nil _)
  have hsame := evaluate_blind_to_hidden_names hagree (e := 0) (x := x) rfl hreach 5
  exact ⟨hagree, rfl, hreach, hsame.1⟩

/-- Looking only at closures within the expression and at those that the frame leads to is not
enough. A closure within the expression may call one that is bound where it was made, and that one
may look a hidden name up. -/
theorem hidden_name_behind_closure_in_expression :
    let hidden := fun name : String => name == "n"
    let x := Value.list [.closure 1 [] (.list [.symbol "d"]) 1]
    let state (b : Bool) : State := { store := ⟨#[⟨none, []⟩,
      ⟨none, [("d", .closure 0 [] (.symbol "n") 1), ("n", .boolean b)]⟩], 2⟩ }
    (∀ b, (state b).store.WellFormed) ∧
      (state true).store.AgreeOutside hidden (state false).store ∧
      x.avoids hidden = true ∧
      (∀ c ∈ x.closures, Value.avoidsEach hidden c.formals = true ∧
        c.body.avoids hidden = true) ∧
      (∀ b, ∀ c : Closure, ((state b).store.without hidden).Leads (.frame 0) (.value c.toValue) →
        Value.avoidsEach hidden c.formals = true ∧ c.body.avoids hidden = true) ∧
      (∀ b, (evaluate 4 x 0 (state b)).1 = .ok (.boolean b)) ∧
      (evaluate 4 x 0 (state true)).1 ≠ (evaluate 4 x 0 (state false)).1 := by
  intro hidden x state
  have halone (b : Bool) {z : Node}
      (hleads : ((state b).store.without hidden).Leads (.frame 0) z) : z = .frame 0 := by
    rcases hleads.cases_head with rfl | ⟨_, hlink, -⟩
    · rfl
    · cases hlink with
      | contains hcontains =>
        cases hcontains with
        | outer houter =>
          rw [Store.outerOf_without] at houter
          cases houter
        | bound hmem =>
          rw [Store.bindingsOf_without] at hmem
          cases hmem
  refine ⟨fun b => ⟨?_, ?_, ?_⟩, ⟨rfl, rfl, ?_, ?_⟩, rfl,
    List.forall_mem_singleton.mpr ⟨rfl, rfl⟩, ?_, fun b => rfl, ?_⟩
  · intro e o houter
    match e with
    | 0 | 1 | _ + 2 => cases houter
  · intro e
    match e with
    | 0 | _ + 2 => exact List.nodup_nil
    | 1 =>
      change ["d", "n"].Nodup
      decide
  · intro e c hc
    match e with
    | 0 | _ + 2 => cases hc
    | 1 => exact List.mem_singleton.mp hc ▸ Nat.one_lt_two
  · intro e
    match e with
    | 0 | 1 | _ + 2 => rfl
  · intro e name hname
    rw [beq_eq_false_iff_ne] at hname
    match e with
    | 0 | _ + 2 => rfl
    | 1 => simp [state, Store.get?, Store.bindingsOf, Bindings.get?, Ne.symm hname]
  · intro b c hleads
    cases halone b hleads
  · intro hsame
    cases hsame

end LexicalLisp
