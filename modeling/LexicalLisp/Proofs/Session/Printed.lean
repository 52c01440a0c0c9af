import LexicalLisp.Proofs.Session.Plain
import LexicalLisp.Proofs.Value.Words

/-!
# Closures printed and read again

A closure is printed as the lambda form it came from. In a session that is driven by text this form
is source text: what comes into such a session has been read, so every symbol in it is one word, and
nothing in it makes symbols or takes them apart. The text of a closure is therefore read as a lambda
form with equal parameters and an equal body, whatever the parameters are.

Evaluating that form in the frame of the closure makes a second closure over the same frame. The
reserved name is not looked up, so it does not matter what it is bound to by then.
-/

namespace LexicalLisp

namespace Value

mutual

/-- The numbers within a value, also within the code of closures. -/
def numbers : Value → List Number
  | .number n => [n]
  | .list items => numbersEach items
  | .closure _ formals body _ => numbersEach formals ++ numbers body
  | .boolean _ | .symbol _ | .foreign _ => []

/-- The numbers within the items of a list. -/
def numbersEach : List Value → List Number
  | [] => []
  | v :: rest => numbers v ++ numbersEach rest

end

mutual

/-- A tree whose symbols are read back and whose numbers are finite is readable. -/
theorem readable_of_isTree (v : Value) (htree : v.isTree = true) (hlegible : v.Legible)
    (hfinite : ∀ n ∈ v.numbers, n.isFinite = true) : v.readable = true := by
  match v with
  | .number n => exact hfinite n (List.mem_singleton_self n)
  | .symbol name => exact hlegible name (List.mem_singleton_self name)
  | .list items => exact readableEach_of_isTree items htree hlegible hfinite
  | .boolean _ | .closure .. | .foreign _ => cases htree

/-- So are trees in a row. -/
theorem readableEach_of_isTree (items : List Value) (htree : isTreeEach items = true)
    (hlegible : ∀ name ∈ symbolsEach items, isReadableName name = true)
    (hfinite : ∀ n ∈ numbersEach items, n.isFinite = true) : readableEach items = true := by
  match items with
  | [] => rfl
  | v :: rest =>
    rw [isTreeEach, Bool.and_eq_true] at htree
    obtain ⟨hv, hrest⟩ := List.forall_mem_append.mp hlegible
    obtain ⟨hvfinite, hrestFinite⟩ := List.forall_mem_append.mp hfinite
    rw [readableEach, readable_of_isTree v htree.1 hv hvfinite,
      readableEach_of_isTree rest htree.2 hrest hrestFinite]
    rfl

end

/-- What is equal to a symbol is that symbol. -/
theorem eq_symbol_of_same {v : Value} {name : String} (h : v.same (.symbol name) = true) :
    v = .symbol name := by
  cases v <;> simp_all [same]

/-- What is equal to a list is a list of equal items. -/
theorem exists_list_of_same {v : Value} {items : List Value} (h : v.same (.list items) = true) :
    ∃ others, v = .list others ∧ sameItems others items = true := by
  cases v with
  | list others => exact ⟨others, rfl, by rwa [same] at h⟩
  | _ => simp [same] at h

/-- What is equal to a lambda form is a lambda form with equal parameters and an equal body. -/
theorem exists_lambda_of_same {v body : Value} {name : String} {formals : List Value}
    (h : v.same (.list [.symbol name, .list formals, body]) = true) :
    ∃ formals' body', v = .list [.symbol name, .list formals', body'] ∧
      sameItems formals' formals = true ∧ body'.same body = true := by
  obtain ⟨items, rfl, hitems⟩ := exists_list_of_same h
  match items with
  | [head, parameters, body'] =>
    simp only [sameItems, Bool.and_eq_true, and_true] at hitems
    obtain ⟨hhead, hparameters, hbody⟩ := hitems
    obtain rfl := eq_symbol_of_same hhead
    obtain ⟨formals', rfl, hformals⟩ := exists_list_of_same hparameters
    exact ⟨formals', body', rfl, hformals, hbody⟩
  | [] | [_] | [_, _] | _ :: _ :: _ :: _ :: _ => simp [sameItems] at hitems

/-- An item of a value whose symbols are read back. -/
theorem Legible.of_mem {v : Value} {items : List Value} (hv : v ∈ items)
    (h : (Value.list items).Legible) : v.Legible := by
  induction items with
  | nil => cases hv
  | cons first rest ih =>
    obtain ⟨hfirst, hrest⟩ := List.forall_mem_append.mp h
    rcases List.mem_cons.mp hv with rfl | hv
    · exact hfirst
    · exact ih hv hrest

/-- The symbols of what is written are words of the text. -/
theorem IsWritten.legible {x : Value} (h : x.IsWritten) : x.Legible := by
  obtain ⟨source, before, after, d, htokens, rfl⟩ := h
  intro name hname
  obtain ⟨hmem, hnumeral⟩ := d.mem_tokens_of_mem_symbols hname
  have hword : .atom name ∈ tokenize source := by
    rw [htokens]
    exact List.mem_append_left _ (List.mem_append_right _ hmem)
  exact isReadableName_of_mem_tokenize hword hnumeral

end Value

/-- Evaluation of expressions, among values, whose symbols are read back. -/
def legibleOnly : Discipline where
  World := Discipline.Still
  states _ s s' := s = s' ∧ s.HoldsOnly Value.Legible
  value _ v := v.Legible
  code _ _ x := x.Legible

/-- No rule makes a symbol: those of an answer are found in the expression or in the frames. -/
theorem legibleOnly_lawful : legibleOnly.Lawful where
  value_mono _ hv := hv
  code_mono _ hx := hx
  number _ _ := nofun
  boolean _ _ := nofun
  emit event := by
    rintro ⟨rfl, hs⟩
    exact ⟨rfl, (State.Deposit.recorded _ event).holdsOnly hs⟩
  tag := by
    rintro _ s s' ⟨rfl, hs⟩
    exact ⟨rfl, rfl, (State.Deposit.tagged s).holdsOnly hs⟩
  lookup := by
    rintro _ e name s s' - ⟨rfl, hs⟩
    exact ⟨rfl, fun hfound => hs.lookup? hfound⟩
  closure hx := hx
  quote hx := Value.Legible.of_mem (by simp) hx
  lambda := by
    rintro _ e fs b s s' hx ⟨rfl, hs⟩
    have hformals : (Value.list fs).Legible := Value.Legible.of_mem (by simp) hx
    have hbody : b.Legible := Value.Legible.of_mem (by simp) hx
    exact ⟨rfl, ⟨⟩, le_refl _, ⟨rfl, (State.Deposit.tagged s).holdsOnly hs⟩,
      List.forall_mem_append.mpr ⟨hformals, hbody⟩⟩
  define := by
    rintro _ e name x hx
    refine ⟨Value.Legible.of_mem (by simp) hx, ?_⟩
    rintro _ v s s' - hv ⟨rfl, hs⟩
    exact ⟨rfl, (State.Deposit.bound s e name v hv).holdsOnly hs⟩
  assign := by
    rintro _ e name x hx
    refine ⟨Value.Legible.of_mem (by simp) hx, ?_⟩
    rintro _ s s' - ⟨rfl, hs⟩
    exact ⟨rfl, fun {v target} hv _ =>
      ⟨rfl, (State.Deposit.bound s target name v hv).holdsOnly hs⟩⟩
  operands hx _ _ hy := Value.Legible.of_mem (List.mem_cons_of_mem _ hy) hx
  head hx _ := Value.Legible.of_mem List.mem_cons_self hx
  enter := by
    rintro _ t fs b f us bindings s s' hclosure hargs hbound ⟨rfl, hs⟩
    have hbindings : ∀ binding ∈ bindings, binding.2.Legible := forall_bindFormals hbound hargs
    exact ⟨rfl, ⟨⟩, le_refl _,
      ⟨rfl, (State.Deposit.entered s ⟨some f, bindings⟩ hbindings).holdsOnly hs⟩,
      (List.forall_mem_append.mp hclosure).2⟩

/-- The symbols of a new root are read back. -/
theorem State.newSession_legible : State.newSession.HoldsOnly Value.Legible :=
  State.holdsOnly_newSession (by decide)

/-- The value comes about in the course of these requests: the root was made with it, or evaluation
is called on an expression and answers it. A closure comes about where its lambda form is
evaluated. -/
inductive Arises (root : FrameId) (start : State) (requests : List (Nat × TextRequest))
    (v : Value) : Prop where
  | withRoot {name : String} (bound : (name, v) ∈ start.store.bindingsOf root)
  | answered {limit : Nat} {x : Value} {e : FrameId} {s : State}
      (called : Evaluates root start requests limit x e s)
      (answer : (evaluate limit x e s).1 = .ok v)

/-- Whatever comes about in a session is plain, and its symbols are read back. -/
theorem Arises.plain_and_legible {requests : List (Nat × TextRequest)} {v : Value}
    (h : Arises 0 .newSession requests v) : v.isPlain = true ∧ v.Legible := by
  have hplain := State.newSession_holdsOnly
  have hlegible := State.newSession_legible
  cases h with
  | withRoot hbound => exact ⟨hplain 0 _ hbound, hlegible 0 _ hbound⟩
  | @answered limit x e s hcalled hanswer =>
    obtain ⟨htree, hdeposits⟩ := hcalled.isTree hplain
    obtain ⟨_, -, -, -, hvalue⟩ := ((plainSince_lawful hplain).evaluate limit
      (w := Discipline.Still.mk) (e := e) htree).outcome ⟨rfl, hdeposits⟩
    obtain ⟨w, hx, hs⟩ := hcalled.code legibleOnly_lawful (w := Discipline.Still.mk)
      (fun _ _ _ hx => hx.legible) ⟨rfl, hlegible⟩ fun hstates => hstates.1
    obtain ⟨_, -, -, -, hvalue'⟩ := (legibleOnly_lawful.evaluate limit hx).outcome hs
    exact ⟨hvalue v hanswer, hvalue' v hanswer⟩

/-- The reserved name `lambda` makes a closure over the frame, whatever is bound. -/
theorem evaluate_lambda (limit : Nat) (formals : List Value) (body : Value) (e : FrameId)
    (s : State) :
    evaluate (limit + 1) (.list [.symbol "lambda", .list formals, body]) e s =
      runLambda [.list formals, body] e s := by
  have hform : Form.ofName? "lambda" = some .lambda := Form.ofName?_name .lambda
  change evaluateList (evaluate limit) (.symbol "lambda") [.list formals, body] e s = _
  rw [evaluateList, hform]
  rfl

/-- A closure whose code is readable is read back from its text as the lambda form of an equal
closure. -/
theorem Closure.read_render {c : Closure} (hformals : Value.readableEach c.formals = true)
    (hbody : c.body.readable = true) :
    ∃ formals body,
      readFirst c.toValue.render = .ok (.list [.symbol "lambda", .list formals, body]) ∧
        Value.sameItems formals c.formals = true ∧ body.same c.body = true := by
  have hreadable : (Value.list [.symbol "lambda", .list c.formals, c.body]).readable = true := by
    have hname : isReadableName "lambda" = true := by decide
    simp [Value.readable, Value.readableEach, hname, hformals, hbody]
  obtain ⟨d, htokens, hsame⟩ := Value.exists_derivation_render _ hreadable
  obtain ⟨formals, body, hvalue, hsameFormals, hsameBody⟩ := Value.exists_lambda_of_same hsame
  exact ⟨formals, body, hvalue ▸ readFirst_of_tokens htokens, hsameFormals, hsameBody⟩

/-- Equal code has one text, whatever the tags and the frames. -/
theorem Closure.render_of_same {c : Closure} {formals : List Value} {body : Value}
    (hformals : Value.sameItems formals c.formals = true) (hbody : body.same c.body = true)
    (tag : Nat) (frame : FrameId) :
    (Value.closure tag formals body frame).render = c.toValue.render := by
  rw [Value.render, Value.render, toValue, Value.shape, Value.shape,
    Value.shapeEach_of_sameItems _ _ hformals, Value.shape_of_same _ _ hbody]

/-- A printed closure can be read back in the session it came about in, and at any later time.

Its text is read as a lambda form with parameters and a body equal to its own. Evaluated in the
frame of the closure, in any state and with any limit that allows it to start, the form yields a
closure of that frame with these parameters, this body and the same text, and no frame is changed or
added. It is assumed of the closure that the numbers in its code are finite. -/
theorem printed_closure_read_back (requests : List (Nat × TextRequest)) :
    ∃ root start, standardRoot {} = (.ok root, start) ∧
      ∀ c : Closure, Arises root start requests c.toValue →
        (∀ n ∈ c.toValue.numbers, n.isFinite = true) →
        ∃ x formals body, readFirst c.toValue.render = .ok x ∧
          Value.same (.list formals) (.list c.formals) = true ∧ body.same c.body = true ∧
          ∀ limit s, ∃ tag t,
            evaluate (limit + 1) x c.frame s = (.ok (.closure tag formals body c.frame), t) ∧
            t.store.frames = s.store.frames ∧
            (Value.closure tag formals body c.frame).render = c.toValue.render := by
  refine ⟨0, .newSession, standardRoot_empty, fun c hc hfinite => ?_⟩
  obtain ⟨hplain, hlegible⟩ := hc.plain_and_legible
  obtain ⟨hformalsTree, hbodyTree⟩ := Bool.and_eq_true_iff.mp hplain
  obtain ⟨hformalsLegible, hbodyLegible⟩ := List.forall_mem_append.mp hlegible
  obtain ⟨hformalsFinite, hbodyFinite⟩ := List.forall_mem_append.mp hfinite
  obtain ⟨formals, body, hread, hformals, hbody⟩ := Closure.read_render
    (Value.readableEach_of_isTree c.formals hformalsTree hformalsLegible hformalsFinite)
    (Value.readable_of_isTree c.body hbodyTree hbodyLegible hbodyFinite)
  refine ⟨_, formals, body, hread, by rwa [Value.same], hbody, fun limit s => ?_⟩
  have hmade := (evaluate_lambda limit formals body c.frame s).trans
    (runLambda_eq formals body c.frame s)
  exact ⟨s.store.nextTag, _, hmade, rfl, Closure.render_of_same hformals hbody _ _⟩

/-- A closure with a negative zero in a list among its parameters is read back where the name
`lambda` is bound. -/
theorem printed_closure_read_back_zero :
    let request := TextRequest.evaluate "(lambda (x (-0)) (f x))"
    let c : Closure := ⟨4, [.symbol "x", .list [.number (.real true 0)]],
      .list [.symbol "f", .symbol "x"], 0⟩
    let s : State := ⟨⟨#[⟨none, [("lambda", .boolean false)]⟩], 5⟩, #[]⟩
    Arises 0 .newSession [(1, request)] c.toValue ∧
      ∃ x formals body tag t, readFirst c.toValue.render = .ok x ∧
        evaluate 1 x 0 s = (.ok (.closure tag formals body 0), t) ∧
        t.store.frames = s.store.frames := by
  intro request c s
  have hread : readAll "(lambda (x (-0)) (f x))" = .ok [.list [.symbol "lambda",
      .list c.formals, c.body]] := rfl
  have hmade : (evaluate 1 (.list [.symbol "lambda", .list c.formals, c.body]) 0
      .newSession).1 = .ok c.toValue := by
    rw [evaluate_lambda, runLambda_eq]
    rfl
  have hc : Arises 0 .newSession [(1, request)] c.toValue :=
    .answered (Evaluates.first 0 .newSession [] [] 1 hread) hmade
  obtain ⟨root, start, hroot, hclosures⟩ := printed_closure_read_back [(1, request)]
  obtain ⟨hsame, rfl⟩ := Prod.mk.inj (standardRoot_empty.symm.trans hroot)
  obtain rfl := Outcome.ok.inj hsame
  obtain ⟨x, formals, body, hx, -, -, hevaluate⟩ := hclosures c hc (by decide)
  obtain ⟨tag, t, hanswer, hframes, -⟩ := hevaluate 0 s
  exact ⟨hc, x, formals, body, tag, t, hx, hanswer, hframes⟩

end LexicalLisp
