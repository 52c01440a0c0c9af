import LexicalLisp.Proofs.Eval.Correspondence
import LexicalLisp.Proofs.Rename.Frames
import LexicalLisp.Proofs.Store.Coherence

/-!
# Renaming a parameter does not change behaviour

Evaluation keeps the correspondence between the two runs, so a lambda form may be exchanged for its
renaming in any place where it is evaluated. Both runs exceed the depth, or fail with errors of one
kind, or answer values that are alike, and their stores match frame by frame.

The runs start from a coherent store. There, no frame is inside, and every closure belongs together
with itself.
-/

namespace LexicalLisp

/-- Faults of operands that should be a name and an expression depend on their number. -/
theorem Form.kind_bindingFault (form : Form) {xs ys : List Value} (h : xs.length = ys.length) :
    (form.bindingFault xs).kind = (form.bindingFault ys).kind := by
  match xs, ys, h with
  | [], [], _ | [_], [_], _ | [_, _], [_, _], _ => rfl
  | _ :: _ :: _ :: _, _ :: _ :: _ :: _, _ => rfl

/-- Faults of operands that should be parameters and a body depend on their number. -/
theorem kind_lambdaFault {xs ys : List Value} (h : xs.length = ys.length) :
    (lambdaFault xs).kind = (lambdaFault ys).kind := by
  match xs, ys, h with
  | [], [], _ | [_], [_], _ | [_, _], [_, _], _ => rfl
  | _ :: _ :: _ :: _, _ :: _ :: _ :: _, _ => rfl

namespace Renaming

/-- What counts as the same when a parameter is renamed. -/
def correspondence (r : Renaming) : Correspondence where
  World := World r
  verbatim := False
  states w s s' := w.Match s.store s'.store
  values w := Alike w.pairing
  code w := w.Code

namespace World

variable {r : Renaming} {w : World r} {e : FrameId}

/-- Looking a name up, and what stands for it. -/
theorem relates_lookup {n : String} (he : e < w.size) (hn : w.Allowed e n) :
    r.correspondence.Relates w r.correspondence.values (Eval.lookup e (.symbol n))
      (Eval.lookup e (.symbol (w.nameAt e n))) := by
  intro s s' hs
  have hfound := World.Match.lookup?_rel hs he hn
  rw [Eval.lookup_symbol, Eval.lookup_symbol]
  generalize s.store.lookup? e n = left at hfound
  generalize s'.store.lookup? e (w.nameAt e n) = right at hfound
  cases hfound with
  | none => exact ⟨w, le_refl w, hs, rfl, nofun⟩
  | some halike => exact ⟨w, le_refl w, hs, halike⟩

/-- Binding a name, and what stands for it. -/
theorem relates_bindName {n : String} (hn : w.Allowed e n) {u v : Value}
    (huv : Alike w.pairing u v) :
    r.correspondence.Relates w (fun _ _ _ => True) (Eval.bindName e (.symbol n) u)
      (Eval.bindName e (.symbol (w.nameAt e n)) v) :=
  fun _ _ hs => ⟨w, le_refl w, World.Match.put hs hn huv, trivial⟩

/-- Overwriting a name, and what stands for it. -/
theorem relates_overwrite {n : String} (he : e < w.size) (hn : w.Allowed e n) {u v : Value}
    (huv : Alike w.pairing u v) :
    r.correspondence.Relates w (fun _ _ _ => True) (Eval.overwrite e (.symbol n) u)
      (Eval.overwrite e (.symbol (w.nameAt e n)) v) := by
  intro s s' hs
  obtain ⟨hfind, hfound⟩ := World.Match.find?_eq hs he hn
  rw [Eval.overwrite_symbol, Eval.overwrite_symbol, hfind]
  cases htarget : s.store.find? e n with
  | none => exact ⟨w, le_refl w, hs, rfl, nofun⟩
  | some target =>
    obtain ⟨hname, hallowed⟩ := hfound target htarget
    exact ⟨w, le_refl w, hname ▸ World.Match.put hs hallowed huv, trivial⟩

/-- Names mean the same as long as the frame exists. -/
theorem nameAt_mono {w' : World r} (hle : w ≤ w') (he : e < w.size) (n : String) :
    w'.nameAt e n = w.nameAt e n ∧ (w.Allowed e n → w'.Allowed e n) := by
  unfold nameAt Allowed
  rw [hle.2.1 e he]
  exact ⟨rfl, id⟩

/-- Operands that should be a name and an expression are so in both runs or in neither. -/
theorem binding_cases {xs ys : List Value} (h : List.Forall₂ (w.Code e) xs ys) :
    (∃ n x y, xs = [.symbol n, x] ∧ ys = [.symbol (w.nameAt e n), y] ∧ w.Allowed e n ∧
        w.Code e x y) ∨
      ((∀ n x, xs ≠ [.symbol n, x]) ∧ ∀ n y, ys ≠ [.symbol n, y]) := by
  by_cases hparts : ∃ n x, xs = [.symbol n, x]
  · obtain ⟨n, x, rfl⟩ := hparts
    match ys, h with
    | [v, y], .cons htarget (.cons hx .nil) =>
      obtain ⟨rfl, hn⟩ := htarget.symbol
      exact .inl ⟨n, x, y, rfl, rfl, hn, hx⟩
  · refine .inr ⟨fun n x heq => hparts ⟨n, x, heq⟩, fun n y heq => ?_⟩
    subst heq
    match xs, h with
    | [u, x], .cons htarget (.cons _ .nil) =>
      rcases htarget.shape with ⟨m, rfl, -⟩ | ⟨_, _, -, hlist⟩ | ⟨hsame, hsymbol, -⟩
      · exact hparts ⟨m, x, rfl⟩
      · cases hlist
      · exact hsymbol n hsame.symm

/-- Lambda forms that correspond make closures that belong together. -/
theorem relates_runLambda {xs y : _} (h : w.Code e (.list (.symbol Form.lambda.name :: xs)) y) :
    ∃ ys, y = .list (.symbol Form.lambda.name :: ys) ∧
      r.correspondence.Relates w r.correspondence.values (runLambda xs e) (runLambda ys e) := by
  obtain ⟨ys, hy, hcases⟩ := h.lambda
  refine ⟨ys, hy, ?_⟩
  rcases hcases with ⟨fs, b, fs', b', rfl, rfl, hpair⟩ | ⟨hxs, hys, hlength⟩
  · intro s s' hs
    have hs : w.Match s.store s'.store := hs
    rw [runLambda_eq, runLambda_eq, hs.tag_eq]
    have hunused := hs.unused s.store.nextTag (Nat.le_refl _)
    have hmade := hs.made (hpair s.store.nextTag) rfl hunused rfl h.frame_lt
    rw [hs.tag_eq] at hmade
    refine ⟨_, w.le_made (hpair s.store.nextTag) hunused rfl h.frame_lt, hmade, ?_⟩
    exact .closure (if_pos rfl)
  · rw [runLambda_of_malformed hxs, runLambda_of_malformed hys]
    exact .fail (kind_lambdaFault hlength) nofun

/-- A reserved form and its counterpart run the same way. -/
theorem formView {form : Form} {xs : List Value} {y : Value}
    (h : w.Code e (.list (.symbol form.name :: xs)) y) :
    ∃ ys, y = .list (.symbol form.name :: ys) ∧ r.correspondence.FormView w e form xs ys := by
  have hitems (hquote : form ≠ .quote) (hlambda : form ≠ .lambda) :
      ∃ ys, y = .list (.symbol form.name :: ys) ∧ List.Forall₂ (w.Code e) xs ys := by
    have hhead {other : Form} (hne : form ≠ other) :
        Value.symbol form.name ≠ .symbol other.name := by
      intro heq
      have hname := Form.ofName?_name form
      rw [Value.symbol.inj heq, Form.ofName?_name] at hname
      exact hne (Option.some.inj hname).symm
    obtain ⟨v, ys, rfl, hv, hxs⟩ := h.list (hhead hquote) (hhead hlambda)
    refine ⟨ys, ?_, hxs⟩
    rw [hv.symbol.1, nameAt, r.renameName_reserved, ite_self]
  cases form with
  | quote =>
    refine ⟨xs, h.quote, .quote ?_⟩
    match xs with
    | [x] => exact .succeed ((h.constant.of_mem (by simp)).alike x)
    | [] | _ :: _ :: _ => exact .fail rfl nofun
  | lambda =>
    obtain ⟨ys, hy, hrun⟩ := relates_runLambda h
    exact ⟨ys, hy, .lambda hrun⟩
  | define =>
    obtain ⟨ys, hy, hxs⟩ := hitems nofun nofun
    refine ⟨ys, hy, ?_⟩
    rcases binding_cases hxs with ⟨n, x, y, rfl, rfl, hn, hx⟩ | ⟨hleft, hright⟩
    · refine .define hx fun w' hle u v huv => ?_
      obtain ⟨hname, hallowed⟩ := nameAt_mono hle hx.frame_lt n
      exact hname ▸ relates_bindName (hallowed hn) huv
    · exact .malformed (fun eval => runDefine_of_malformed hleft eval e)
        (fun eval => runDefine_of_malformed hright eval e)
        (Form.kind_bindingFault .define hxs.length_eq) nofun
  | assign =>
    obtain ⟨ys, hy, hxs⟩ := hitems nofun nofun
    refine ⟨ys, hy, ?_⟩
    rcases binding_cases hxs with ⟨n, x, y, rfl, rfl, hn, hx⟩ | ⟨hleft, hright⟩
    · refine .assign nofun hx (fun w' hle s s' hs => ?_) fun w' hle u v huv => ?_
      all_goals
        obtain ⟨hname, hallowed⟩ := nameAt_mono hle hx.frame_lt n
        have hlt := Nat.lt_of_lt_of_le hx.frame_lt hle.1
      · rw [← hname, (World.Match.find?_eq hs hlt (hallowed hn)).1]
      · exact hname ▸ relates_overwrite hlt (hallowed hn) huv
    · exact .malformed (fun eval => runAssign_of_malformed hleft eval e)
        (fun eval => runAssign_of_malformed hright eval e)
        (Form.kind_bindingFault .assign hxs.length_eq) nofun
  | choose | plus | minus | times | equals =>
    obtain ⟨ys, hy, hxs⟩ := hitems nofun nofun
    exact ⟨ys, hy, .operands rfl hxs⟩

/-- A name that is not reserved stands for one that is not. -/
theorem ofName?_nameAt {n : String} (h : Form.ofName? n = none) :
    Form.ofName? (w.nameAt e n) = none := by
  unfold nameAt
  split
  · exact r.ofName?_renameName h
  · exact h

/-- An expression and its counterpart are evaluated the same way. -/
theorem view {x y : Value} (h : w.Code e x y) : r.correspondence.View w e x y := by
  match x with
  | .symbol n =>
    obtain ⟨rfl, hn⟩ := h.symbol
    exact .name (relates_lookup h.frame_lt hn)
  | .number n =>
    obtain rfl := h.literal nofun nofun
    exact .number n
  | .boolean b =>
    obtain rfl := h.literal nofun nofun
    exact .boolean b
  | .foreign f =>
    obtain rfl := h.literal nofun nofun
    exact .foreign f
  | .closure t fs b f =>
    obtain rfl := h.literal nofun nofun
    exact .closure (h.constant.alike _)
  | .list [] =>
    obtain rfl := h.empty
    exact .empty
  | .list (.symbol n :: xs) =>
    cases hform : Form.ofName? n with
    | some form =>
      cases Form.name_of_ofName? hform
      obtain ⟨ys, rfl, hview⟩ := formView h
      exact .form hview
    | none =>
      have hfree (form : Form) : Value.symbol n ≠ .symbol form.name := by
        intro heq
        rw [Value.symbol.inj heq, Form.ofName?_name] at hform
        cases hform
      obtain ⟨v, ys, rfl, hv, hxs⟩ := h.list (hfree .quote) (hfree .lambda)
      obtain ⟨rfl, hn⟩ := hv.symbol
      exact .call hform (ofName?_nameAt hform) (relates_lookup h.frame_lt hn) hxs
  | .list (.closure t fs b f :: xs) =>
    obtain ⟨v, ys, rfl, hv, hxs⟩ := h.list nofun nofun
    obtain rfl := hv.literal nofun nofun
    exact .apply (hv.constant.alike _) hxs
  | .list (.list items :: xs) =>
    obtain ⟨v, ys, rfl, hv, hxs⟩ := h.list nofun nofun
    rcases hv.shape with ⟨_, hhead, -⟩ | ⟨us, vs, -, rfl⟩ | ⟨-, -, hhead⟩
    · cases hhead
    · exact .compute hv hxs
    · exact absurd rfl (hhead items)
  | .list (.number _ :: xs) | .list (.boolean _ :: xs) | .list (.foreign _ :: xs) =>
    obtain ⟨v, ys, rfl, hv, -⟩ := h.list nofun nofun
    obtain rfl := hv.literal nofun nofun
    exact .literalHead (fun _ => rfl) (fun _ => rfl)

/-- The frames that calls of two closures open, and what is evaluated in them. -/
theorem exists_opened {t t' : Nat} {fs fs' : List Value} {b b' : Value} {f f' : FrameId}
    (hpair : r.Pair w.inside w.pairing ⟨t, fs, b, f⟩ ⟨t', fs', b', f'⟩) :
    ∃ i : Bool, f' = f ∧ fs' = fs.map ((w.opened i).formalAt w.size) ∧
      ((w.opened i).inside w.size = true → ∀ formal ∈ fs, formal.mentions r.new = false) ∧
      (w.opened i).Code w.size b b' ∧
      (i = true → .symbol r.old ∈ fs ∨ w.inside f = true) ∧ (i = false → w.inside f = false) := by
  have hinside (i : Bool) : (w.opened i).inside w.size = i := if_pos rfl
  have hlt (i : Bool) : w.size < (w.opened i).size := Nat.lt_succ_self _
  have hrenamed : (w.opened true).formalAt w.size = Value.rename r.old r.new := by
    funext formal
    rw [formalAt, hinside, if_pos rfl]
  cases hpair with
  | outside frame constant body =>
    have hsame : (w.opened false).formalAt w.size = id := by
      funext formal
      rw [formalAt, hinside]
      rfl
    have houter : (w.opened false).inside w.size ≠ true := by
      rw [hinside]
      exact nofun
    refine ⟨false, rfl, by rw [hsame, List.map_id], ?_, ?_, nofun, fun _ => frame⟩
    · exact fun h => absurd h houter
    · exact ⟨hlt false, constant, fun _ => body, fun h => absurd h houter, fun h => absurd h houter⟩
  | form frame constant =>
    refine ⟨true, rfl, by rw [hrenamed, Value.renameEach_eq_map], fun _ formal hformal => ?_, ?_,
      fun _ => .inl (List.mem_map.mpr ⟨r.old, r.old_mem, rfl⟩), nofun⟩
    · obtain ⟨n, hn, rfl⟩ := List.mem_map.mp hformal
      exact beq_eq_false_iff_ne.mpr fun heq => r.new_not_mem (heq ▸ hn)
    · exact ⟨hlt true, constant, fun h => absurd ((hinside true).symm.trans h) nofun,
        fun _ => r.new_absent, fun _ => rfl⟩
  | nested frame constant formals_absent body_absent =>
    refine ⟨true, rfl, by rw [hrenamed, Value.renameEach_eq_map],
      fun _ => Value.mentionsEach_eq_false.mp formals_absent, ?_, fun _ => .inr frame, nofun⟩
    exact ⟨hlt true, constant, fun h => absurd ((hinside true).symm.trans h) nofun,
      fun _ => body_absent, fun _ => rfl⟩

/-- Calling closures that belong together opens frames that correspond. -/
theorem relates_callFrame {t t' : Nat} {fs fs' us vs : List Value} {b b' : Value} {f f' : FrameId}
    (h : Alike w.pairing (.closure t fs b f) (.closure t' fs' b' f'))
    (harguments : List.Forall₂ (Alike w.pairing) us vs) :
    r.correspondence.Relates w (fun w' g g' => g = g' ∧ r.correspondence.code w' g b b')
      (callFrame (.closure t fs b f) fs f us) (callFrame (.closure t' fs' b' f') fs' f' vs) := by
  cases h with
  | closure paired =>
    obtain ⟨-, -, hframe, hpair⟩ := w.valid paired
    obtain ⟨i, rfl, rfl, habsent, hbody, hanchored, houtside⟩ := exists_opened hpair
    by_cases hlength : us.length = fs.length
    · have hlength' : vs.length = (fs.map ((w.opened i).formalAt w.size)).length := by
        rw [List.length_map, ← hlength, harguments.length_eq]
      intro s s' hs
      have hs : w.Match s.store s'.store := hs
      rw [callFrame_eq _ hlength, callFrame_eq _ hlength']
      rcases bindFormals_rel (w := w.opened i) .nil nofun habsent harguments with
        ⟨result, result', hleft, hright, hbindings, hallowed⟩ | ⟨d, d', hleft, hright, hkind⟩
      -- The world grows only if the parameters can be bound.
      · rw [hleft, hright]
        refine ⟨w.opened i, w.le_opened i, ?_, hs.size_left.trans hs.size_right.symm, ?_⟩
        · refine hs.push hframe hbindings hallowed (fun hi => ?_) houtside
          exact (hanchored hi).imp_left fun hold => mem_names_bindFormals hleft hlength (.inr hold)
        · exact hs.size_left ▸ hbody
      · rw [hleft, hright]
        exact ⟨w, le_refl w, hs, hkind, nofun⟩
    · have hlength' : vs.length ≠ (fs.map ((w.opened i).formalAt w.size)).length := by
        rwa [List.length_map, ← harguments.length_eq]
      rw [callFrame, callFrame, if_neg hlength, if_neg hlength']
      exact .fail rfl nofun

end World

/-- Evaluation keeps the correspondence. -/
theorem correspondence_lawful (r : Renaming) : r.correspondence.Lawful where
  values_mono hle := Pairing.alike_mono hle.2.2 _
  code_mono hle h := h.mono hle
  values_eq := nofun
  code_eq := nofun
  number _ n := .number n
  boolean _ b := .boolean b
  sort h := h.sort
  same {w _ _ _ _} h h' := w.same_eq _ h h'
  emit h _ := h
  tag h := ⟨(World.Match.tag_eq h).symm, World.Match.tag h⟩
  view h := World.view h
  enter h harguments := World.relates_callFrame h harguments

section Start

variable {s : Store} {x : Value}

/-- Every closure that is held belongs together with itself. -/
def heldPairing (s : Store) (x : Value) : Pairing :=
  fun t => ((s.holds x).find? (·.tag = t)).map fun c => (c, c)

/-- A tag that is in use leads to its closure. -/
theorem heldPairing_tag (h : s.Coherent x) {c : Closure} (hc : c ∈ s.holds x) :
    heldPairing s x c.tag = some (c, c) := by
  cases hfind : (s.holds x).find? (·.tag = c.tag) with
  | none => exact absurd (decide_eq_true rfl) (List.find?_eq_none.mp hfind c hc)
  | some d =>
    have htag := List.find?_some hfind
    have hd := h.tag_inj d (List.mem_of_find?_eq_some hfind) c hc (of_decide_eq_true htag)
    rw [heldPairing, hfind, hd]
    rfl

/-- A pair of the start is a closure that is held, with itself. -/
theorem of_heldPairing {t : Nat} {c c' : Closure} (h : heldPairing s x t = some (c, c')) :
    c' = c ∧ c.tag = t ∧ c ∈ s.holds x := by
  obtain ⟨d, hfind, hpair⟩ := Option.map_eq_some_iff.mp h
  obtain ⟨rfl, rfl⟩ := Prod.mk.inj hpair
  have htag := List.find?_some hfind
  exact ⟨rfl, of_decide_eq_true htag, List.mem_of_find?_eq_some hfind⟩

/-- The world to start from: nothing is inside, and every closure is the same in both runs. -/
def World.start (r : Renaming) (h : s.Coherent x) : World r where
  size := s.frames.size
  inside _ := false
  pairing := heldPairing s x
  valid := by
    intro t c c' hpair
    obtain ⟨rfl, rfl, hc⟩ := of_heldPairing hpair
    refine ⟨rfl, rfl, ?_, .outside rfl (fun d hd => ?_) (.same _)⟩
    · rcases Store.mem_holds.mp hc with ⟨e, hc⟩ | hc
      · exact h.wellFormed.captured_lt hc
      · exact h.captured_lt _ hc
    · exact heldPairing_tag h (Store.holds_trans hc (List.mem_append_right _ hd))

/-- At the start the stores are equal, and match. -/
theorem World.match_start (r : Renaming) (h : s.Coherent x) : (World.start r h).Match s s where
  size_left := rfl
  size_right := rfl
  tag_eq := rfl
  unused t ht := by
    cases hpair : heldPairing s x t with
    | none => exact hpair
    | some p =>
      obtain ⟨-, rfl, hc⟩ := of_heldPairing hpair
      exact absurd (h.tag_lt _ hc) (Nat.not_lt.mpr ht)
  outer_eq _ := rfl
  outer_lt := h.wellFormed.outer_lt
  bindings e := List.forall₂_same.mpr fun binding hmem => by
    refine ⟨rfl, Pairing.Constant.alike _ fun c hc => heldPairing_tag h ?_⟩
    exact Store.mem_holds.mpr (.inl ⟨e, Store.mem_closuresIn_of_mem hmem hc⟩)
  allowed _ _ _ := nofun
  anchored _ _ := nofun
  outside _ _ := rfl

end Start

/-- Renaming a parameter of a lambda form does not change behaviour, in whatever expression the form
is evaluated.

With the same limit on depth, both runs exceed it, or fail with errors of one kind, or answer values
that are alike. The stores match, in a world that continues the one where all frames are outside and
all closures are the same in both runs. -/
theorem rename_parameter_simulates (r : Renaming) {context : Context}
    (hcontext : context.Evaluated) {s : State}
    (hs : s.store.Coherent (context.fill r.original)) {e : FrameId}
    (he : e < s.store.frames.size) (limit : Nat) :
    ∃ w : World r, World.start r hs ≤ w ∧
      w.Match (evaluate limit (context.fill r.original) e s).2.store
        (evaluate limit (context.fill r.renamed) e s).2.store ∧
      ((evaluate limit (context.fill r.original) e s).1 = .tooDeep ∧
          (evaluate limit (context.fill r.renamed) e s).1 = .tooDeep ∨
        (∃ d d', (evaluate limit (context.fill r.original) e s).1 = .error d ∧
          (evaluate limit (context.fill r.renamed) e s).1 = .error d' ∧ d.kind = d'.kind) ∨
        ∃ u v, (evaluate limit (context.fill r.original) e s).1 = .ok u ∧
          (evaluate limit (context.fill r.renamed) e s).1 = .ok v ∧ Alike w.pairing u v) := by
  have hcode : (World.start r hs).Code e (context.fill r.original) (context.fill r.renamed) :=
    ⟨he, fun c hc => heldPairing_tag hs (Store.mem_holds.mpr (.inr hc)),
      fun _ => .fill hcontext, nofun, nofun⟩
  obtain ⟨w, hle, hmatch, hends⟩ :=
    r.correspondence_lawful.relates_evaluate limit hcode s s (World.match_start r hs)
  refine ⟨w, hle, hmatch, ?_⟩
  generalize (evaluate limit (context.fill r.original) e s).1 = left at hends
  generalize (evaluate limit (context.fill r.renamed) e s).1 = right at hends
  cases left <;> cases right
  case tooDeep.tooDeep => exact .inl ⟨rfl, rfl⟩
  case error.error d d' => exact .inr (.inl ⟨d, d', rfl, rfl, hends.1⟩)
  case ok.ok u v => exact .inr (.inr ⟨u, v, rfl, rfl, hends⟩)
  all_goals exact False.elim hends

/-- A parameter that is assigned, shadowed and quoted in the body. The renamed form answers the
quoted symbol as it was, since the form itself does. -/
theorem rename_parameter_simulates_shadowed :
    ∃ (r : Renaming) (context : Context) (s : State),
      r.original = .list [.symbol "lambda", .list [.symbol "x"],
        .list [.symbol "if", .list [.symbol "set!", .symbol "x", .boolean false], .symbol "x",
          .list [.list [.symbol "lambda", .list [.symbol "x"],
            .list [.symbol "quote", .symbol "x"]], .symbol "x"]]] ∧
      r.renamed = .list [.symbol "lambda", .list [.symbol "y"],
        .list [.symbol "if", .list [.symbol "set!", .symbol "y", .boolean false], .symbol "y",
          .list [.list [.symbol "lambda", .list [.symbol "y"],
            .list [.symbol "quote", .symbol "x"]], .symbol "y"]]] ∧
      context.fill r.renamed = .list [r.renamed, .boolean true] ∧ context.Evaluated ∧
      s.store.Coherent (context.fill r.original) ∧ 0 < s.store.frames.size ∧
      ∃ (w : World r) (v : Value), Alike w.pairing (.symbol "x") v ∧
        (evaluate 5 (context.fill r.renamed) 0 s).1 = .ok v := by
  let body := Value.list [.symbol "if", .list [.symbol "set!", .symbol "x", .boolean false],
    .symbol "x", .list [.list [.symbol "lambda", .list [.symbol "x"],
      .list [.symbol "quote", .symbol "x"]], .symbol "x"]]
  let r : Renaming := ⟨"x", "y", ["x"], body, by decide, by decide, rfl, by decide, by decide⟩
  let context := Context.within [] .hole [.boolean true]
  let s : State := { store := ⟨#[⟨none, []⟩], 0⟩ }
  have hempty (e : FrameId) : s.store.bindingsOf e = [] := by
    cases e <;> rfl
  have hholds (c : Closure) : c ∉ s.store.holds (context.fill r.original) := by
    rw [Store.mem_holds]
    rintro (⟨e, hc⟩ | hc)
    · rw [Store.closuresIn, hempty] at hc
      cases hc
    · cases hc
  have houter (e : FrameId) : s.store.outerOf e = none := by
    cases e <;> rfl
  have hwf : s.store.WellFormed := by
    refine ⟨fun h => ?_, fun e => ?_, fun {e c} hc => ?_⟩
    · rw [houter] at h
      cases h
    · rw [hempty]
      exact List.nodup_nil
    · exact absurd (Store.mem_holds.mpr (.inl ⟨e, hc⟩)) (hholds c)
  have hs : s.store.Coherent (context.fill r.original) :=
    ⟨hwf, fun c hc => absurd (Store.mem_holds.mpr (.inr hc)) (hholds c),
      fun c hc => absurd hc (hholds c), fun c hc => absurd hc (hholds c)⟩
  have hleft : (evaluate 5 (context.fill r.original) 0 s).1 = .ok (.symbol "x") := rfl
  have hcontext : context.Evaluated :=
    ⟨(Option.some_ne_none _).symm, (List.cons_ne_nil _ _).symm, trivial⟩
  obtain ⟨w, -, -, hdeep | ⟨d, d', herror, -⟩ | ⟨u, v, hu, hv, halike⟩⟩ :=
    rename_parameter_simulates r hcontext hs Nat.one_pos 5
  · cases hleft.symm.trans hdeep.1
  · cases hleft.symm.trans herror
  · obtain rfl := Outcome.ok.inj (hleft.symm.trans hu)
    exact ⟨r, context, s, rfl, rfl, rfl, hcontext, hs, Nat.one_pos, w, v, halike, hv⟩

end Renaming

end LexicalLisp
