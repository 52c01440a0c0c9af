import LexicalLisp.Proofs.Rename.World
import LexicalLisp.Proofs.Store.Nesting

/-!
# Frames that correspond when a parameter is renamed

The stores of the two runs match frame by frame: the outer links are equal, names correspond in
order, and the values are alike. Outside the names are equal. Inside they are renamed, the new name
does not occur in the first run, and between an inside frame and the outside lies a frame that binds
the old name. Inside, the old name is therefore never found outside, and any other name is found in
the same frame by both runs, however many names were defined on the way.
-/

namespace LexicalLisp

/-- Every parameter that is a symbol is bound in a call frame. -/
theorem mem_names_bindFormals {bindings result : Bindings} {formals arguments : List Value}
    (h : bindFormals bindings (formals.zip arguments) = .ok result)
    (hlength : arguments.length = formals.length) {n : String}
    (hn : n ∈ bindings.names ∨ .symbol n ∈ formals) : n ∈ result.names := by
  induction formals generalizing bindings arguments with
  | nil =>
    obtain rfl := Except.ok.inj h
    exact hn.resolve_right nofun
  | cons formal rest ih =>
    cases arguments with
    | nil => cases hlength
    | cons value values =>
      cases formal with
      | symbol name =>
        refine ih h (Nat.succ.inj hlength) ?_
        rw [Bindings.names_put]
        rcases hn with hn | hn
        · left
          split
          · exact hn
          · exact List.mem_append_left _ hn
        · rcases List.mem_cons.mp hn with heq | hn
          · obtain rfl := Value.symbol.inj heq
            left
            split
            · assumption
            · exact List.mem_append_right _ (List.mem_singleton.mpr rfl)
          · exact .inr hn
      | _ => cases h

/-- A parameter that is no symbol cannot be bound. -/
theorem bindFormals_of_not_symbol {formal : Value} (h : ∀ n, formal ≠ .symbol n)
    (bindings : Bindings) (value : Value) (rest : List (Value × Value)) :
    bindFormals bindings ((formal, value) :: rest) = .error (.bindNonSymbol formal) := by
  cases formal with
  | symbol n => exact absurd rfl (h n)
  | _ => rfl

namespace Renaming.World

variable {r : Renaming} {w : World r} {e : FrameId} {n : String}

/-- Different names stay different at a frame. -/
theorem nameAt_inj {m n : String} (hm : w.Allowed e m) (hn : w.Allowed e n)
    (h : w.nameAt e m = w.nameAt e n) : m = n := by
  unfold nameAt at h
  split at h
  · rename_i hinside
    exact r.renameName_inj (hm hinside) (hn hinside) h
  · exact h

variable (w) in
/-- Two bindings in this frame correspond. -/
def Binds (e : FrameId) (binding binding' : String × Value) : Prop :=
  binding'.1 = w.nameAt e binding.1 ∧ Alike w.pairing binding.2 binding'.2

/-- A name has values that are alike, or has none. -/
theorem get?_rel {bindings bindings' : Bindings}
    (h : List.Forall₂ (w.Binds e) bindings bindings')
    (hnames : ∀ m ∈ bindings.names, w.Allowed e m) (hn : w.Allowed e n) :
    Option.Rel (Alike w.pairing) (bindings.get? n) (bindings'.get? (w.nameAt e n)) := by
  induction h with
  | nil => exact .none
  | @cons binding binding' rest rest' hhead _ ih =>
    obtain ⟨key, value⟩ := binding
    obtain ⟨key', value'⟩ := binding'
    obtain ⟨rfl, halike⟩ := hhead
    obtain ⟨hkey, hrest⟩ := List.forall_mem_cons.mp hnames
    by_cases heq : key = n
    · subst heq
      simp only [Bindings.get?, if_true]
      exact .some halike
    · have hne : w.nameAt e key ≠ w.nameAt e n := fun hsame => heq (nameAt_inj hkey hn hsame)
      simp only [Bindings.get?, heq, hne, if_false]
      exact ih hrest

/-- Binding a name to values that are alike. -/
theorem put_rel {bindings bindings' : Bindings}
    (h : List.Forall₂ (w.Binds e) bindings bindings')
    (hnames : ∀ m ∈ bindings.names, w.Allowed e m) (hn : w.Allowed e n) {u v : Value}
    (huv : Alike w.pairing u v) :
    List.Forall₂ (w.Binds e) (bindings.put n u) (bindings'.put (w.nameAt e n) v) := by
  induction h with
  | nil => exact .cons ⟨rfl, huv⟩ .nil
  | @cons binding binding' rest rest' hhead hbindings ih =>
    obtain ⟨key, value⟩ := binding
    obtain ⟨key', value'⟩ := binding'
    obtain ⟨rfl, halike⟩ := hhead
    obtain ⟨hkey, hrest⟩ := List.forall_mem_cons.mp hnames
    by_cases heq : key = n
    · subst heq
      simp only [Bindings.put, if_true]
      exact .cons ⟨rfl, huv⟩ hbindings
    · have hne : w.nameAt e key ≠ w.nameAt e n := fun hsame => heq (nameAt_inj hkey hn hsame)
      simp only [Bindings.put, heq, hne, if_false]
      exact .cons ⟨rfl, halike⟩ (ih hrest)

/-- Binding an allowed name leaves only allowed names. -/
theorem allowed_put {bindings : Bindings} (hnames : ∀ m ∈ bindings.names, w.Allowed e m)
    (hn : w.Allowed e n) (u : Value) : ∀ m ∈ (bindings.put n u).names, w.Allowed e m := by
  intro m hm
  rw [Bindings.names_put] at hm
  split at hm
  · exact hnames m hm
  · rcases List.mem_append.mp hm with hm | hm
    · exact hnames m hm
    · exact List.mem_singleton.mp hm ▸ hn

variable (w) in
/-- The parameter that stands for a parameter in this frame. -/
def formalAt (e : FrameId) (formal : Value) : Value :=
  if w.inside e then formal.rename r.old r.new else formal

/-- A symbol stands for a symbol. -/
theorem formalAt_symbol (e : FrameId) (n : String) :
    w.formalAt e (.symbol n) = .symbol (w.nameAt e n) := by
  unfold formalAt nameAt
  split <;> rfl

/-- Only a symbol stands for a symbol. -/
theorem formalAt_ne_symbol {formal : Value} (h : ∀ n, formal ≠ .symbol n) (m : String) :
    w.formalAt e formal ≠ .symbol m := by
  unfold formalAt
  split
  · cases formal with
    | symbol n => exact absurd rfl (h n)
    | list items =>
      obtain ⟨renamed, heq⟩ := Value.exists_rename_list r.old r.new items
      rw [heq]
      exact nofun
    | _ => exact nofun
  · exact h m

/-- Parameters are bound to arguments that are alike, or both runs fail on the same one. -/
theorem bindFormals_rel {bindings bindings' : Bindings} {formals us vs : List Value}
    (h : List.Forall₂ (w.Binds e) bindings bindings')
    (hnames : ∀ m ∈ bindings.names, w.Allowed e m)
    (habsent : w.inside e = true → ∀ formal ∈ formals, formal.mentions r.new = false)
    (harguments : List.Forall₂ (Alike w.pairing) us vs) :
    (∃ result result', bindFormals bindings (formals.zip us) = .ok result ∧
        bindFormals bindings' ((formals.map (w.formalAt e)).zip vs) = .ok result' ∧
        List.Forall₂ (w.Binds e) result result' ∧ ∀ m ∈ result.names, w.Allowed e m) ∨
      ∃ d d' : Error, bindFormals bindings (formals.zip us) = .error d ∧
        bindFormals bindings' ((formals.map (w.formalAt e)).zip vs) = .error d' ∧
        d.kind = d'.kind := by
  induction formals generalizing bindings bindings' us vs with
  | nil => exact .inl ⟨bindings, bindings', rfl, rfl, h, hnames⟩
  | cons formal rest ih =>
    cases harguments with
    | nil => exact .inl ⟨bindings, bindings', rfl, rfl, h, hnames⟩
    | @cons u v us vs huv hrest =>
      rw [List.map_cons, List.zip_cons_cons, List.zip_cons_cons]
      by_cases hsymbol : ∃ m, formal = .symbol m
      · obtain ⟨m, rfl⟩ := hsymbol
        have hm : w.Allowed e m := by
          rintro hinside rfl
          have hmentions := habsent hinside _ List.mem_cons_self
          simp [Value.mentions] at hmentions
        rw [formalAt_symbol]
        exact ih (put_rel h hnames hm huv) (allowed_put hnames hm u)
          (fun hinside formal hformal => habsent hinside formal (List.mem_cons_of_mem _ hformal))
          hrest
      · rw [not_exists] at hsymbol
        exact .inr ⟨_, _, bindFormals_of_not_symbol hsymbol _ _ _,
          bindFormals_of_not_symbol (formalAt_ne_symbol hsymbol) _ _ _, rfl⟩

variable (w) in
/-- The stores of the two runs match. -/
structure Match (s s' : Store) : Prop where
  size_left : s.frames.size = w.size
  size_right : s'.frames.size = w.size
  tag_eq : s'.nextTag = s.nextTag
  unused : ∀ t : Nat, s.nextTag ≤ t → w.pairing t = none
  outer_eq : ∀ e, s'.outerOf e = s.outerOf e
  outer_lt : ∀ {e o : Nat}, s.outerOf e = some o → o < e
  bindings : ∀ e, List.Forall₂ (w.Binds e) (s.bindingsOf e) (s'.bindingsOf e)
  allowed : ∀ e, ∀ n ∈ (s.bindingsOf e).names, w.Allowed e n
  /-- A frame that is inside binds the old name, or the frame around it is inside. -/
  anchored : ∀ e < w.size, w.inside e = true →
    r.old ∈ (s.bindingsOf e).names ∨ ∃ o, s.outerOf e = some o ∧ w.inside o = true
  outside : ∀ {e o : FrameId}, s.outerOf e = some o → w.inside e = false → w.inside o = false

namespace Match

variable {s s' : Store} (h : w.Match s s')

include h

/-- A name that is not bound in a frame means the same in the frame around it. -/
theorem nameAt_outer {o : FrameId} (houter : s.outerOf e = some o) (hn : w.Allowed e n)
    (hget : s.get? e n = none) : w.nameAt o n = w.nameAt e n ∧ w.Allowed o n := by
  cases he : w.inside e with
  | true =>
    cases ho : w.inside o with
    | true =>
      unfold nameAt Allowed
      rw [he, ho]
      exact ⟨rfl, fun _ => hn he⟩
    | false =>
      -- On the way out the old name is bound, so a name that is not found is a different one.
      have hlt : e < w.size := h.size_left ▸ Store.lt_size_of_outerOf houter
      have hold : r.old ∈ (s.bindingsOf e).names := by
        refine (h.anchored e hlt he).resolve_right ?_
        rintro ⟨o', houter', ho'⟩
        obtain rfl := Option.some.inj (houter.symm.trans houter')
        rw [ho] at ho'
        cases ho'
      have hne : n ≠ r.old := by
        rintro rfl
        rw [← Bindings.isSome_get?] at hold
        rw [Store.get?] at hget
        rw [hget] at hold
        cases hold
      unfold nameAt Allowed
      rw [he, ho]
      exact ⟨(if_neg hne).symm, nofun⟩
  | false =>
    have ho := h.outside houter he
    unfold nameAt Allowed
    rw [he, ho]
    exact ⟨rfl, nofun⟩

/-- Frames of the second run are nested as well. -/
theorem outer_lt_right {e o : Nat} (houter : s'.outerOf e = some o) : o < e :=
  h.outer_lt (h.outer_eq e ▸ houter)

/-- A name is seen with values that are alike, or by neither run. -/
theorem lookup?_rel (he : e < w.size) (hn : w.Allowed e n) :
    Option.Rel (Alike w.pairing) (s.lookup? e n) (s'.lookup? e (w.nameAt e n)) := by
  -- Outer links lead to earlier frames, so the induction is on the frame.
  induction e using Nat.strongRecOn with
  | ind e ih =>
    rw [Store.lookup?_eq h.outer_lt (h.size_left ▸ he),
      Store.lookup?_eq h.outer_lt_right (h.size_right ▸ he), h.outer_eq]
    have hget := get?_rel (h.bindings e) (h.allowed e) hn
    change Option.Rel _ (s.get? e n) (s'.get? e (w.nameAt e n)) at hget
    generalize hleft : s.get? e n = left at hget
    generalize s'.get? e (w.nameAt e n) = right at hget
    cases hget with
    | some halike => exact .some halike
    | none =>
      cases houter : s.outerOf e with
      | none => exact .none
      | some o =>
        have ho := h.outer_lt houter
        obtain ⟨hname, hallowed⟩ := h.nameAt_outer houter hn hleft
        have hrest := ih o ho (Nat.lt_trans ho he) hallowed
        rwa [hname] at hrest

/-- A name is bound in the same frame in both runs, and means there what it means here. -/
theorem find?_eq (he : e < w.size) (hn : w.Allowed e n) :
    s'.find? e (w.nameAt e n) = s.find? e n ∧
      ∀ g, s.find? e n = some g → w.nameAt g n = w.nameAt e n ∧ w.Allowed g n := by
  induction e using Nat.strongRecOn with
  | ind e ih =>
    rw [Store.find?_eq h.outer_lt (h.size_left ▸ he),
      Store.find?_eq h.outer_lt_right (h.size_right ▸ he), h.outer_eq, Store.binds, Store.binds]
    have hget := get?_rel (h.bindings e) (h.allowed e) hn
    change Option.Rel _ (s.get? e n) (s'.get? e (w.nameAt e n)) at hget
    generalize hleft : s.get? e n = left at hget
    generalize s'.get? e (w.nameAt e n) = right at hget
    cases hget with
    | some halike =>
      refine ⟨rfl, fun g hg => ?_⟩
      obtain rfl := Option.some.inj hg
      exact ⟨rfl, hn⟩
    | none =>
      cases houter : s.outerOf e with
      | none => exact ⟨rfl, nofun⟩
      | some o =>
        have ho := h.outer_lt houter
        obtain ⟨hname, hallowed⟩ := h.nameAt_outer houter hn hleft
        obtain ⟨hfind, hfound⟩ := ih o ho (Nat.lt_trans ho he) hallowed
        rw [hname] at hfind
        exact ⟨hfind, fun g hg => hname ▸ hfound g hg⟩

/-- Binding a name in the same frame of both stores, to values that are alike. -/
theorem put {g : FrameId} (hn : w.Allowed g n) {u v : Value} (huv : Alike w.pairing u v) :
    w.Match (s.put g n u) (s'.put g (w.nameAt g n) v) where
  size_left := (Store.size_put s g n u).trans h.size_left
  size_right := (Store.size_put s' g _ v).trans h.size_right
  tag_eq := h.tag_eq
  unused := h.unused
  outer_eq e := by rw [Store.outerOf_put, Store.outerOf_put, h.outer_eq]
  outer_lt houter := h.outer_lt (Store.outerOf_put s g _ n u ▸ houter)
  bindings e := by
    rw [Store.bindingsOf_put, Store.bindingsOf_put, h.size_left, h.size_right]
    split
    · rename_i heq
      obtain ⟨rfl, -⟩ := heq
      exact put_rel (h.bindings e) (h.allowed e) hn huv
    · exact h.bindings e
  allowed e := by
    rw [Store.bindingsOf_put]
    split
    · rename_i heq
      obtain ⟨rfl, -⟩ := heq
      exact allowed_put (h.allowed e) hn u
    · exact h.allowed e
  anchored e he hinside := by
    rw [Store.outerOf_put]
    refine (h.anchored e he hinside).imp_left fun hold => ?_
    rw [Store.bindingsOf_put]
    split
    · exact (Bindings.names_prefix_put _ n u).subset hold
    · exact hold
  outside houter := h.outside (Store.outerOf_put s g _ n u ▸ houter)

/-- Adding a frame to both stores. -/
theorem push {i : Bool} {f : FrameId} (hf : f < w.size) {bindings bindings' : Bindings}
    (hbindings : List.Forall₂ ((w.opened i).Binds w.size) bindings bindings')
    (hallowed : ∀ n ∈ bindings.names, (w.opened i).Allowed w.size n)
    (hanchored : i = true → r.old ∈ bindings.names ∨ w.inside f = true)
    (houtside : i = false → w.inside f = false) :
    (w.opened i).Match (s.push ⟨some f, bindings⟩) (s'.push ⟨some f, bindings'⟩) := by
  have hsame {e : FrameId} (he : e ≠ w.size) : (w.opened i).inside e = w.inside e := if_neg he
  have hinner {e o : FrameId} (he : e ≠ w.size) (houter : s.outerOf e = some o) :
      (w.opened i).inside o = w.inside o := by
    have hlt := h.size_left ▸ Store.lt_size_of_outerOf houter
    exact hsame (Nat.ne_of_lt (Nat.lt_trans (h.outer_lt houter) hlt))
  refine ⟨?_, ?_, h.tag_eq, h.unused, fun e => ?_, fun {e o} houter => ?_, fun e => ?_, fun e => ?_,
    fun e he hinside => ?_, fun {e o} houter hinside => ?_⟩
  · rw [Store.size_push, h.size_left]
    rfl
  · rw [Store.size_push, h.size_right]
    rfl
  · rw [Store.outerOf_push, Store.outerOf_push, h.size_left, h.size_right, h.outer_eq]
  · rw [Store.outerOf_push, h.size_left] at houter
    split at houter
    · rename_i heq
      exact heq ▸ Option.some.inj houter ▸ hf
    · exact h.outer_lt houter
  · rw [Store.bindingsOf_push, Store.bindingsOf_push, h.size_left, h.size_right]
    by_cases he : e = w.size
    · rw [if_pos he, if_pos he, he]
      exact hbindings
    · rw [if_neg he, if_neg he]
      refine (h.bindings e).imp fun binding binding' hbinds => ?_
      unfold Binds nameAt at hbinds ⊢
      rwa [hsame he]
  · rw [Store.bindingsOf_push, h.size_left]
    by_cases he : e = w.size
    · rw [if_pos he, he]
      exact hallowed
    · rw [if_neg he]
      unfold Allowed
      rw [hsame he]
      exact h.allowed e
  · rw [Store.bindingsOf_push, Store.outerOf_push, h.size_left]
    by_cases heq : e = w.size
    · rw [if_pos heq, if_pos heq]
      have hi : i = true := (if_pos heq).symm.trans hinside
      exact (hanchored hi).imp_right fun hf' => ⟨f, rfl, (hsame (Nat.ne_of_lt hf)).trans hf'⟩
    · rw [if_neg heq, if_neg heq]
      have hlt : e < w.size := Nat.lt_of_le_of_ne (Nat.le_of_lt_succ he) heq
      refine (h.anchored e hlt ((hsame heq).symm.trans hinside)).imp_right ?_
      rintro ⟨o, houter, ho⟩
      exact ⟨o, houter, (hinner heq houter).trans ho⟩
  · rw [Store.outerOf_push, h.size_left] at houter
    by_cases heq : e = w.size
    · rw [if_pos heq] at houter
      obtain rfl := Option.some.inj houter
      have hi : i = false := (if_pos heq).symm.trans hinside
      exact (hsame (Nat.ne_of_lt hf)).trans (houtside hi)
    · rw [if_neg heq] at houter
      exact (hinner heq houter).trans (h.outside houter ((hsame heq).symm.trans hinside))

/-- Using up a tag in both stores. -/
theorem tag : w.Match { s with nextTag := s.nextTag + 1 } { s' with nextTag := s'.nextTag + 1 } :=
  ⟨h.size_left, h.size_right, congrArg (· + 1) h.tag_eq,
    fun t ht => h.unused t (Nat.le_of_succ_le ht), h.outer_eq, h.outer_lt, h.bindings, h.allowed,
    h.anchored, h.outside⟩

/-- Making closures that belong together, with the tag that is used up for them. -/
theorem made {c c' : Closure} (pair : r.Pair w.inside w.pairing c c') (htag : c.tag = s.nextTag)
    (unused : w.pairing c.tag = none) (tag_eq : c'.tag = c.tag) (frame_lt : c.frame < w.size) :
    (w.made pair unused tag_eq frame_lt).Match { s with nextTag := s.nextTag + 1 }
      { s' with nextTag := s'.nextTag + 1 } := by
  refine ⟨h.size_left, h.size_right, congrArg (· + 1) h.tag_eq, fun t ht => ?_, h.outer_eq,
    h.outer_lt, fun e => ?_, h.allowed, h.anchored, h.outside⟩
  · have hne : t ≠ c.tag := htag ▸ Nat.ne_of_gt ht
    exact (if_neg hne).trans (h.unused t (Nat.le_of_succ_le ht))
  · exact (h.bindings e).imp fun _ _ hbinds =>
      ⟨hbinds.1, Pairing.alike_mono (Pairing.le_add unused c') _ hbinds.2⟩

end Match

end Renaming.World

end LexicalLisp
