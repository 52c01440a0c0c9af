import LexicalLisp.Proofs.Rename.Syntax
import Mathlib.Order.Basic
import Mathlib.Order.Nat

/-!
# What corresponds when a parameter is renamed

Two runs evaluate expressions that differ in a lambda form and its renaming. A frame is inside if it
was opened by calling a closure made from this form, or by calling a closure that was made inside.
Code that runs inside is renamed throughout. Outside, the code of the two runs differs in places
where the form itself stands.

Closures of the two runs belong together by their tags. They are equal, or one was made where the
other was, from code that corresponds. Other values are alike if they are equal up to the closures
within them. A world says which frames are inside and which closures belong together; both are
settled once for all when the frame or closure is made.
-/

namespace LexicalLisp

namespace Renaming

/-- The closures of the two runs that belong together, by tag. -/
abbrev Pairing := Nat → Option (Closure × Closure)

/-- Every closure within the value is the same in both runs. -/
def Pairing.Constant (pairing : Pairing) (v : Value) : Prop :=
  ∀ c ∈ v.closures, pairing c.tag = some (c, c)

/-- Two values are equal but for closures, and those belong together. -/
inductive Alike (pairing : Pairing) : Value → Value → Prop where
  | number (n : Number) : Alike pairing (.number n) (.number n)
  | boolean (b : Bool) : Alike pairing (.boolean b) (.boolean b)
  | symbol (n : String) : Alike pairing (.symbol n) (.symbol n)
  | foreign (f : Foreign) : Alike pairing (.foreign f) (.foreign f)
  | list {us vs : List Value} (each : List.Forall₂ (Alike pairing) us vs) :
      Alike pairing (.list us) (.list vs)
  | closure {t t' : Nat} {fs fs' : List Value} {b b' : Value} {f f' : FrameId}
      (paired : pairing t = some (⟨t, fs, b, f⟩, ⟨t', fs', b', f'⟩)) :
      Alike pairing (.closure t fs b f) (.closure t' fs' b' f')

/-- How two closures that belong together are related. -/
inductive Pair (r : Renaming) (inside : FrameId → Bool) (pairing : Pairing) :
    Closure → Closure → Prop where
  /-- Made outside, with the same parameters: the bodies may differ where the form stands. -/
  | outside {t : Nat} {fs : List Value} {b b' : Value} {f : FrameId} (frame : inside f = false)
      (constant : pairing.Constant b) (body : r.Exchange b b') :
      Pair r inside pairing ⟨t, fs, b, f⟩ ⟨t, fs, b', f⟩
  /-- Made from the form and its renaming. -/
  | form {t : Nat} {f : FrameId} (frame : inside f = false) (constant : pairing.Constant r.body) :
      Pair r inside pairing ⟨t, r.parameters.map .symbol, r.body, f⟩
        ⟨t, Value.renameEach r.old r.new (r.parameters.map .symbol), r.body.rename r.old r.new, f⟩
  /-- Made inside: everything is renamed. -/
  | nested {t : Nat} {fs : List Value} {b : Value} {f : FrameId} (frame : inside f = true)
      (constant : pairing.Constant b) (formals_absent : Value.mentionsEach r.new fs = false)
      (body_absent : b.mentions r.new = false) :
      Pair r inside pairing ⟨t, fs, b, f⟩
        ⟨t, Value.renameEach r.old r.new fs, b.rename r.old r.new, f⟩

/-- The frames there are, those of them that are inside, and the closures that belong together. -/
structure World (r : Renaming) where
  size : Nat
  inside : FrameId → Bool
  pairing : Pairing
  valid : ∀ {t : Nat} {c c' : Closure}, pairing t = some (c, c') →
    c.tag = t ∧ c'.tag = t ∧ c.frame < size ∧ r.Pair inside pairing c c'

variable {r : Renaming}

/-- One world continues another: what was settled stays so. -/
instance : Preorder (World r) where
  le w w' := w.size ≤ w'.size ∧ (∀ e < w.size, w'.inside e = w.inside e) ∧
    ∀ t p, w.pairing t = some p → w'.pairing t = some p
  le_refl _ := ⟨Nat.le_refl _, fun _ _ => rfl, fun _ _ h => h⟩
  le_trans _ _ _ h h' := ⟨Nat.le_trans h.1 h'.1,
    fun e he => (h'.2.1 e (Nat.lt_of_lt_of_le he h.1)).trans (h.2.1 e he),
    fun t p hp => h'.2.2 t p (h.2.2 t p hp)⟩

namespace Pairing

variable {pairing pairing' : Pairing}

/-- The pairing with one more pair of closures. -/
def add (pairing : Pairing) (c c' : Closure) : Pairing :=
  fun t => if t = c.tag then some (c, c') else pairing t

/-- A pair with an unused tag leaves the other pairs as they are. -/
theorem le_add {c : Closure} (h : pairing c.tag = none) (c' : Closure) :
    ∀ t p, pairing t = some p → pairing.add c c' t = some p := by
  intro t p hp
  have hne : t ≠ c.tag := by
    rintro rfl
    rw [h] at hp
    cases hp
  exact (if_neg hne).trans hp

/-- The closures within a part are the same in both runs if those within the whole are. -/
theorem Constant.of_mem {v : Value} {items : List Value} (h : pairing.Constant (.list items))
    (hv : v ∈ items) : pairing.Constant v :=
  fun c hc => h c (Value.mem_closures_list hv hc)

/-- Closures that are the same in both runs stay so. -/
theorem Constant.mono (hle : ∀ t p, pairing t = some p → pairing' t = some p) {v : Value}
    (h : pairing.Constant v) : pairing'.Constant v :=
  fun c hc => hle _ _ (h c hc)

mutual

/-- A value all of whose closures are the same in both runs is like itself. -/
theorem Constant.alike (v : Value) (h : pairing.Constant v) : Alike pairing v v := by
  match v with
  | .number n => exact .number n
  | .boolean b => exact .boolean b
  | .symbol n => exact .symbol n
  | .foreign f => exact .foreign f
  | .list items => exact .list (Constant.alikeEach items h)
  | .closure t fs b f => exact .closure (h _ List.mem_cons_self)

/-- Values all of whose closures are the same in both runs are like themselves. -/
theorem Constant.alikeEach (items : List Value) (h : pairing.Constant (.list items)) :
    List.Forall₂ (Alike pairing) items items := by
  match items with
  | [] => exact .nil
  | v :: rest =>
    exact .cons (Constant.alike v (h.of_mem List.mem_cons_self))
      (Constant.alikeEach rest fun c hc => h c (List.mem_append_right _ hc))

end

mutual

/-- Values that are alike stay so. -/
theorem alike_mono (hle : ∀ t p, pairing t = some p → pairing' t = some p) (u : Value) {v : Value}
    (h : Alike pairing u v) : Alike pairing' u v := by
  match u, h with
  | _, .number n => exact .number n
  | _, .boolean b => exact .boolean b
  | _, .symbol n => exact .symbol n
  | _, .foreign f => exact .foreign f
  | .list us, .list each => exact .list (alikeEach_mono hle us each)
  | _, .closure paired => exact .closure (hle _ _ paired)

/-- Values that are alike one by one stay so. -/
theorem alikeEach_mono (hle : ∀ t p, pairing t = some p → pairing' t = some p) (us : List Value)
    {vs : List Value} (h : List.Forall₂ (Alike pairing) us vs) :
    List.Forall₂ (Alike pairing') us vs := by
  match us, h with
  | [], .nil => exact .nil
  | u :: us, .cons head rest => exact .cons (alike_mono hle u head) (alikeEach_mono hle us rest)

end

end Pairing

/-- Related closures stay related, as long as it does not change where they were made. -/
theorem Pair.mono {inside inside' : FrameId → Bool} {pairing pairing' : Pairing} {c c' : Closure}
    (h : r.Pair inside pairing c c') (hframe : inside' c.frame = inside c.frame)
    (hle : ∀ t p, pairing t = some p → pairing' t = some p) : r.Pair inside' pairing' c c' := by
  cases h with
  | outside frame constant body => exact .outside (hframe.trans frame) (constant.mono hle) body
  | form frame constant => exact .form (hframe.trans frame) (constant.mono hle)
  | nested frame constant formals_absent body_absent =>
    exact .nested (hframe.trans frame) (constant.mono hle) formals_absent body_absent

/-- Numbers, closures and the boolean false have counterparts of their own sort. -/
theorem Alike.sort {pairing : Pairing} {u v : Value} (h : Alike pairing u v) :
    u.number? = v.number? ∧ u.isClosure = v.isClosure ∧ u.isFalse = v.isFalse := by
  cases h <;> exact ⟨rfl, rfl, rfl⟩

namespace World

variable (w : World r)

/-- A frame is added, inside or not. -/
def opened (i : Bool) : World r where
  size := w.size + 1
  inside e := if e = w.size then i else w.inside e
  pairing := w.pairing
  valid h := by
    obtain ⟨htag, htag', hframe, hpair⟩ := w.valid h
    exact ⟨htag, htag', Nat.lt_succ_of_lt hframe,
      hpair.mono (if_neg (Nat.ne_of_lt hframe)) fun _ _ h => h⟩

/-- A new frame continues a world. -/
theorem le_opened (i : Bool) : w ≤ w.opened i :=
  ⟨Nat.le_succ _, fun _ he => if_neg (Nat.ne_of_lt he), fun _ _ h => h⟩

/-- Two closures are made that belong together. -/
def made {c c' : Closure} (pair : r.Pair w.inside w.pairing c c')
    (unused : w.pairing c.tag = none) (tag_eq : c'.tag = c.tag) (frame_lt : c.frame < w.size) :
    World r where
  size := w.size
  inside := w.inside
  pairing := w.pairing.add c c'
  valid := by
    intro t d d' h
    unfold Pairing.add at h
    split at h
    · obtain ⟨rfl, rfl⟩ := Prod.mk.inj (Option.some.inj h)
      rename_i ht
      exact ⟨ht.symm, tag_eq.trans ht.symm, frame_lt, pair.mono rfl (Pairing.le_add unused c')⟩
    · obtain ⟨htag, htag', hframe, hpair⟩ := w.valid h
      exact ⟨htag, htag', hframe, hpair.mono rfl (Pairing.le_add unused c')⟩

/-- New closures continue a world. -/
theorem le_made {c c' : Closure} (pair : r.Pair w.inside w.pairing c c')
    (unused : w.pairing c.tag = none) (tag_eq : c'.tag = c.tag) (frame_lt : c.frame < w.size) :
    w ≤ w.made pair unused tag_eq frame_lt :=
  ⟨Nat.le_refl _, fun _ _ => rfl, Pairing.le_add unused c'⟩

mutual

/-- Values that are alike are equal to the same values. -/
theorem same_eq (u : Value) {v u' v' : Value} (h : Alike w.pairing u v)
    (h' : Alike w.pairing u' v') : u.same u' = v.same v' := by
  match u, h with
  | .list us, .list each =>
    cases h' with
    | list each' => exact sameItems_eq us each each'
    | _ => rfl
  | .closure t fs b f, @Alike.closure _ _ t' _ fs' _ b' _ f' paired =>
    cases h' with
    | @closure s s' gs gs' d d' g g' paired' =>
      obtain ⟨-, htag, -⟩ := w.valid paired
      obtain ⟨-, htag', -⟩ := w.valid paired'
      -- Counterparts share their tag, and a tag determines both members of a pair.
      have hiff : Value.closure t fs b f = .closure s gs d g ↔
          Value.closure t' fs' b' f' = .closure s' gs' d' g' := by
        constructor
        · intro heq
          cases heq
          cases paired.symm.trans paired'
          rfl
        · intro heq
          cases heq
          cases htag.symm.trans htag'
          cases paired.symm.trans paired'
          rfl
      rw [← Value.identical_iff, ← Value.identical_iff] at hiff
      exact Bool.eq_iff_iff.mpr hiff
    | _ => rfl
  | _, .number _ | _, .boolean _ | _, .symbol _ | _, .foreign _ => cases h' <;> rfl

/-- Values that are alike one by one are equal to the same values. -/
theorem sameItems_eq (us : List Value) {vs us' vs' : List Value}
    (h : List.Forall₂ (Alike w.pairing) us vs) (h' : List.Forall₂ (Alike w.pairing) us' vs') :
    Value.sameItems us us' = Value.sameItems vs vs' := by
  match us, h, h' with
  | [], .nil, .nil => rfl
  | [], .nil, .cons _ _ => rfl
  | _ :: _, .cons _ _, .nil => rfl
  | u :: us, .cons head rest, .cons head' rest' =>
    rw [Value.sameItems, Value.sameItems, same_eq u head head', sameItems_eq us rest rest']

end

/-- The name that stands for a name in this frame. -/
def nameAt (e : FrameId) (name : String) : String :=
  if w.inside e then renameName r.old r.new name else name

/-- The new name is not used inside. -/
def Allowed (e : FrameId) (name : String) : Prop :=
  w.inside e = true → name ≠ r.new

/-- Expressions that correspond where they are evaluated in this frame. -/
structure Code (e : FrameId) (x y : Value) : Prop where
  frame_lt : e < w.size
  constant : w.pairing.Constant x
  exchanged : w.inside e = false → r.Exchange x y
  absent : w.inside e = true → x.mentions r.new = false
  renamed : w.inside e = true → y = x.rename r.old r.new

namespace Code

variable {w} {e : FrameId} {x y : Value}

/-- Expressions that correspond stay so. -/
theorem mono {w' : World r} (hle : w ≤ w') (h : w.Code e x y) : w'.Code e x y := by
  have hinside := hle.2.1 e h.frame_lt
  exact ⟨Nat.lt_of_lt_of_le h.frame_lt hle.1, h.constant.mono hle.2.2,
    fun hw => h.exchanged (hinside ▸ hw), fun hw => h.absent (hinside ▸ hw),
    fun hw => h.renamed (hinside ▸ hw)⟩

/-- The counterpart of a symbol is the symbol that stands for it. -/
theorem symbol {n : String} (h : w.Code e (.symbol n) y) :
    y = .symbol (w.nameAt e n) ∧ w.Allowed e n := by
  unfold nameAt Allowed
  cases hinside : w.inside e with
  | true =>
    refine ⟨(h.renamed hinside).trans rfl, fun _ heq => ?_⟩
    have habsent := h.absent hinside
    simp [Value.mentions, heq] at habsent
  | false =>
    refine ⟨?_, nofun⟩
    rcases (h.exchanged hinside).eq_or_lists with heq | ⟨_, _, heq, -⟩
    · exact heq.symm
    · cases heq

/-- Values other than lists and symbols are their own counterparts, and lists have lists. -/
theorem shape (h : w.Code e x y) :
    (∃ n, x = .symbol n ∧ y = .symbol (w.nameAt e n)) ∨
      (∃ us vs, x = .list us ∧ y = .list vs) ∨
      (y = x ∧ (∀ n, x ≠ .symbol n) ∧ ∀ us, x ≠ .list us) := by
  have hlists {us : List Value} (hx : x = .list us) : ∃ vs, y = .list vs := by
    subst hx
    cases hinside : w.inside e with
    | true =>
      rw [h.renamed hinside]
      exact Value.exists_rename_list r.old r.new us
    | false =>
      rcases (h.exchanged hinside).eq_or_lists with heq | ⟨_, vs, -, hy⟩
      · exact ⟨us, heq.symm⟩
      · exact ⟨vs, hy⟩
  have hother (hx : ∀ us, x ≠ .list us) (hrename : x.rename r.old r.new = x) : y = x := by
    cases hinside : w.inside e with
    | true => exact (h.renamed hinside).trans hrename
    | false =>
      rcases (h.exchanged hinside).eq_or_lists with heq | ⟨us, _, heq, -⟩
      · exact heq.symm
      · exact absurd heq (hx us)
  cases x with
  | symbol n => exact .inl ⟨n, rfl, h.symbol.1⟩
  | list us =>
    obtain ⟨vs, hy⟩ := hlists rfl
    exact .inr (.inl ⟨us, vs, rfl, hy⟩)
  | number | boolean | closure | foreign => exact .inr (.inr ⟨hother nofun rfl, nofun, nofun⟩)

/-- Numbers, booleans, closures and foreign values are their own counterparts. -/
theorem literal (h : w.Code e x y) (hsymbol : ∀ n, x ≠ .symbol n) (hlist : ∀ us, x ≠ .list us) :
    y = x := by
  rcases h.shape with ⟨n, hx, -⟩ | ⟨us, _, hx, -⟩ | ⟨hsame, -⟩
  · exact absurd hx (hsymbol n)
  · exact absurd hx (hlist us)
  · exact hsame

/-- The empty list is its own counterpart. -/
theorem empty (h : w.Code e (.list []) y) : y = .list [] := by
  cases hinside : w.inside e with
  | true => exact h.renamed hinside
  | false =>
    generalize hempty : Value.list [] = x at h
    cases h.exchanged hinside with
    | same => rfl
    | lambda => cases hempty
    | @within before => cases before <;> cases hempty

/-- The counterpart of a list that is neither a quotation nor a lambda form is made of the
counterparts of its items. -/
theorem list {u : Value} {xs : List Value} (h : w.Code e (.list (u :: xs)) y)
    (hquote : u ≠ .symbol Form.quote.name) (hlambda : u ≠ .symbol Form.lambda.name) :
    ∃ v ys, y = .list (v :: ys) ∧ w.Code e u v ∧ List.Forall₂ (w.Code e) xs ys := by
  have hpart (i : Bool) (hi : w.inside e = i) {a b : Value} (ha : a ∈ u :: xs)
      (hout : i = false → r.Exchange a b)
      (hin : i = true → b = a.rename r.old r.new) : w.Code e a b := by
    subst hi
    refine ⟨h.frame_lt, h.constant.of_mem ha, hout, fun hinside => ?_, hin⟩
    exact Value.mentionsEach_eq_false.mp (h.absent hinside) a ha
  cases hinside : w.inside e with
  | true =>
    refine ⟨_, _, (h.renamed hinside).trans (Value.rename_list hquote hlambda),
      hpart true hinside List.mem_cons_self nofun fun _ => rfl, ?_⟩
    rw [Value.renameEach_eq_map, List.forall₂_map_right_iff]
    exact List.forall₂_same.mpr fun a ha =>
      hpart true hinside (List.mem_cons_of_mem _ ha) nofun fun _ => rfl
  | false =>
    rcases (h.exchanged hinside).list_cases with ⟨horiginal, -⟩ | ⟨v, ys, hy, hu, hxs, -, -⟩
    · exact absurd (List.cons.inj (Value.list.inj horiginal)).1 hlambda
    · refine ⟨v, ys, hy, hpart false hinside List.mem_cons_self (fun _ => hu) nofun, ?_⟩
      refine List.forall₂_iff_get.mpr ⟨hxs.length_eq, fun i hi hi' => ?_⟩
      exact hpart false hinside (List.mem_cons_of_mem _ (List.get_mem xs _))
        (fun _ => hxs.get hi hi') nofun

/-- A quotation is its own counterpart. -/
theorem quote {xs : List Value} (h : w.Code e (.list (.symbol Form.quote.name :: xs)) y) :
    y = .list (.symbol Form.quote.name :: xs) := by
  cases hinside : w.inside e with
  | true => exact (h.renamed hinside).trans (Value.rename_quote _ _ _)
  | false =>
    rcases (h.exchanged hinside).list_cases with ⟨horiginal, -⟩ | ⟨v, ys, hy, hu, -, hsame, -⟩
    · exact absurd (Value.symbol.inj (List.cons.inj (Value.list.inj horiginal)).1) (by decide)
    · rcases hu.eq_or_lists with heq | ⟨_, _, heq, -⟩
      · rw [hy, ← heq, hsame rfl]
      · cases heq

/-- The counterpart of a lambda form is one. Either both have a list of parameters and a body, and
make closures that belong together, or both are malformed in the same way. -/
theorem lambda {xs : List Value} (h : w.Code e (.list (.symbol Form.lambda.name :: xs)) y) :
    ∃ ys, y = .list (.symbol Form.lambda.name :: ys) ∧
      ((∃ fs b fs' b', xs = [.list fs, b] ∧ ys = [.list fs', b'] ∧
          ∀ t, r.Pair w.inside w.pairing ⟨t, fs, b, e⟩ ⟨t, fs', b', e⟩) ∨
        ((∀ fs b, xs ≠ [.list fs, b]) ∧ (∀ fs b, ys ≠ [.list fs, b]) ∧
          xs.length = ys.length)) := by
  have hconstant : ∀ x ∈ xs, w.pairing.Constant x :=
    fun x hx => h.constant.of_mem (List.mem_cons_of_mem _ hx)
  cases hinside : w.inside e with
  | true =>
    have habsent := Value.mentionsEach_eq_false.mp (h.absent hinside)
    refine ⟨_, (h.renamed hinside).trans (Value.rename_lambda _ _ xs), ?_⟩
    by_cases hparts : ∃ fs b, xs = [.list fs, b]
    · obtain ⟨fs, b, rfl⟩ := hparts
      refine .inl ⟨fs, b, _, _, rfl, rfl, fun t => .nested hinside (hconstant b (by simp)) ?_ ?_⟩
      · exact habsent (.list fs) (by simp)
      · exact habsent b (by simp)
    · refine .inr ⟨fun fs b heq => hparts ⟨fs, b, heq⟩, fun fs b heq => ?_, ?_⟩
      · exact hparts (Value.exists_of_renameLambda heq)
      · exact (Value.length_renameLambda _ _ xs).symm
  | false =>
    rcases (h.exchanged hinside).list_cases with ⟨horiginal, hy⟩ | ⟨v, ys, hy, hu, hxs, -, hfirst⟩
    · have hparts := (List.cons.inj (Value.list.inj horiginal)).2
      refine ⟨_, hy.trans r.renamed_eq, .inl ⟨_, _, _, _, hparts, rfl, fun t => .form hinside ?_⟩⟩
      exact hconstant r.body (by simp [hparts])
    -- The form stands in another lambda form, and not among its parameters.
    · have hv : v = .symbol Form.lambda.name := by
        rcases hu.eq_or_lists with heq | ⟨_, _, heq, -⟩
        · exact heq.symm
        · cases heq
      refine ⟨ys, hv ▸ hy, ?_⟩
      by_cases hparts : ∃ fs b, xs = [.list fs, b]
      · obtain ⟨fs, b, rfl⟩ := hparts
        match ys, hxs, hfirst rfl with
        | [p, b'], .cons _ (.cons hb .nil), hsame =>
          obtain rfl := Option.some.inj hsame
          exact .inl ⟨fs, b, fs, b', rfl, rfl, fun t => .outside hinside (hconstant b (by simp)) hb⟩
      · refine .inr ⟨fun fs b heq => hparts ⟨fs, b, heq⟩, fun fs b heq => ?_, hxs.length_eq⟩
        subst heq
        match xs, hxs, hfirst rfl with
        | [p, b'], _, hsame =>
          exact hparts ⟨fs, b', by rw [Option.some.inj hsame]⟩

end Code

end World

end Renaming

end LexicalLisp
