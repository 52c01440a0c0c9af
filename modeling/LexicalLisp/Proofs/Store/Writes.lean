import LexicalLisp.Proofs.Eval.Actions
import LexicalLisp.Proofs.Store.Finding
import Mathlib.Data.List.Perm.Subperm
import Mathlib.Logic.Relation

/-!
# A write seen from every frame

Frames form a forest: each may be inside another one, and no frame is inside itself at any distance.
One write changes one binding of one frame, and the question is who sees it. An observer sees it if
the frame lies on the way outwards from it and no frame before that one binds the name. Everybody
else sees what they saw before, in other branches of the forest as well as behind a shadow.

Overwriting writes where the name is found, so it adds no name to any frame. Where names are found
is therefore the same as before, and the observers of the new value are those who find the name in
the frame that was written to.

A forest may have its frames in any order. The bound on the length of a chain is still never
reached, for a way outwards comes by no frame twice.
-/

namespace LexicalLisp

namespace Store

/-- The frame is directly inside the other one. -/
def Inside (s : Store) (e o : FrameId) : Prop :=
  s.outerOf e = some o

/-- Outer links lead to frames that exist, and never back to where they started from. -/
structure Acyclic (s : Store) : Prop where
  linked : ∀ {e o : FrameId}, s.Inside e o → o < s.frames.size
  no_cycle : ∀ e : FrameId, ¬ Relation.TransGen s.Inside e e

/-- Links along which a rank goes down are acyclic. -/
theorem acyclic_of_rank {s : Store} (rank : FrameId → Nat)
    (h : ∀ e o : FrameId, s.Inside e o → o < s.frames.size ∧ rank o < rank e) : s.Acyclic where
  linked hinside := (h _ _ hinside).1
  no_cycle e hcycle := by
    have hdown : ∀ {o : FrameId}, Relation.TransGen s.Inside e o → rank o < rank e := by
      intro o hpath
      induction hpath with
      | single hinside => exact (h _ _ hinside).2
      | tail _ hinside ih => exact Nat.lt_trans (h _ _ hinside).2 ih
    exact Nat.lt_irrefl _ (hdown hcycle)

/-- There are no more different frames than frames. -/
theorem length_le_of_nodup {frames : List FrameId} {size : Nat} (hnodup : frames.Nodup)
    (hlt : ∀ e ∈ frames, e < size) : frames.length ≤ size := by
  have hsubset : frames ⊆ List.range size := fun e he => List.mem_range.mpr (hlt e he)
  have hlength := (hnodup.subperm hsubset).length_le
  rwa [List.length_range] at hlength

namespace Acyclic

variable {s : Store} (hs : s.Acyclic)

include hs

/-- A chain that may still come by every frame not yet visited is not cut short.

The visited frames are those on the way to this one. Each link adds one to them and takes one off
the bound, and acyclicity is what keeps them different. -/
theorem walk_chainWithin {bound : Nat} {e : FrameId} {visited : List FrameId}
    (he : e < s.frames.size) (hnodup : (e :: visited).Nodup)
    (hvisited : ∀ g ∈ visited, g < s.frames.size ∧ Relation.TransGen s.Inside g e)
    (hbound : s.frames.size ≤ visited.length + bound) :
    s.Walk e (s.chainWithin bound (some e)) := by
  induction bound generalizing e visited with
  | zero =>
    have hlength := length_le_of_nodup hnodup
      (List.forall_mem_cons.mpr ⟨he, fun g hg => (hvisited g hg).1⟩)
    rw [List.length_cons] at hlength
    omega
  | succ bound ih =>
    rw [chainWithin_succ he]
    cases houter : s.outerOf e with
    | none =>
      rw [chainWithin_none]
      exact .last he houter
    | some o =>
      have hvisited' : ∀ g ∈ e :: visited, g < s.frames.size ∧ Relation.TransGen s.Inside g o :=
        List.forall_mem_cons.mpr ⟨⟨he, .single houter⟩,
          fun g hg => ⟨(hvisited g hg).1, (hvisited g hg).2.tail houter⟩⟩
      have hfresh : o ∉ e :: visited := fun hmem => hs.no_cycle o (hvisited' o hmem).2
      have hnodup' := List.nodup_cons.mpr ⟨hfresh, hnodup⟩
      refine .step houter (ih (hs.linked houter) hnodup' hvisited' ?_)
      rw [List.length_cons]
      omega

/-- The chain of a frame is all that following outer links from it comes by. -/
theorem walk_chain {e : FrameId} (he : e < s.frames.size) : s.Walk e (s.chain e) := by
  have hnone : ∀ g ∈ [], g < s.frames.size ∧ Relation.TransGen s.Inside g e := nofun
  exact hs.walk_chainWithin he (List.pairwise_singleton _ e) hnone (Nat.le_add_left _ 0)

end Acyclic

/-- The frame lies on the path, and no frame strictly before it binds the name. -/
def Unshadowed (s : Store) (path : List FrameId) (e : FrameId) (name : String) : Prop :=
  ∃ before after, path = before ++ e :: after ∧ ∀ f ∈ before, s.binds f name = false

/-- A frame on a path is in front, or behind a frame that does not bind the name. -/
theorem unshadowed_cons {s : Store} {f e : FrameId} {path : List FrameId} {name : String} :
    s.Unshadowed (f :: path) e name ↔
      f = e ∨ s.binds f name = false ∧ s.Unshadowed path e name := by
  constructor
  · rintro ⟨before, after, hpath, hbefore⟩
    cases before with
    | nil => exact .inl (List.cons.inj hpath).1
    | cons g before =>
      obtain ⟨rfl, rfl⟩ := List.cons.inj hpath
      obtain ⟨hf, hrest⟩ := List.forall_mem_cons.mp hbefore
      exact .inr ⟨hf, before, after, rfl, hrest⟩
  · rintro (rfl | ⟨hf, before, after, rfl, hbefore⟩)
    · exact ⟨[], path, rfl, by simp⟩
    · exact ⟨f :: before, after, rfl, List.forall_mem_cons.mpr ⟨hf, hbefore⟩⟩

/-- A frame that binds a name is unshadowed exactly for those who find the name there. -/
theorem unshadowed_chain_iff {s : Store} {g f : FrameId} {name : String}
    (h : s.binds f name = true) : s.Unshadowed (s.chain g) f name ↔ s.find? g name = some f := by
  rw [find?, List.find?_eq_some_iff_append, Unshadowed]
  simp [h]

/-- What a frame itself binds after a write to a frame that exists. -/
theorem get?_put {s : Store} {e : FrameId} (he : e < s.frames.size) (f : FrameId)
    (name other : String) (value : Value) :
    (s.put e name value).get? f other =
      if f = e ∧ other = name then some value else s.get? f other := by
  rw [get?, bindingsOf_put]
  by_cases hf : f = e
  · by_cases hname : other = name
    · rw [if_pos ⟨hf, he⟩, if_pos ⟨hf, hname⟩, hname]
      exact Bindings.get?_put_self name value _
    · rw [if_pos ⟨hf, he⟩, if_neg fun h => hname h.2]
      exact Bindings.get?_put_of_ne hname value _
  · rw [if_neg fun h => hf h.1, if_neg fun h => hf h.1]
    rfl

/-- After a write, a path leads to the new value where the frame is unshadowed. -/
theorem findSome?_put_of_unshadowed {s : Store} {e : FrameId} (he : e < s.frames.size)
    {name : String} (value : Value) {path : List FrameId} (h : s.Unshadowed path e name) :
    path.findSome? ((s.put e name value).get? · name) = some value := by
  obtain ⟨before, after, rfl, hbefore⟩ := h
  induction before with
  | nil =>
    rw [List.nil_append, List.findSome?_cons, get?_put he, if_pos ⟨rfl, rfl⟩]
  | cons f before ih =>
    obtain ⟨hf, hrest⟩ := List.forall_mem_cons.mp hbefore
    rw [List.cons_append, List.findSome?_cons, get?_put he]
    by_cases hfe : f = e
    · rw [if_pos ⟨hfe, rfl⟩]
    · have hnone : s.get? f name = none := by simpa [binds] using hf
      rw [if_neg fun h => hfe h.1, hnone]
      exact ih hrest

/-- After a write, a path leads to what it led to where the frame is shadowed or elsewhere, and for
all other names. -/
theorem findSome?_put_of_shadowed {s : Store} {e : FrameId} (he : e < s.frames.size)
    {name other : String} (value : Value) {path : List FrameId}
    (h : ¬ (other = name ∧ s.Unshadowed path e name)) :
    path.findSome? ((s.put e name value).get? · other) = path.findSome? (s.get? · other) := by
  induction path with
  | nil => rfl
  | cons f path ih =>
    rw [List.findSome?_cons, List.findSome?_cons, get?_put he]
    have hf : ¬ (f = e ∧ other = name) := fun hsame =>
      h ⟨hsame.2, unshadowed_cons.mpr (.inl hsame.1)⟩
    rw [if_neg hf]
    cases hget : s.get? f other with
    | some old => rfl
    | none =>
      -- The frame in front casts no shadow, so the rest of the path decides.
      refine ih fun hrest => h ⟨hrest.1, unshadowed_cons.mpr (.inr ⟨?_, hrest.2⟩)⟩
      rw [← hrest.1, binds, hget]
      rfl

/-- Binding a name again changes nowhere where a name is found. -/
theorem find?_put_of_binds {s : Store} {f : FrameId} {name : String} (h : s.binds f name = true)
    (value : Value) (g : FrameId) (other : String) :
    (s.put f name value).find? g other = s.find? g other := by
  have hbinds (i : FrameId) : (s.put f name value).binds i other = s.binds i other := by
    rw [Bool.eq_iff_iff, binds_iff, binds_iff, names_put_of_binds h]
  rw [find?, find?, chain_put]
  simp only [hbinds]

/-- A name has no value exactly when no frame is found that binds it. -/
theorem find?_eq_none_iff {s : Store} {e : FrameId} {name : String} :
    s.find? e name = none ↔ s.lookup? e name = none := by
  rw [find?, lookup?, List.find?_eq_none, List.findSome?_eq_none_iff]
  simp [binds]

end Store

/-- Looking a name up is answered alike where it has the same value or none. -/
theorem Eval.lookup_congr {s t : State} {g : FrameId} {name : String}
    (h : t.store.lookup? g name = s.store.lookup? g name) :
    (Eval.lookup g (.symbol name) t).1 = (Eval.lookup g (.symbol name) s).1 := by
  rw [Eval.lookup_symbol, Eval.lookup_symbol, h]

/-- Looking up a name that has a value. -/
theorem Eval.lookup_of_some {s : State} {g : FrameId} {name : String} {value : Value}
    (h : s.store.lookup? g name = some value) :
    Eval.lookup g (.symbol name) s = (.ok value, s) := by
  rw [Eval.lookup_symbol, h]

/-- Who sees a write. Frames may be nested in any way that is acyclic.

Defining a name in a frame shows its value to those who come by the frame on their way outwards
before any other frame that binds the name. Everybody else, and every other name, is answered as
before, be it by a value or by an error.

Overwriting a name fails and changes nothing exactly where the name is not found, which is where
looking it up fails, and it fails in no other way. Otherwise every name is found where it was found
before, and the new value is seen by those who find the name in the frame that was written to. -/
theorem write_seen_from_every_frame {s : State} (hs : s.store.Acyclic) {e : FrameId}
    (he : e < s.store.frames.size) (n : String) (v : Value) :
    (∀ g < s.store.frames.size, s.store.Walk g (s.store.chain g)) ∧
    (∃ t, Eval.bindName e (.symbol n) v s = (.ok (), t) ∧ ∀ g m,
      (m = n ∧ s.store.Unshadowed (s.store.chain g) e n →
        Eval.lookup g (.symbol m) t = (.ok v, t)) ∧
      (¬ (m = n ∧ s.store.Unshadowed (s.store.chain g) e n) →
        (Eval.lookup g (.symbol m) t).1 = (Eval.lookup g (.symbol m) s).1)) ∧
    (s.store.find? e n = none ↔
      Eval.overwrite e (.symbol n) v s = (.error (.overwriteUnbound (.symbol n)), s)) ∧
    (Error.overwriteUnbound (.symbol n)).kind = .unboundSymbol ∧
    (∀ error, (Eval.lookup e (.symbol n) s).1 = .error error ↔
      s.store.find? e n = none ∧ error = .unbound (.symbol n)) ∧
    ∀ f, s.store.find? e n = some f →
      ∃ t, Eval.overwrite e (.symbol n) v s = (.ok (), t) ∧ ∀ g m,
        t.store.find? g m = s.store.find? g m ∧
        (m = n ∧ s.store.find? g n = some f → Eval.lookup g (.symbol m) t = (.ok v, t)) ∧
        (¬ (m = n ∧ s.store.find? g n = some f) →
          (Eval.lookup g (.symbol m) t).1 = (Eval.lookup g (.symbol m) s).1) := by
  have hseen {f : FrameId} (hf : f < s.store.frames.size) (g : FrameId)
      (h : s.store.Unshadowed (s.store.chain g) f n) :
      (s.store.put f n v).lookup? g n = some v := by
    rw [Store.lookup?, Store.chain_put]
    exact Store.findSome?_put_of_unshadowed hf v h
  have hunseen {f : FrameId} (hf : f < s.store.frames.size) (g : FrameId) {m : String}
      (h : ¬ (m = n ∧ s.store.Unshadowed (s.store.chain g) f n)) :
      (s.store.put f n v).lookup? g m = s.store.lookup? g m := by
    rw [Store.lookup?, Store.chain_put]
    exact Store.findSome?_put_of_shadowed hf v h
  refine ⟨fun g hg => hs.walk_chain hg, ⟨_, rfl, fun g m => ⟨?_, ?_⟩⟩, ?_, rfl, fun error => ?_,
    fun f hf => ?_⟩
  · rintro ⟨rfl, hunshadowed⟩
    exact Eval.lookup_of_some (hseen he g hunshadowed)
  · intro hshadowed
    exact Eval.lookup_congr (hunseen he g hshadowed)
  · rw [Eval.overwrite_symbol]
    cases s.store.find? e n <;> simp
  · rw [Store.find?_eq_none_iff, Eval.lookup_symbol]
    cases s.store.lookup? e n <;> simp [eq_comm]
  · have hbinds := Store.binds_of_find? hf
    have hexists := Store.lt_size_of_binds hbinds
    refine ⟨{ s with store := s.store.put f n v }, ?_, fun g m => ⟨?_, ?_, ?_⟩⟩
    · rw [Eval.overwrite_symbol, hf]
    · exact Store.find?_put_of_binds hbinds v g m
    · rintro ⟨rfl, hfound⟩
      exact Eval.lookup_of_some (hseen hexists g ((Store.unshadowed_chain_iff hbinds).mpr hfound))
    · rw [← Store.unshadowed_chain_iff hbinds]
      intro hshadowed
      exact Eval.lookup_congr (hunseen hexists g hshadowed)

/-- Of two frames inside a third one that comes after them, the first binds the name itself. It does
not see what is written through the second. -/
theorem write_seen_from_every_frame_siblings :
    let frames : Array Frame := #[⟨some 2, [("x", .boolean false)]⟩, ⟨some 2, []⟩,
      ⟨none, [("x", .boolean true)]⟩]
    let s : State := ⟨⟨frames, 0⟩, #[]⟩
    s.store.Acyclic ∧ ∃ t, Eval.overwrite 1 (.symbol "x") (.list []) s = (.ok (), t) ∧
      Eval.lookup 1 (.symbol "x") t = (.ok (.list []), t) ∧
      (Eval.lookup 0 (.symbol "x") t).1 = .ok (.boolean false) := by
  intro frames s
  have hs : s.store.Acyclic := by
    apply Store.acyclic_of_rank (fun e => 2 - e)
    intro e o hinside
    match e with
    | 0 | 1 =>
      obtain rfl : 2 = o := Option.some.inj hinside
      decide
    | 2 => cases hinside
    | _ + 3 => cases hinside
  obtain ⟨-, -, -, -, -, hoverwrite⟩ :=
    write_seen_from_every_frame hs (e := 1) (by decide) "x" (.list [])
  obtain ⟨t, ht, hlater⟩ := hoverwrite 2 (by decide)
  refine ⟨hs, t, ht, (hlater 1 "x").2.1 ⟨rfl, by decide⟩, ?_⟩
  rw [(hlater 0 "x").2.2 (by decide)]
  rfl

end LexicalLisp
