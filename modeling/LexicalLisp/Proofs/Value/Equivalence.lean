import LexicalLisp.Eval.Forms
import Mathlib.Data.List.Basic

/-!
# Equality of values

Equality compares numbers by what they stand for, lists item by item, and closures and results that
are not numbers by their tags. It is an equivalence relation on all values, and never holds across
kinds. Comparing every operand of `=` with the first one is therefore comparing all of them with
each other, and the order of the operands does not matter.

A host that holds values as objects compares identities first and looks into two objects only if
they are different ones. Numeric comparison then calls two results that are not numbers different,
and two closures are different because they are two. This gives the same answers: an object is
equal to itself however deep it reaches, and tags are what is left of identities where they matter.
-/

namespace LexicalLisp

/-- Equality of numbers is transitive, also on tagged results. -/
theorem Number.same_trans {l m n : Number} (h : l.same m = true) (h' : m.same n = true) :
    l.same n = true := by
  cases l <;> cases m <;> cases n <;> simp_all only [same] <;> grind

namespace Value

/-- The kinds of values. -/
inductive Variant where
  | number
  | boolean
  | symbol
  | list
  | closure
  | foreign
  deriving DecidableEq

/-- The kind of a value. -/
def variant : Value → Variant
  | .number _ => .number
  | .boolean _ => .boolean
  | .symbol _ => .symbol
  | .list _ => .list
  | .closure .. => .closure
  | .foreign _ => .foreign

/-- Equal values are of one kind. -/
theorem variant_of_same {v w : Value} (h : v.same w = true) : v.variant = w.variant := by
  cases v <;> cases w <;> simp_all [same, variant]

mutual

/-- A value is equal to itself. -/
theorem same_refl (v : Value) : v.same v = true := by
  match v with
  | .number n => simp [same, Number.same_refl]
  | .boolean _ | .symbol _ | .foreign _ => simp [same]
  | .list items => simp [same, sameItems_refl items]
  | .closure .. => simp [same, identical_iff]

/-- Lists are equal to themselves item by item. -/
theorem sameItems_refl (items : List Value) : sameItems items items = true := by
  match items with
  | [] => simp [sameItems]
  | v :: rest => simp [sameItems, same_refl v, sameItems_refl rest]

end

mutual

/-- A value is equal to another one if the other one is equal to it. -/
theorem same_symm (v w : Value) (h : v.same w = true) : w.same v = true := by
  match v, w with
  | .number m, .number n =>
    rw [same] at h ⊢
    rwa [Number.same_comm]
  | .boolean _, .boolean _ | .symbol _, .symbol _ | .foreign _, .foreign _ => simp_all [same]
  | .list xs, .list ys =>
    rw [same] at h ⊢
    exact sameItems_symm xs ys h
  | .closure .., .closure .. =>
    rw [same, identical_iff] at h ⊢
    exact h.symm

/-- Equality item by item is symmetric. -/
theorem sameItems_symm (xs ys : List Value) (h : sameItems xs ys = true) :
    sameItems ys xs = true := by
  match xs, ys with
  | [], [] => exact h
  | x :: xs, y :: ys =>
    rw [sameItems, Bool.and_eq_true] at h ⊢
    exact ⟨same_symm x y h.1, sameItems_symm xs ys h.2⟩

end

mutual

/-- Values that are equal to one value are equal to each other. -/
theorem same_trans (u v w : Value) (h : u.same v = true) (h' : v.same w = true) :
    u.same w = true := by
  match u, v, w with
  | .number l, .number m, .number n =>
    rw [same] at h h' ⊢
    exact Number.same_trans h h'
  | .boolean _, .boolean _, .boolean _ | .symbol _, .symbol _, .symbol _
  | .foreign _, .foreign _, .foreign _ => simp_all [same]
  | .list xs, .list ys, .list zs =>
    rw [same] at h h' ⊢
    exact sameItems_trans xs ys zs h h'
  | .closure .., .closure .., .closure .. =>
    rw [same, identical_iff] at h h' ⊢
    exact h.trans h'

/-- Equality item by item is transitive. -/
theorem sameItems_trans (xs ys zs : List Value) (h : sameItems xs ys = true)
    (h' : sameItems ys zs = true) : sameItems xs zs = true := by
  match xs, ys, zs with
  | [], [], [] => exact h
  | x :: xs, y :: ys, z :: zs =>
    rw [sameItems, Bool.and_eq_true] at h h' ⊢
    exact ⟨same_trans x y z h.1 h'.1, sameItems_trans xs ys zs h.2 h'.2⟩

end

/-- Equality of values is an equivalence relation. -/
theorem same_equivalence : Equivalence fun v w : Value => v.same w = true :=
  ⟨same_refl, fun {v w} h => same_symm v w h, fun {u v w} h h' => same_trans u v w h h'⟩

end Value

/-- Values that are equal to the first one are equal to each other, and the other way round. -/
theorem allSame_iff {values : List Value} :
    allSame values = true ↔ ∀ v ∈ values, ∀ w ∈ values, v.same w = true := by
  cases values with
  | nil => simp [allSame]
  | cons first rest =>
    rw [allSame, List.all_eq_true]
    constructor
    · intro h
      have hfirst : ∀ v ∈ first :: rest, first.same v = true :=
        List.forall_mem_cons.mpr ⟨first.same_refl, h⟩
      intro v hv w hw
      exact Value.same_trans v first w (Value.same_symm first v (hfirst v hv)) (hfirst w hw)
    · exact fun h v hv => h first List.mem_cons_self v (List.mem_cons_of_mem _ hv)

/-- Whether values are all equal does not depend on their order. -/
theorem allSame_of_perm {values others : List Value} (h : values.Perm others) :
    allSame values = allSame others := by
  rw [Bool.eq_iff_iff, allSame_iff, allSame_iff]
  simp only [h.mem_iff]

/-- With operands that have values, the rule of `=` answers whether these are all equal. -/
theorem runEquals_of_values {eval : Evaluator} {operands values : List Value} {e : FrameId}
    {s t : State} (hne : operands ≠ []) (h : evaluateEach eval e operands s = (.ok values, t)) :
    Form.equals.run eval operands e s = (.ok (.boolean (allSame values)), t) := by
  have hempty : operands.isEmpty = false := by simpa using hne
  change runEquals eval operands e s = _
  rw [runEquals, hempty]
  change Eval.andThen (evaluateEach eval e operands) _ s = _
  rw [Eval.andThen, h]
  rfl

/-- Numeric equality of two objects: nothing is equal to what is not a number. -/
def Number.equals : Number → Number → Bool
  | .real s p, .real t q => p == q && (s == t || p == 0)
  | _, _ => false

/-- A value as a host holds it: each part is an object with an identity. -/
inductive Object where
  | leaf (identity : Nat) (value : Value)
  | list (identity : Nat) (items : List Object)

namespace Object

/-- The identity of an object. -/
def identity : Object → Nat
  | .leaf i _ => i
  | .list i _ => i

mutual

/-- The value that an object stands for. -/
def value : Object → Value
  | .leaf _ v => v
  | .list _ items => .list (valueEach items)

/-- The values that objects stand for. -/
def valueEach : List Object → List Value
  | [] => []
  | a :: rest => value a :: valueEach rest

end

/-- Equality of two different objects that are no lists; closures are then different. -/
def leavesEqual : Value → Value → Bool
  | .number m, .number n => m.equals n
  | .boolean a, .boolean b => a == b
  | .symbol m, .symbol n => m == n
  | .foreign f, .foreign g => f == g
  | _, _ => false

mutual

/-- Equality of objects: one and the same, or lists with equal items, or equal leaves of a kind. -/
def same : Object → Object → Bool
  | .leaf i v, .leaf j w => i == j || leavesEqual v w
  | .list i xs, .list j ys => i == j || sameEach xs ys
  | .leaf i _, .list j _ => i == j
  | .list i _, .leaf j _ => i == j

/-- Two lists of objects are equal item by item. -/
def sameEach : List Object → List Object → Bool
  | [], [] => true
  | a :: xs, b :: ys => same a b && sameEach xs ys
  | _, _ => false

end

end Object

/-- The objects of a host. An identity belongs to one object, and objects whose values carry a tag
have one identity for each tag. -/
structure Heap where
  holds : Object → Prop
  items : ∀ {i : Nat} {xs : List Object}, holds (.list i xs) → ∀ a ∈ xs, holds a
  identity_inj : ∀ {a b : Object}, holds a → holds b → a.identity = b.identity → a = b
  leaf_variant : ∀ {i : Nat} {v : Value}, holds (.leaf i v) → v.variant ≠ .list
  nan_identity : ∀ {i j tag : Nat}, holds (.leaf i (.number (.nan tag))) →
    holds (.leaf j (.number (.nan tag))) → i = j
  closure_identity : ∀ {i j tag : Nat} {formals : List Value} {body : Value} {frame : FrameId},
    holds (.leaf i (.closure tag formals body frame)) →
    holds (.leaf j (.closure tag formals body frame)) → i = j

namespace Heap

variable (heap : Heap)

/-- Different objects that are no lists are equal exactly when their values are. -/
theorem leavesEqual_eq {i j : Nat} {v w : Value} (hv : heap.holds (.leaf i v))
    (hw : heap.holds (.leaf j w)) (hne : i ≠ j) : Object.leavesEqual v w = v.same w := by
  cases v with
  | list => exact absurd rfl (heap.leaf_variant hv)
  | boolean | symbol | foreign => cases w <;> simp [Object.leavesEqual, Value.same]
  | number m =>
    cases w with
    | number n =>
      cases m with
      | real => cases n <;> simp [Object.leavesEqual, Value.same, Number.equals, Number.same]
      | nan s =>
        cases n with
        | real => simp [Object.leavesEqual, Value.same, Number.equals, Number.same]
        | nan t =>
          have htag : s ≠ t := fun heq => hne (heap.nan_identity hv (heq ▸ hw))
          simp [Object.leavesEqual, Value.same, Number.equals, Number.same, htag]
    | _ => simp [Object.leavesEqual, Value.same]
  | closure tag formals body frame =>
    cases w with
    | closure tag' formals' body' frame' =>
      have hdifferent : (Value.closure tag formals body frame).identical
          (.closure tag' formals' body' frame') = false := by
        rw [Bool.eq_false_iff]
        intro hsame
        rw [Value.identical_iff] at hsame
        cases hsame
        exact hne (heap.closure_identity hv hw)
      simp only [Object.leavesEqual, Value.same, hdifferent]
    | _ => simp [Object.leavesEqual, Value.same]

mutual

/-- Objects are equal exactly when the values they stand for are. -/
theorem same_eq (a b : Object) (ha : heap.holds a) (hb : heap.holds b) :
    a.same b = a.value.same b.value := by
  by_cases hsame : a.identity = b.identity
  · -- One and the same object stands for one value, which is equal to itself.
    have hidentity : a.same b = true := by
      cases heap.identity_inj ha hb hsame
      cases a <;> simp [Object.same]
    rw [hidentity, heap.identity_inj ha hb hsame, Value.same_refl]
  · match a, b with
    | .leaf i v, .leaf j w =>
      have hne : (i == j) = false := by simpa [Object.identity] using hsame
      rw [Object.same, hne, Bool.false_or, heap.leavesEqual_eq ha hb hsame]
      rfl
    | .list i xs, .list j ys =>
      have hne : (i == j) = false := by simpa [Object.identity] using hsame
      rw [Object.same, hne, Bool.false_or, Object.value, Object.value, Value.same]
      exact sameEach_eq xs ys (heap.items ha) (heap.items hb)
    | .leaf i v, .list j ys =>
      have hne : (i == j) = false := by simpa [Object.identity] using hsame
      have hkind := heap.leaf_variant ha
      rw [Object.same, hne, Object.value, Object.value]
      cases v <;> simp_all [Value.same, Value.variant]
    | .list i xs, .leaf j w =>
      have hne : (i == j) = false := by simpa [Object.identity] using hsame
      have hkind := heap.leaf_variant hb
      rw [Object.same, hne, Object.value, Object.value]
      cases w <;> simp_all [Value.same, Value.variant]

/-- Lists of objects are equal item by item exactly when their values are. -/
theorem sameEach_eq (xs ys : List Object) (hxs : ∀ a ∈ xs, heap.holds a)
    (hys : ∀ b ∈ ys, heap.holds b) :
    Object.sameEach xs ys = Value.sameItems (Object.valueEach xs) (Object.valueEach ys) := by
  match xs, ys with
  | [], [] => simp [Object.sameEach, Object.valueEach, Value.sameItems]
  | [], _ :: _ | _ :: _, [] => simp [Object.sameEach, Object.valueEach, Value.sameItems]
  | a :: xs, b :: ys =>
    obtain ⟨ha, hxs⟩ := List.forall_mem_cons.mp hxs
    obtain ⟨hb, hys⟩ := List.forall_mem_cons.mp hys
    rw [Object.sameEach, Object.valueEach, Object.valueEach, Value.sameItems, same_eq a b ha hb,
      sameEach_eq xs ys hxs hys]

end

/-- Equality of the objects of a host is an equivalence relation. -/
theorem same_equivalence : Equivalence fun a b : {a // heap.holds a} => a.1.same b.1 = true := by
  have h : ∀ a b : {a // heap.holds a}, a.1.same b.1 = a.1.value.same b.1.value :=
    fun a b => heap.same_eq a.1 b.1 a.2 b.2
  simp only [h]
  exact InvImage.equivalence _ (fun a : {a // heap.holds a} => a.1.value) Value.same_equivalence

/-- For lists, looking at the identities first makes no difference to comparing the items. -/
theorem same_list_eq {i j : Nat} {xs ys : List Object} (hxs : heap.holds (.list i xs))
    (hys : heap.holds (.list j ys)) :
    (Object.list i xs).same (.list j ys) = Object.sameEach xs ys := by
  rw [heap.same_eq _ _ hxs hys, Object.value, Object.value, Value.same,
    heap.sameEach_eq xs ys (heap.items hxs) (heap.items hys)]

end Heap

/-- Equality is an equivalence relation that never holds across kinds, whether values or the objects
of a host are compared; for lists the identities add nothing to the items. So `=` answers whether
its operands' values are equal pair by pair, and gives one answer for every order of the values. -/
theorem equality_is_equivalence :
    (Equivalence fun v w : Value => v.same w = true) ∧
    (∀ v w : Value, v.same w = true → v.variant = w.variant) ∧
    (∀ heap : Heap, (Equivalence fun a b : {a // heap.holds a} => a.1.same b.1 = true) ∧
      (∀ a b, heap.holds a → heap.holds b → a.same b = a.value.same b.value) ∧
      ∀ i j xs ys, heap.holds (.list i xs) → heap.holds (.list j ys) →
        (Object.list i xs).same (.list j ys) = Object.sameEach xs ys) ∧
    ∀ (eval : Evaluator) (operands values : List Value) (e : FrameId) (s t : State),
      operands ≠ [] → evaluateEach eval e operands s = (.ok values, t) →
      ∃ answer, Form.equals.run eval operands e s = (.ok (.boolean answer), t) ∧
        (answer = true ↔ ∀ v ∈ values, ∀ w ∈ values, v.same w = true) ∧
        ∀ (eval' : Evaluator) (others values' : List Value) (e' : FrameId) (s' t' : State),
          others ≠ [] → evaluateEach eval' e' others s' = (.ok values', t') →
          values.Perm values' →
          Form.equals.run eval' others e' s' = (.ok (.boolean answer), t') := by
  refine ⟨Value.same_equivalence, fun _ _ => Value.variant_of_same, fun heap => ⟨?_, ?_, ?_⟩, ?_⟩
  · exact heap.same_equivalence
  · exact heap.same_eq
  · exact fun _ _ _ _ => heap.same_list_eq
  · intro eval operands values e s t hne h
    refine ⟨allSame values, runEquals_of_values hne h, allSame_iff, ?_⟩
    intro eval' others values' e' s' t' hne' h' hperm
    rw [allSame_of_perm hperm]
    exact runEquals_of_values hne' h'

/-- In a heap with two objects that are not numbers, and lists of them: two lists of one such object
are equal, and lists of different ones are not. -/
theorem equality_is_equivalence_nan :
    let shared := Object.leaf 0 (.number (.nan 0))
    let other := Object.leaf 1 (.number (.nan 1))
    ∃ heap : Heap, heap.holds (.list 2 [shared]) ∧ heap.holds (.list 3 [shared]) ∧
      heap.holds (.list 4 [other]) ∧
      (Object.list 2 [shared]).same (.list 3 [shared]) = true ∧
      (Object.list 3 [shared]).same (.list 4 [other]) = false := by
  intro shared other
  let heap : Heap :=
    { holds := (· ∈ [shared, other, .list 2 [shared], .list 3 [shared], .list 4 [other]])
      items := by simp [shared, other]; grind
      identity_inj := by simp [shared, other]; grind [Object.identity]
      leaf_variant := by simp [shared, other, Value.variant]; grind
      nan_identity := by simp [shared, other]; grind
      closure_identity := by simp [shared, other] }
  have hlist := (equality_is_equivalence.2.2.1 heap).2.2
  refine ⟨heap, by simp [heap], by simp [heap], by simp [heap], ?_, ?_⟩
  · rw [hlist 2 3 _ _ (by simp [heap]) (by simp [heap])]
    decide
  · rw [hlist 3 4 _ _ (by simp [heap]) (by simp [heap])]
    decide

end LexicalLisp
