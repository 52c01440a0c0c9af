import LexicalLisp.Proofs.Reader.Balance
import LexicalLisp.Proofs.Value.Closures

/-!
# Trees

Reading yields trees: numbers and symbols, grouped into lists. Booleans and closures come about by
evaluation only. A plain value is one of these three: a tree, a boolean, or a closure whose
parameters and body are trees. A list among plain values holds neither booleans nor closures, at any
depth.
-/

namespace LexicalLisp

namespace Value

mutual

/-- Made of numbers, symbols and lists only. -/
def isTree : Value → Bool
  | .number _ | .symbol _ => true
  | .list items => isTreeEach items
  | .boolean _ | .closure .. | .foreign _ => false

/-- Every item is made of numbers, symbols and lists only. -/
def isTreeEach : List Value → Bool
  | [] => true
  | v :: rest => isTree v && isTreeEach rest

end

/-- A tree, a boolean, or a closure whose parameters and body are trees. -/
def isPlain : Value → Bool
  | .number _ | .symbol _ | .boolean _ => true
  | .list items => isTreeEach items
  | .closure _ formals body _ => isTreeEach formals && body.isTree
  | .foreign _ => false

/-- Items are trees one by one. -/
theorem isTreeEach_iff {items : List Value} :
    isTreeEach items = true ↔ ∀ v ∈ items, v.isTree = true := by
  induction items with
  | nil => simp [isTreeEach]
  | cons v rest ih => simp [isTreeEach, ih]

/-- The items of a tree are trees. -/
theorem isTree_of_mem {v : Value} {items : List Value} (hv : v ∈ items)
    (h : (Value.list items).isTree = true) : v.isTree = true := by
  rw [isTree, isTreeEach_iff] at h
  exact h v hv

/-- Trees are plain. -/
theorem isPlain_of_isTree {v : Value} (h : v.isTree = true) : v.isPlain = true := by
  cases v with
  | number | symbol => rfl
  | list => exact h
  | boolean | closure | foreign => cases h

mutual

/-- A tree holds no closure. -/
theorem closures_of_isTree (v : Value) (h : v.isTree = true) : v.closures = [] := by
  match v with
  | .number _ | .symbol _ => rfl
  | .list items => exact closuresEach_of_isTree items h
  | .boolean _ | .closure .. | .foreign _ => cases h

/-- Trees hold no closures. -/
theorem closuresEach_of_isTree (items : List Value) (h : isTreeEach items = true) :
    closuresEach items = [] := by
  match items with
  | [] => rfl
  | v :: rest =>
    rw [isTreeEach, Bool.and_eq_true] at h
    rw [closuresEach, closures_of_isTree v h.1, closuresEach_of_isTree rest h.2]
    rfl

end

end Value

mutual

/-- An expression that is read is a tree. -/
theorem Derivation.isTree_value (d : Derivation) : d.value.isTree = true := by
  match d with
  | .word text =>
    rw [value, readAtom]
    split <;> rfl
  | .group members =>
    rw [value, Value.isTree]
    exact isTreeEach_valueEach members

/-- Expressions that are read are trees. -/
theorem Derivation.isTreeEach_valueEach (ds : List Derivation) :
    Value.isTreeEach (valueEach ds) = true := by
  match ds with
  | [] => rfl
  | d :: rest =>
    rw [valueEach, Value.isTreeEach, isTree_value d, isTreeEach_valueEach rest]
    rfl

end

/-- The value is an expression of some text. -/
def Value.IsWritten (x : Value) : Prop :=
  ∃ (source : String) (before after : List Token) (d : Derivation),
    tokenize source = before ++ d.tokens ++ after ∧ x = d.value

/-- What is written is a tree. -/
theorem Value.IsWritten.isTree {x : Value} (h : x.IsWritten) : x.isTree = true := by
  obtain ⟨-, -, -, d, -, rfl⟩ := h
  exact d.isTree_value

/-- An expression that is read among others is the value of one of them. -/
theorem Derivation.mem_valueEach {x : Value} {ds : List Derivation} (h : x ∈ valueEach ds) :
    ∃ d ∈ ds, x = d.value := by
  induction ds with
  | nil => cases h
  | cons d rest ih =>
    rcases List.mem_cons.mp h with rfl | h
    · exact ⟨d, List.mem_cons_self, rfl⟩
    · obtain ⟨e, he, rfl⟩ := ih h
      exact ⟨e, List.mem_cons_of_mem _ he, rfl⟩

/-- Every expression that is read from a text is written in it. -/
theorem isWritten_of_readAll {source : String} {values : List Value}
    (h : readAll source = .ok values) : ∀ x ∈ values, x.IsWritten := by
  intro x hx
  obtain ⟨ds, htokens, rfl⟩ := (readAll_eq_ok_iff source values).mp h
  obtain ⟨d, hd, rfl⟩ := Derivation.mem_valueEach hx
  obtain ⟨front, back, rfl⟩ := List.append_of_mem hd
  refine ⟨source, Derivation.tokensEach front, Derivation.tokensEach back, d, ?_, rfl⟩
  rw [htokens, Derivation.tokensEach_append, Derivation.tokensEach, List.append_assoc]

/-- What is read first from a text is the expression that starts its tokens. -/
theorem exists_expression_of_readFirst {source : String} {x : Value}
    (h : readFirst source = .ok x) :
    ∃ d rest, tokenize source = Derivation.tokens d ++ rest ∧ x = d.value := by
  rcases exists_expression_or_stuck (tokenize source) with ⟨d, rest, hd⟩ | hnil | ⟨rest, hd⟩ | hopen
  · rw [readFirst, hd, readOne_tokens_append] at h
    exact ⟨d, rest, hd, (Except.ok.inj h).symm⟩
  · rw [readFirst, hnil] at h
    cases h
  · rw [readFirst, hd] at h
    cases h
  · rw [readFirst, readOne_of_leftOpen hopen] at h
    cases h

/-- The first expression of a text is written in it. -/
theorem isWritten_of_readFirst {source : String} {x : Value} (h : readFirst source = .ok x) :
    x.IsWritten := by
  obtain ⟨d, rest, htokens, rfl⟩ := exists_expression_of_readFirst h
  exact ⟨source, [], rest, d, htokens, rfl⟩

end LexicalLisp
