import LexicalLisp.Form
import LexicalLisp.Proofs.Reader.Taking
import LexicalLisp.Proofs.Value.Trees

/-!
# Places in source texts

Equal expressions may be written in many places, and a value does not tell where it was written. A
place does: it is an expression of a text, or an item of the list at another place. The operators
that a session starts with count as lambda forms that are written nowhere else.

The level of a place is the number of lambda forms whose bodies enclose it. It is a matter of the
texts alone.
-/

namespace LexicalLisp

namespace Value

/-- A lambda form with its parameters and its body. -/
def lambdaForm (formals : List Value) (body : Value) : Value :=
  .list [.symbol Form.lambda.name, .list formals, body]

/-- The value is a lambda form with a list of parameters and a body. -/
def isLambdaForm : Value → Bool
  | .list [.symbol name, .list _, _] => name == Form.lambda.name
  | _ => false

/-- The items of a list. -/
def items : Value → List Value
  | .list items => items
  | _ => []

/-- Lists with another head are no lambda forms. -/
theorem isLambdaForm_of_head_ne {head : Value} (h : head ≠ .symbol Form.lambda.name)
    (operands : List Value) : (Value.list (head :: operands)).isLambdaForm = false := by
  unfold isLambdaForm
  split
  · rename_i name _ _ heq
    have hhead : head = .symbol name := (List.cons.inj (Value.list.inj heq)).1
    rw [beq_eq_false_iff_ne]
    exact fun hname => h (hname ▸ hhead)
  · rfl

end Value

/-- Where an expression is written. -/
inductive Place where
  /-- An expression of a text. -/
  | top (source : String) (index : Nat)
  /-- An operator of the root, written as a lambda form. -/
  | operator (form : Form)
  /-- An item of the list at a place; the head is the first one. -/
  | item (outer : Place) (index : Nat)

namespace Place

/-- The expression that is written at a place. -/
def value? : Place → Option Value
  | .top source index => (drainTokens (tokenize source)).values[index]?
  | .operator form =>
    some (.lambdaForm [.symbol "x", .symbol "y"]
      (.list [.symbol form.name, .symbol "x", .symbol "y"]))
  | .item outer index => outer.value?.bind fun v => v.items[index]?

/-- A lambda form is written at the place. -/
def isLambdaForm (place : Place) : Bool :=
  place.value?.any Value.isLambdaForm

/-- The number of lambda forms whose bodies enclose a place. The body of a lambda form is its last
item, behind the head and the parameters. -/
def level : Place → Nat
  | .top _ _ | .operator _ => 0
  | .item outer index =>
    if outer.isLambdaForm ∧ index = 2 then outer.level + 1 else outer.level

/-- What is written is a tree. -/
theorem isTree_of_value? {place : Place} {x : Value} (h : place.value? = some x) :
    x.isTree = true := by
  induction place generalizing x with
  | top source index =>
    obtain ⟨ds, _, -, hdrain⟩ := drainTokens_cases (tokenize source)
    have hvalues : (drainTokens (tokenize source)).values = Derivation.valueEach ds := by
      rcases hdrain with ⟨-, hdrain⟩ | ⟨_, -, hdrain⟩ | ⟨-, hdrain⟩ <;> rw [hdrain]
    rw [value?, hvalues] at h
    exact Value.isTreeEach_iff.mp (Derivation.isTreeEach_valueEach ds) x (List.mem_of_getElem? h)
  | operator form =>
    cases h
    rfl
  | item outer index ih =>
    obtain ⟨v, hv, hx⟩ := Option.bind_eq_some_iff.mp h
    have hmem := List.mem_of_getElem? hx
    cases v with
    | list items => exact Value.isTree_of_mem hmem (ih hv)
    | _ => cases hmem

/-- The expressions of a text that is read as a whole are at its places. -/
theorem value?_of_readAll {source : String} {exprs : List Value} (h : readAll source = .ok exprs)
    (index : Nat) : (Place.top source index).value? = exprs[index]? := by
  unfold readAll at h
  simp only at h
  split at h
  · rw [value?, Except.ok.inj h]
  · cases h

/-- The first expression of a text is at its first place, whatever follows it. -/
theorem value?_of_readFirst {source : String} {x : Value} (h : readFirst source = .ok x) :
    (Place.top source 0).value? = some x := by
  unfold readFirst at h
  split at h
  · rename_i v rest hread
    rw [value?, (drainTokens_eq_takeEach _).1, takeEach_of_value hread, ← Except.ok.inj h]
    rfl
  · cases h

/-- An item of the list at a place is at a place of its own. -/
theorem value?_item {place : Place} {items : List Value} {x : Value} {index : Nat}
    (h : place.value? = some (.list items)) (hx : items[index]? = some x) :
    (place.item index).value? = some x := by
  rw [value?, h, Option.bind_some]
  exact hx

/-- An item of a list that is no lambda form is enclosed by no more lambda forms than the list. -/
theorem level_item {place : Place} {v : Value} (h : place.value? = some v)
    (hform : v.isLambdaForm = false) (index : Nat) : (place.item index).level = place.level := by
  have hplain : place.isLambdaForm = false := by rw [isLambdaForm, h, Option.any_some, hform]
  rw [level, hplain, if_neg (by simp)]

/-- The body of a lambda form is enclosed by one lambda form more than the form. -/
theorem level_body {place : Place} {formals : List Value} {body : Value}
    (h : place.value? = some (.lambdaForm formals body)) :
    (place.item 2).level = place.level + 1 := by
  have hform : place.isLambdaForm = true := by
    rw [isLambdaForm, h, Option.any_some]
    rfl
  rw [level, hform, if_pos ⟨rfl, rfl⟩]

/-- One form, written on its own and in the body of another one. -/
example :
    let source := "(lambda (y) y) (lambda (x) (lambda (y) y))"
    (Place.top source 0).level = 0 ∧ ((Place.top source 1).item 2).level = 1 := by
  decide

end Place

end LexicalLisp
