import LexicalLisp.Proofs.Value.Closures
import LexicalLisp.Form
import Mathlib.Data.List.Forall2

/-!
# Renaming a parameter in a lambda form

A name is replaced in an expression wherever it stands for a binding: where it is looked up, where
it is the target of a `define` or `set!`, and where it is a parameter. What is quoted is data and
stays. A list of parameters is never a quotation, even if it starts with `quote`. Closures within
the expression are values from elsewhere and are left alone.

A renaming is a lambda form with one of its parameters and a name that does not occur in the form.
The form stands in a larger expression at a place where it is evaluated, which excludes quotations
and lists of parameters.
-/

namespace LexicalLisp

/-- The new name in place of the old one. -/
def renameName (old new name : String) : String :=
  if name = old then new else name

namespace Value

mutual

/-- The symbol occurs in the value, quoted or not. The code of closures is not looked into. -/
def mentions (name : String) : Value → Bool
  | .symbol n => n == name
  | .list items => mentionsEach name items
  | _ => false

/-- The symbol occurs in one of the items. -/
def mentionsEach (name : String) : List Value → Bool
  | [] => false
  | v :: rest => mentions name v || mentionsEach name rest

end

mutual

/-- Replace a name in an expression, except where it is quoted. -/
def rename (old new : String) : Value → Value
  | .symbol name => .symbol (renameName old new name)
  | .list (.symbol head :: operands) =>
    if head = Form.quote.name then .list (.symbol head :: operands)
    else if head = Form.lambda.name then .list (.symbol head :: renameLambda old new operands)
    else .list (.symbol (renameName old new head) :: renameEach old new operands)
  | .list items => .list (renameEach old new items)
  | v => v

/-- Replace a name in each of the expressions. -/
def renameEach (old new : String) : List Value → List Value
  | [] => []
  | v :: rest => rename old new v :: renameEach old new rest

/-- Replace a name in the operands of a lambda form, the first of which are its parameters. -/
def renameLambda (old new : String) : List Value → List Value
  | [] => []
  | parameters :: rest => renameParameters old new parameters :: renameEach old new rest

/-- Replace a name among parameters. -/
def renameParameters (old new : String) : Value → Value
  | .symbol name => .symbol (renameName old new name)
  | .list formals => .list (renameEach old new formals)
  | v => v

end

/-- A list mentions a name where an item does. -/
theorem mentionsEach_eq_false {name : String} {items : List Value} :
    mentionsEach name items = false ↔ ∀ v ∈ items, v.mentions name = false := by
  induction items with
  | nil => simp [mentionsEach]
  | cons v rest ih => simp [mentionsEach, ih]

/-- Renaming goes through a list item by item. -/
theorem renameEach_eq_map (old new : String) (items : List Value) :
    renameEach old new items = items.map (rename old new) := by
  induction items with
  | nil => rfl
  | cons v rest ih => rw [renameEach, ih, List.map_cons]

/-- Outside of quotations and lambda forms, a list is renamed item by item. -/
theorem rename_list {old new : String} {head : Value} {operands : List Value}
    (hquote : head ≠ .symbol Form.quote.name) (hlambda : head ≠ .symbol Form.lambda.name) :
    rename old new (.list (head :: operands)) =
      .list (rename old new head :: renameEach old new operands) := by
  cases head with
  | symbol name =>
    have hquote : name ≠ Form.quote.name := fun h => hquote (congrArg _ h)
    have hlambda : name ≠ Form.lambda.name := fun h => hlambda (congrArg _ h)
    simp only [rename, if_neg hquote, if_neg hlambda]
  | _ => rfl

/-- A quotation is left alone. -/
theorem rename_quote (old new : String) (operands : List Value) :
    rename old new (.list (.symbol Form.quote.name :: operands)) =
      .list (.symbol Form.quote.name :: operands) := by
  simp only [rename, if_true]

/-- A lambda form has its operands renamed. -/
theorem rename_lambda (old new : String) (operands : List Value) :
    rename old new (.list (.symbol Form.lambda.name :: operands)) =
      .list (.symbol Form.lambda.name :: renameLambda old new operands) := by
  have hquote : Form.lambda.name ≠ Form.quote.name := by decide
  simp only [rename, if_neg hquote, if_true]

/-- The operands of a lambda form stay as many. -/
theorem length_renameLambda (old new : String) (operands : List Value) :
    (renameLambda old new operands).length = operands.length := by
  cases operands with
  | nil => rfl
  | cons _ rest => rw [renameLambda, renameEach_eq_map, List.length_cons, List.length_map,
      List.length_cons]

/-- Only a list of parameters and a body are renamed to such. -/
theorem exists_of_renameLambda {old new : String} {operands formals : List Value} {body : Value}
    (h : renameLambda old new operands = [.list formals, body]) :
    ∃ fs b, operands = [.list fs, b] := by
  have hlength : operands.length = 2 := by
    rw [← length_renameLambda old new operands, h]
    rfl
  obtain ⟨parameters, b, rfl⟩ := List.length_eq_two.mp hlength
  cases parameters with
  | list fs => exact ⟨fs, b, rfl⟩
  | _ => cases h

/-- A list stays a list. -/
theorem exists_rename_list (old new : String) (items : List Value) :
    ∃ renamed, rename old new (.list items) = .list renamed := by
  match items with
  | [] => exact ⟨[], rfl⟩
  | .symbol head :: operands =>
    rw [rename]
    split
    · exact ⟨_, rfl⟩
    · split <;> exact ⟨_, rfl⟩
  | .number _ :: _ | .boolean _ :: _ | .list _ :: _ | .closure .. :: _ | .foreign _ :: _ =>
    exact ⟨_, rfl⟩

end Value

/-- A lambda form, one of its parameters, and a name to replace it that is not in the form. -/
structure Renaming where
  old : String
  new : String
  parameters : List String
  body : Value
  old_mem : old ∈ parameters
  new_not_mem : new ∉ parameters
  new_absent : body.mentions new = false
  old_free : Form.ofName? old = none
  new_free : Form.ofName? new = none

namespace Renaming

variable (r : Renaming)

/-- The lambda form as it is. -/
def original : Value :=
  .list [.symbol Form.lambda.name, .list (r.parameters.map .symbol), r.body]

/-- The lambda form with the parameter renamed. -/
def renamed : Value :=
  r.original.rename r.old r.new

/-- The renamed form has its parts renamed. -/
theorem renamed_eq : r.renamed = .list [.symbol Form.lambda.name,
    .list (Value.renameEach r.old r.new (r.parameters.map .symbol)),
    r.body.rename r.old r.new] := by
  rfl

/-- A reserved name is not renamed. -/
theorem renameName_reserved (form : Form) : renameName r.old r.new form.name = form.name := by
  refine if_neg fun h => ?_
  have hfree := r.old_free
  rw [← h, Form.ofName?_name] at hfree
  cases hfree

/-- A name that is not reserved is not renamed to one that is. -/
theorem ofName?_renameName {name : String} (h : Form.ofName? name = none) :
    Form.ofName? (renameName r.old r.new name) = none := by
  unfold renameName
  split
  · exact r.new_free
  · exact h

/-- Different names stay different, as long as neither is the new one. -/
theorem renameName_inj {m n : String} (hm : m ≠ r.new) (hn : n ≠ r.new)
    (h : renameName r.old r.new m = renameName r.old r.new n) : m = n := by
  unfold renameName at h
  split at h <;> split at h
  · exact ‹m = r.old›.trans ‹n = r.old›.symm
  · exact absurd h.symm hn
  · exact absurd h hm
  · exact h

end Renaming

/-- An expression with a hole in it. -/
inductive Context where
  | hole
  | within (before : List Value) (inner : Context) (after : List Value)

namespace Context

/-- Put an expression into the hole. -/
def fill (x : Value) : Context → Value
  | .hole => x
  | .within before inner after => .list (before ++ inner.fill x :: after)

/-- The hole is neither in a quotation nor among the parameters of a lambda form. -/
def Evaluated : Context → Prop
  | .hole => True
  | .within before inner _ => before.head? ≠ some (.symbol Form.quote.name) ∧
    before ≠ [.symbol Form.lambda.name] ∧ inner.Evaluated

end Context

/-- Two expressions are equal but for the lambda form, renamed in the second, at one place where it
is evaluated. -/
inductive Renaming.Exchange (r : Renaming) : Value → Value → Prop where
  | same (x : Value) : Exchange r x x
  | lambda : Exchange r r.original r.renamed
  | within {before after : List Value} {x y : Value}
      (unquoted : before.head? ≠ some (.symbol Form.quote.name))
      (no_parameters : before ≠ [.symbol Form.lambda.name]) (inner : Exchange r x y) :
      Exchange r (.list (before ++ x :: after)) (.list (before ++ y :: after))

namespace Renaming.Exchange

variable {r : Renaming} {u v : Value} {xs ys : List Value}

/-- The form and its renaming in a context that evaluates them. -/
theorem fill {context : Context} (h : context.Evaluated) :
    r.Exchange (context.fill r.original) (context.fill r.renamed) := by
  induction context with
  | hole => exact .lambda
  | within before inner after ih => exact .within h.1 h.2.1 (ih h.2.2)

/-- Only a list can differ from its counterpart, and that is a list as well. -/
theorem eq_or_lists (h : r.Exchange u v) : u = v ∨ ∃ xs ys, u = .list xs ∧ v = .list ys := by
  cases h with
  | same => exact .inl rfl
  | lambda => exact .inr ⟨_, _, rfl, r.renamed_eq⟩
  | within => exact .inr ⟨_, _, rfl, rfl⟩

/-- A list with its counterpart: the form itself, or lists of counterparts. Quotations are equal,
and so are the parameters of another lambda form. -/
theorem list_cases {x : Value} (h : r.Exchange (.list (u :: xs)) x) :
    (.list (u :: xs) = r.original ∧ x = r.renamed) ∨
      ∃ v ys, x = .list (v :: ys) ∧ r.Exchange u v ∧ List.Forall₂ r.Exchange xs ys ∧
        (u = .symbol Form.quote.name → xs = ys) ∧
        (u = .symbol Form.lambda.name → xs.head? = ys.head?) := by
  have hrefl (items : List Value) : List.Forall₂ r.Exchange items items :=
    List.forall₂_same.mpr fun item _ => .same item
  generalize hlist : Value.list (u :: xs) = w at h
  cases h with
  | same => exact .inr ⟨u, xs, hlist.symm, .same u, hrefl xs, fun _ => rfl, fun _ => rfl⟩
  | lambda => exact .inl ⟨rfl, rfl⟩
  | @within before after inner inner' unquoted no_parameters hinner =>
    have hitems := Value.list.inj hlist
    cases before with
    | nil =>
      obtain ⟨rfl, rfl⟩ := List.cons.inj hitems
      exact .inr ⟨inner', xs, rfl, hinner, hrefl xs, fun _ => rfl, fun _ => rfl⟩
    | cons head rest =>
      obtain ⟨rfl, rfl⟩ := List.cons.inj hitems
      refine .inr ⟨u, rest ++ inner' :: after, rfl, .same u,
        List.rel_append (hrefl rest) (.cons hinner (hrefl after)), fun hquote => ?_,
        fun hlambda => ?_⟩
      · exact absurd (congrArg some hquote) unquoted
      · cases rest with
        | nil => exact absurd (congrArg ([·]) hlambda) no_parameters
        | cons => rfl

end Renaming.Exchange

end LexicalLisp
