import LexicalLisp.Number

/-!
# Values

Code is data: an expression and the value it evaluates to have one type. A closure carries the
frame it was created in, and a tag that tells it from every other closure; two closures with the
same parameters and body are still two.

A foreign value comes from the program that embeds the interpreter. The language has no way to
write one, and evaluation refuses it.
-/

namespace LexicalLisp

/-- Frames are named by the order of their creation. -/
abbrev FrameId := Nat

/-- Values that the embedding program may pass in. -/
inductive Foreign where
  | integer (n : Int)
  | text (s : String)
  | nothing
  deriving DecidableEq, Repr

/-- Expressions and the results of evaluating them. -/
inductive Value where
  | number (n : Number)
  | boolean (b : Bool)
  | symbol (name : String)
  | list (items : List Value)
  | closure (tag : Nat) (formals : List Value) (body : Value) (frame : FrameId)
  | foreign (f : Foreign)

instance : Inhabited Value := ⟨.list []⟩

namespace Value

mutual

/-- The two values are one and the same, down to tags and the signs of zeros. -/
def identical : Value → Value → Bool
  | .number m, .number n => decide (m = n)
  | .boolean a, .boolean b => a == b
  | .symbol m, .symbol n => m == n
  | .list xs, .list ys => identicalItems xs ys
  | .closure s xs v e, .closure t ys w f =>
    s == t && e == f && identicalItems xs ys && identical v w
  | .foreign f, .foreign g => f == g
  | _, _ => false

/-- Two lists hold one and the same values. -/
def identicalItems : List Value → List Value → Bool
  | [], [] => true
  | x :: xs, y :: ys => identical x y && identicalItems xs ys
  | _, _ => false

end

mutual

/-- Being identical is being equal. -/
theorem identical_iff (v w : Value) : identical v w = true ↔ v = w := by
  match v with
  | .number _ | .boolean _ | .symbol _ | .foreign _ => cases w <;> simp [identical]
  | .list xs => cases w <;> simp [identical, identicalItems_iff xs]
  | .closure _ xs body _ =>
    cases w <;> simp [identical, identicalItems_iff xs, identical_iff body]
    grind

/-- Holding identical items is being equal. -/
theorem identicalItems_iff (xs ys : List Value) : identicalItems xs ys = true ↔ xs = ys := by
  match xs, ys with
  | [], [] => simp [identicalItems]
  | [], _ :: _ => simp [identicalItems]
  | _ :: _, [] => simp [identicalItems]
  | x :: xs, y :: ys => simp [identicalItems, identical_iff x y, identicalItems_iff xs ys]

end

mutual

/-- Equality in the language: structural on lists, never across kinds, and a closure equals only
itself. -/
def same : Value → Value → Bool
  | .number m, .number n => m.same n
  | .boolean a, .boolean b => a == b
  | .symbol m, .symbol n => m == n
  | .list xs, .list ys => sameItems xs ys
  | .closure s xs v e, .closure t ys w f => identical (.closure s xs v e) (.closure t ys w f)
  | .foreign f, .foreign g => f == g
  | _, _ => false

/-- Two lists of values are equal item by item. -/
def sameItems : List Value → List Value → Bool
  | [], [] => true
  | x :: xs, y :: ys => same x y && sameItems xs ys
  | _, _ => false

end

/-- The name of a symbol. -/
def symbolName? : Value → Option String
  | .symbol name => some name
  | _ => none

/-- Only closures can be applied. -/
def isClosure : Value → Bool
  | .closure .. => true
  | _ => false

/-- The number that a numeric value holds. -/
def number? : Value → Option Number
  | .number n => some n
  | _ => none

/-- A condition fails only on the boolean false; zero and the empty list let it pass. -/
def isFalse : Value → Bool
  | .boolean false => true
  | _ => false

end Value

end LexicalLisp
