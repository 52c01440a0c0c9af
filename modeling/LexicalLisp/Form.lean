/-!
# Reserved forms

Nine names are reserved. A list that starts with one of them is a form with its own rule for its
operands, and no definition of the name changes that.
-/

namespace LexicalLisp

/-- The reserved forms. -/
inductive Form where
  | quote
  | choose
  | define
  | lambda
  | assign
  | plus
  | minus
  | times
  | equals
  deriving DecidableEq, Repr

namespace Form

/-- Every form, in the order of its description. -/
def all : List Form :=
  [.quote, .choose, .define, .lambda, .assign, .plus, .minus, .times, .equals]

/-- The reserved name of a form. -/
def name : Form → String
  | .quote => "quote"
  | .choose => "if"
  | .define => "define"
  | .lambda => "lambda"
  | .assign => "set!"
  | .plus => "+"
  | .minus => "-"
  | .times => "*"
  | .equals => "="

/-- The form that a name is reserved for. -/
def ofName? (name : String) : Option Form :=
  all.find? fun form => form.name = name

/-- Each reserved name belongs to one form. -/
theorem ofName?_name (form : Form) : ofName? form.name = some form := by
  cases form <;> decide

end Form

end LexicalLisp
