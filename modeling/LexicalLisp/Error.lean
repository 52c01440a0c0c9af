import LexicalLisp.Form
import LexicalLisp.Reader
import LexicalLisp.Value.Text

/-!
# Errors

An error records its cause and the values involved; its wording and its kind are derived from
them here and nowhere else.
-/

namespace LexicalLisp

/-- Why a program fails. -/
inductive Error where
  /-- The source text cannot be read. -/
  | unreadable (fault : ReadFault)
  /-- A name is looked up that no enclosing frame binds. -/
  | unbound (name : Value)
  /-- A name is overwritten that no enclosing frame binds. -/
  | overwriteUnbound (name : Value)
  /-- The target of an assignment form is not bound. -/
  | assignUnbound (name : String)
  /-- Something other than a symbol is to be bound. -/
  | bindNonSymbol (name : Value)
  /-- A form has the wrong number of operands. -/
  | operandCount (form : Form)
  /-- The target of a define or assignment form is not a symbol. -/
  | targetNotSymbol (form : Form) (target : Value)
  /-- The parameters of a lambda form are not a list. -/
  | parametersNotList (parameters : Value)
  /-- An arithmetic operand is not a number. -/
  | operandNotNumber (form : Form) (operand : Value)
  /-- A closure is called with the wrong number of arguments. -/
  | argumentCount (closure : Value) (expected given : Nat)
  /-- The name at the head of a list is bound to something other than a closure. -/
  | nameNotFunction (name : String)
  /-- The list at the head of a list evaluates to something other than a closure. -/
  | resultNotFunction (result : Value)
  /-- Something other than a closure is applied. -/
  | notApplicable (head : Value)
  /-- The empty list is evaluated. -/
  | emptyList
  /-- An expression has no evaluation rule. -/
  | invalidExpression (expr : Value)

/-- What an error is about, as hosts report it. -/
inductive ErrorKind where
  | unreadable
  | unboundSymbol
  | invalidSymbol
  | arity
  | type
  | invalidExpression
  deriving DecidableEq, Repr

/-- The label of a kind in reports. -/
def ErrorKind.label : ErrorKind → String
  | .unreadable => "EtoileSyntaxError"
  | .unboundSymbol => "EtoileUnboundSymbol"
  | .invalidSymbol => "EtoileInvalidSymbol"
  | .arity => "EtoileArityError"
  | .type => "EtoileTypeError"
  | .invalidExpression => "EtoileInvalidExpression"

/-- The wording of a reading fault. -/
def ReadFault.message : ReadFault → String
  | .unexpectedEnd => "unexpected end of input"
  | .unexpectedClose => "unexpected close paren"

/-- The operands that a form asks for. -/
def Form.requirement : Form → String
  | .quote => "quote requires exactly 1 argument"
  | .choose => "if requires exactly 3 arguments: (if test then else)"
  | .define => "define requires exactly 2 arguments"
  | .lambda => "lambda requires exactly 2 arguments: (lambda (params) body)"
  | .assign => "set! requires exactly 2 arguments: (set! var value)"
  | .plus => "+ accepts any number of arguments"
  | .minus => "- requires at least 1 argument"
  | .times => "* accepts any number of arguments"
  | .equals => "= requires at least 1 argument"

namespace Error

/-- The kind of an error. -/
def kind : Error → ErrorKind
  | .unreadable _ => .unreadable
  | .unbound _ | .overwriteUnbound _ | .assignUnbound _ => .unboundSymbol
  | .bindNonSymbol _ | .targetNotSymbol _ _ => .invalidSymbol
  | .operandCount _ | .argumentCount _ _ _ => .arity
  | .parametersNotList _ | .operandNotNumber _ _ | .nameNotFunction _ | .resultNotFunction _
  | .notApplicable _ => .type
  | .emptyList | .invalidExpression _ => .invalidExpression

/-- The wording of an error. -/
def message : Error → String
  | .unreadable fault => fault.message
  | .unbound name => s!"Unbound symbol {name.display}"
  | .overwriteUnbound name => s!"Cannot set unbound symbol {name.display}"
  | .assignUnbound name => s!"Cannot set! {name}: it is not defined"
  | .bindNonSymbol name => s!"Cannot define {name.display} as a symbol"
  | .operandCount form => form.requirement
  | .targetNotSymbol form target =>
    s!"{form.name} first argument must be a Symbol, got {target.display}"
  | .parametersNotList parameters =>
    s!"lambda parameters must be a list, got {parameters.display}"
  | .operandNotNumber form operand =>
    s!"All arguments to {form.name} must be numbers, got {operand.inspect}"
  | .argumentCount closure expected given =>
    s!"{closure.display} expects {expected} argument(s), got {given}"
  | .nameNotFunction name => s!"'{name}' is not a function"
  | .resultNotFunction result => s!"{result.inspect} is not a function"
  | .notApplicable head => s!"{head.display} is not a function"
  | .emptyList => "Cannot evaluate empty list"
  | .invalidExpression expr => s!"Invalid expression: {expr.inspect}"

/-- An error with its kind, on one line. -/
def report (e : Error) : String :=
  e.kind.label ++ ": " ++ e.message

end Error

end LexicalLisp
