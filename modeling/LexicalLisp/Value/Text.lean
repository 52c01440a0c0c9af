import LexicalLisp.Value.Shape

/-!
# Descriptions of values

Messages and log lines describe values in two ways. The inspected form tells a symbol from a
text and a closure from its source; the displayed form shows a symbol by its bare name and a
closure by its source. Items of a list are always inspected.
-/

namespace LexicalLisp

namespace Value

/-- A boolean in messages. -/
def describeTruth (b : Bool) : String :=
  if b then "True" else "False"

mutual

/-- The inspected form of a value. -/
def inspect : Value → String
  | .number n => n.fullText
  | .boolean b => describeTruth b
  | .symbol name => "Symbol(" ++ quoted name ++ ")"
  | .list items => "[" ++ ", ".intercalate (inspectEach items) ++ "]"
  | .closure tag formals body frame =>
    "<Lambda " ++ render (.closure tag formals body frame) ++ ">"
  | .foreign f => f.inspect

/-- The inspected forms of the items of a list. -/
def inspectEach : List Value → List String
  | [] => []
  | v :: rest => inspect v :: inspectEach rest

end

mutual

/-- Closures are described by their source, so their integers have to be within range. -/
def describable : Value → Bool
  | .list items => describableEach items
  | .closure tag formals body frame => withinRange (.closure tag formals body frame)
  | _ => true

/-- Every item of a list can be described. -/
def describableEach : List Value → Bool
  | [] => true
  | v :: rest => describable v && describableEach rest

end

/-- The inspected form of a list of values. -/
def inspectAll (values : List Value) : String :=
  inspect (.list values)

/-- The displayed form of a value. -/
def display : Value → String
  | .symbol name => name
  | .closure tag formals body frame => render (.closure tag formals body frame)
  | .foreign (.text s) => s
  | v => inspect v

end Value

end LexicalLisp
