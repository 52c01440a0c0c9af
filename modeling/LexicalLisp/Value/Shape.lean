import LexicalLisp.Value
import LexicalLisp.Text.Quoted

/-!
# Printed shapes

Printing sees only the shape of a value: leaves with their text, and groups in parens. A closure
has the shape of the lambda form it came from. A shape is printed flat, on one line, or broken
over several lines when it is too wide.

A group is broken as a whole: its head follows the opening paren, each further member has a line
of its own, two columns deeper per level, and the closing paren ends the last line. The test for
width looks at the flat text of the group and its own indentation, not at what may follow it.

A foreign integer is printed as the number nearest to it. A value that holds one with no finite
number near it should be refused before it is printed.
-/

namespace LexicalLisp

/-- The nesting of printed text. -/
inductive Shape where
  | leaf (text : String)
  | group (members : List Shape)

namespace Shape

mutual

/-- A shape on one line. -/
def flat : Shape → String
  | .leaf text => text
  | .group members => "(" ++ " ".intercalate (flatEach members) ++ ")"

/-- Each member of a group on one line. -/
def flatEach : List Shape → List String
  | [] => []
  | s :: rest => flat s :: flatEach rest

end

/-- Two columns per level; none for a level below zero. -/
def padding (level : Int) : String :=
  String.ofList (List.replicate (2 * level).toNat ' ')

/-- Members on lines of their own, those after the first padded to the level. -/
def stack (level : Int) : List String → String
  | [] => "()"
  | first :: rest => "(" ++ ("\n" ++ padding level).intercalate (first :: rest) ++ ")"

/-- The flat text fits into the width at this level. -/
def fits (width level : Int) (text : String) : Bool :=
  decide (text.length + level * 2 ≤ width)

mutual

/-- A shape within a width, where that is possible. -/
def layout (width level : Int) : Shape → String
  | .leaf text => text
  | .group members =>
    let line := flat (.group members)
    if members.isEmpty || fits width level line then line
    else stack (level + 1) (layoutEach width (level + 1) members)

/-- Each member of a broken group. -/
def layoutEach (width level : Int) : List Shape → List String
  | [] => []
  | s :: rest => layout width level s :: layoutEach width level rest

end

end Shape

/-- The inspected form of a foreign value. -/
def Foreign.inspect : Foreign → String
  | .integer n => toString n
  | .text s => quoted s
  | .nothing => "None"

/-- A foreign integer prints like the number nearest to it, and the others are inspected. -/
def Foreign.plainText : Foreign → String
  | .integer n => (Number.ofInt n).plainText
  | f => f.inspect

/-- A foreign integer is printed as a number only where a finite one is near it. -/
def Foreign.withinRange : Foreign → Bool
  | .integer n => (Number.ofInt n).isFinite
  | _ => true

namespace Value

mutual

/-- Every integer in the value can be printed as a number. -/
def withinRange : Value → Bool
  | .list items => withinRangeEach items
  | .closure _ formals body _ => withinRangeEach formals && withinRange body
  | .foreign f => f.withinRange
  | _ => true

/-- Every integer in the items of a list can be printed as a number. -/
def withinRangeEach : List Value → Bool
  | [] => true
  | v :: rest => withinRange v && withinRangeEach rest

end

/-- The wording for a value with an integer that cannot be printed as a number. -/
def rangeMessage : String := "int too large to convert to float"

mutual

/-- The printed shape of a value. -/
def shape : Value → Shape
  | .number n => .leaf n.plainText
  | .boolean b => .leaf (if b then "true" else "false")
  | .symbol name => .leaf name
  | .list items => .group (shapeEach items)
  | .closure _ formals body _ => .group [.leaf "lambda", .group (shapeEach formals), shape body]
  | .foreign f => .leaf f.plainText

/-- The printed shapes of the items of a list. -/
def shapeEach : List Value → List Shape
  | [] => []
  | v :: rest => shape v :: shapeEach rest

end

/-- A value as source text on one line. -/
def render (v : Value) : String :=
  v.shape.flat

/-- The width that printed results are fitted into unless another is asked for. -/
def standardWidth : Int := 80

/-- A value as source text, broken over lines where it does not fit. -/
def pretty (v : Value) (level width : Int) : String :=
  v.shape.layout width level

end Value

end LexicalLisp
