import LexicalLisp.Token
import LexicalLisp.Value

/-!
# Reading expressions

A word is a number if all of it is a number literal, and a symbol otherwise. Parens group
expressions into lists.

The reader takes one token at a time and remembers the lists that are still open, innermost
first. A closing paren with no list to close is an error where it stands; a list left open is an
error at the end of the tokens.
-/

namespace LexicalLisp

/-- Why tokens cannot be read. -/
inductive ReadFault where
  | unexpectedEnd
  | unexpectedClose
  deriving DecidableEq, Repr

/-- The expression a single word stands for. -/
def readAtom (text : String) : Value :=
  match Numeral.read? text.toList with
  | some numeral => .number (.ofNumeral numeral)
  | none => .symbol text

/-- Expressions finished so far and lists still open, each newest first. -/
structure Reader where
  finished : List Value := []
  opened : List (List Value) := []

namespace Reader

/-- Add an expression to the innermost open list, or to the finished ones. -/
def put (v : Value) (r : Reader) : Reader :=
  match r.opened with
  | [] => { r with finished := v :: r.finished }
  | items :: outer => { r with opened := (v :: items) :: outer }

/-- Take one token. -/
def feed (r : Reader) : Token → Except ReadFault Reader
  | .atom text => .ok (r.put (readAtom text))
  | .opening => .ok { r with opened := [] :: r.opened }
  | .closing =>
    match r.opened with
    | [] => .error .unexpectedClose
    | items :: outer => .ok ({ r with opened := outer }.put (.list items.reverse))

end Reader

/-- One expression with the tokens after it, or a fault with the tokens not yet looked at. -/
inductive Reading where
  | value (v : Value) (rest : List Token)
  | failed (fault : ReadFault) (rest : List Token)

/-- Feed tokens until an expression is finished. -/
def Reader.next (r : Reader) : List Token → Reading
  | [] => .failed .unexpectedEnd []
  | token :: rest =>
    match r.feed token with
    | .error fault => .failed fault rest
    | .ok r' =>
      match r'.finished with
      | v :: _ => .value v rest
      | [] => r'.next rest

/-- The expressions read before the tokens end or a fault stops the reader. -/
structure Drained where
  values : List Value
  fault : Option ReadFault
  rest : List Token

/-- Feed all tokens. -/
def Reader.drain (r : Reader) : List Token → Drained
  | [] => ⟨r.finished.reverse, if r.opened.isEmpty then none else some .unexpectedEnd, []⟩
  | token :: rest =>
    match r.feed token with
    | .error fault => ⟨r.finished.reverse, some fault, rest⟩
    | .ok r' => r'.drain rest

/-- Read the first expression. -/
def readOne (tokens : List Token) : Reading :=
  Reader.next {} tokens

/-- Read every expression, up to the first fault. -/
def drainTokens (tokens : List Token) : Drained :=
  Reader.drain {} tokens

/-- Read the first expression of a source text; what follows it is ignored. -/
def readFirst (source : String) : Except ReadFault Value :=
  match readOne (tokenize source) with
  | .value v _ => .ok v
  | .failed fault _ => .error fault

/-- Read every expression of a source text. -/
def readAll (source : String) : Except ReadFault (List Value) :=
  let drained := drainTokens (tokenize source)
  match drained.fault with
  | none => .ok drained.values
  | some fault => .error fault

/-- The tokens that reading the first expression looks at. -/
def consumedTokens (tokens : List Token) : List Token :=
  match readOne tokens with
  | .value _ rest => tokens.take (tokens.length - rest.length)
  | .failed _ rest => tokens.take (tokens.length - rest.length)

/-- The greatest number of lists that are open at once while tokens are taken one by one. -/
def deepestNesting (tokens : List Token) : Nat :=
  (tokens.foldl (fun (level, deepest) token =>
    let level := (level + token.weight : Int)
    (level, max deepest level.toNat)) ((0, 0) : Int × Nat)).2

/-- Read one expression off the front of a token list. The tokens it used are removed; on a
fault none are. -/
def takeExpression (tokens : List Token) : Except ReadFault Value × List Token :=
  match readOne tokens with
  | .value v rest => (.ok v, rest)
  | .failed fault _ => (.error fault, tokens)

end LexicalLisp
