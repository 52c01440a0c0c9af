import LexicalLisp.Reader

/-!
# Cursors over tokens

A cursor walks a token list, looking one token ahead. Reading through it moves it past what was
read; after a fault it stays where the fault was found, which is behind a closing paren that had
nothing to close, and at the end if tokens ran out.
-/

namespace LexicalLisp

/-- A token list and the number of tokens already passed. -/
structure Cursor where
  tokens : List Token
  position : Nat := 0

namespace Cursor

/-- The tokens not yet passed. -/
def remaining (c : Cursor) : List Token :=
  c.tokens.drop c.position

/-- The next token, if one is left. -/
def peek (c : Cursor) : Option Token :=
  c.remaining.head?

/-- Every token is passed. -/
def atEnd (c : Cursor) : Bool :=
  c.remaining.isEmpty

/-- Pass the next token, if one is left. -/
def advance (c : Cursor) : Option Token × Cursor :=
  match c.peek with
  | none => (none, c)
  | some token => (some token, { c with position := c.position + 1 })

/-- Move to where these tokens are the remaining ones. -/
def seek (c : Cursor) (rest : List Token) : Cursor :=
  { c with position := c.tokens.length - rest.length }

/-- Read one expression. -/
def readOne (c : Cursor) : Except ReadFault Value × Cursor :=
  match LexicalLisp.readOne c.remaining with
  | .value v rest => (.ok v, c.seek rest)
  | .failed fault rest => (.error fault, c.seek rest)

/-- Read every expression that is left. -/
def readAll (c : Cursor) : Except ReadFault (List Value) × Cursor :=
  let drained := drainTokens c.remaining
  match drained.fault with
  | none => (.ok drained.values, c.seek drained.rest)
  | some fault => (.error fault, c.seek drained.rest)

end Cursor

end LexicalLisp
