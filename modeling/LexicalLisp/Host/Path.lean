/-!
# Paths

A path is kept in a normal form: repeated separators and steps to the same folder are dropped,
while steps to the parent are kept, because a folder may be reached in more than one way. Exactly
two separators at the start are told from a single one.
-/

namespace LexicalLisp

/-- The pieces between separators; there is always at least one. -/
def splitSlashes (chars : List Char) : List (List Char) :=
  chars.foldr
    (fun c pieces =>
      if c == '/' then [] :: pieces
      else
        match pieces with
        | [] => [[c]]
        | piece :: rest => (c :: piece) :: rest)
    [[]]

/-- The names in a path, in order, with empty ones where separators meet. -/
def pathNames (text : String) : List String :=
  (splitSlashes text.toList).map String.ofList

/-- A path: the separators it starts with, and the names it goes through. -/
structure Path where
  anchor : String
  parts : List String
  deriving DecidableEq, Repr

namespace Path

/-- The separators that a path starts with. -/
def anchorOf : List Char → String
  | '/' :: '/' :: '/' :: _ => "/"
  | '/' :: '/' :: _ => "//"
  | '/' :: _ => "/"
  | _ => ""

/-- Read a path. -/
def ofText (text : String) : Path :=
  ⟨anchorOf text.toList, (pathNames text).filter fun name => name ≠ "" && name ≠ "."⟩

/-- Write a path; the current folder is a single dot. -/
def text (p : Path) : String :=
  if p.anchor = "" && p.parts.isEmpty then "." else p.anchor ++ "/".intercalate p.parts

/-- The path without its last name. -/
def parent (p : Path) : Path :=
  { p with parts := p.parts.dropLast }

/-- A name inside the folder. -/
def child (p : Path) (name : String) : Path :=
  { p with parts := p.parts ++ [name] }

end Path

end LexicalLisp
