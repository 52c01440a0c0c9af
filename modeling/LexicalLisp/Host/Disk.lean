import LexicalLisp.Host.Path

/-!
# Files

The program only asks what stands at a path. A disk is the answer to that question for every
path, and a tree of files with a current folder is one way to give it.
-/

namespace LexicalLisp

/-- What stands at a path. -/
inductive Probe where
  | missing
  | notDirectory
  | directory
  | file (bytes : List UInt8)

/-- What stands at each path. -/
abbrev Disk := String → Probe

/-- Files by their names from the top; a folder of its own has no content. -/
structure FileTree where
  entries : List (List String × Option (List UInt8))
  current : List String

namespace FileTree

/-- What stands at the end of a list of names from the top.

Every folder on the way to an entry exists, and so does the current folder. -/
def find (t : FileTree) (names : List String) : Probe :=
  match t.entries.lookup names with
  | some (some bytes) => .file bytes
  | some none => .directory
  | none =>
    if names.isPrefixOf t.current || t.entries.any fun entry => names.isPrefixOf entry.1 then
      .directory
    else .missing

/-- Follow names one by one; only a folder can be entered. -/
def walk (t : FileTree) (here : List String) : List String → Probe
  | [] => t.find here
  | name :: rest =>
    match t.find here with
    | .directory =>
      if name = "" || name = "." then t.walk here rest
      else if name = ".." then t.walk here.dropLast rest
      else t.walk (here ++ [name]) rest
    | .file _ => .notDirectory
    | probe => probe

/-- What stands at a path, seen from the current folder. -/
def disk (t : FileTree) : Disk := fun path =>
  match path.toList with
  | [] => .missing
  | '/' :: _ => t.walk [] (pathNames path)
  | _ => t.walk t.current (pathNames path)

end FileTree

end LexicalLisp
