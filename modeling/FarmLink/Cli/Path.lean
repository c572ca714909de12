import FarmLink.Dict
import FarmLink.Text.Utf8

/-!
# Path - names of files

A path is its parts between slashes. Empty parts and single dots say nothing and are dropped, so
that paths that differ in them are shown alike; two slashes in front are kept apart from one.
-/

namespace FarmLink.Cli

/-- A path: the slashes in front of it, and its parts. -/
structure Path where
  root : Text
  parts : List Text
deriving DecidableEq, Repr

/-- What a path leads to. -/
inductive FileState
  | content (bs : Bytes)
  | absent
  | unreachable
deriving DecidableEq, Repr

namespace Path

/-- The slashes in front of a path: none, one, or exactly two. -/
def rootOf (t : Text) : Text :=
  match (t.takeWhile fun c : CodePoint => c == '/').length with
  | 0 => []
  | 2 => "//"
  | _ => "/"

/-- Reads a path. -/
def ofText (t : Text) : Path where
  root := rootOf t
  parts := (Text.split '/' t).filter fun part => !part.isEmpty && part != "."

/-- A path as it is shown. -/
def toText (p : Path) : Text :=
  if p.root = [] ∧ p.parts = [] then "." else p.root ++ Text.join "/" p.parts

/-- Whether a path holds a null character, as the name of no file does. -/
def hasNull (p : Path) : Bool := p.toText.any fun c => c.toNat == 0

end Path

/-- Files by their paths, as in a directory with its subdirectories. -/
abbrev FileTree := List (List Text × Bytes)

/-- The longest name of a file, and the longest path, in bytes. -/
def nameLimit : Nat := 255

def pathLimit : Nat := 4095

/-- What a path leads to from a directory of which nothing is known. A name that is too long stops
the search, but not before the directory that it would be in is found. -/
def beyond : List Text → FileState
  | [] => .absent
  | part :: parts =>
    if part = ".." then beyond parts
    else if nameLimit < Text.utf8Size part then .unreachable
    else .absent

namespace FileTree

/-- Whether parts name a directory: the top, or one above a file. -/
def isDirectory (tree : FileTree) (dir : List Text) : Bool :=
  dir.isEmpty || tree.any fun file => dir.length < file.1.length && dir.isPrefixOf file.1

/-- The file that parts lead to from a directory. -/
def walk (tree : FileTree) (dir : List Text) : List Text → FileState
  | [] =>
    match tree.find? fun file => file.1 == dir with
    | some file => .content file.2
    | none => .absent
  | part :: parts =>
    if !tree.isDirectory dir then .absent
    else if part = ".." then
      if dir.isEmpty then beyond parts else walk tree dir.dropLast parts
    else if nameLimit < Text.utf8Size part then .unreachable
    else walk tree (dir ++ [part]) parts

/-- What a path leads to. A null character counts before any length; nothing is known above the top
of the tree. -/
def find (tree : FileTree) (p : Path) : FileState :=
  if p.hasNull then .absent
  else if pathLimit < Text.utf8Size p.toText then .unreachable
  else if p.root != [] then beyond p.parts
  else tree.walk [] p.parts

/-- A tree of files with given names. -/
def ofNames (files : List (Text × Bytes)) : FileTree :=
  files.map fun file => ((Path.ofText file.1).parts, file.2)

end FileTree

end FarmLink.Cli
