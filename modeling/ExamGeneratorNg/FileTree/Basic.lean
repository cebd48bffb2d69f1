import Mathlib.Logic.Function.Basic

/-!
# Trees of files

What is found at a place of a file system: nothing, a file, or a directory, which has a tree of
files under every name.  A path is the list of the names on the way from a tree to a place in it.

`get` and `put` look at the tree at a path and replace it.  The operations of a file system are
partial functions on trees: `none` is the refusal of the operating system.
-/

/-- What is at a place of a file system. -/
inductive FileTree (Name Content : Type)
  | nothing
  | file (content : Content)
  | directory (children : Name → FileTree Name Content)

namespace FileTree

variable {Name Content : Type}

/-! ### Paths -/

/-- What a tree has under a name. -/
def child : FileTree Name Content → Name → FileTree Name Content
  | directory children, name => children name
  | _, _ => nothing

/-- The tree at a path. -/
def get : FileTree Name Content → List Name → FileTree Name Content
  | t, [] => t
  | t, name :: path => (t.child name).get path

def isDirectory : FileTree Name Content → Bool
  | directory _ => true
  | _ => false

def isNothing : FileTree Name Content → Bool
  | nothing => true
  | _ => false

/-- All directories on the way to the place at a path are there. -/
def HasParent : FileTree Name Content → List Name → Prop
  | _, [] => True
  | t, name :: path => t.isDirectory ∧ (t.child name).HasParent path

/-- `HasParent` can be tested. -/
instance decidableHasParent :
    (t : FileTree Name Content) → (path : List Name) → Decidable (t.HasParent path)
  | _, [] => .isTrue trivial
  | t, name :: path =>
    have := decidableHasParent (t.child name) path
    inferInstanceAs (Decidable (t.isDirectory ∧ (t.child name).HasParent path))

def emptyDirectory : FileTree Name Content := directory fun _ => nothing

variable [DecidableEq Name]

/-- Put a tree at a path, in place of what is there.  Where there is no directory to put it into,
nothing changes. -/
def put : FileTree Name Content → List Name → FileTree Name Content → FileTree Name Content
  | _, [], u => u
  | directory children, name :: path, u =>
    directory (Function.update children name ((children name).put path u))
  | nothing, _ :: _, _ => nothing
  | file content, _ :: _, _ => file content

/-- Put a tree under each of some names of the directory at a path, one after another. -/
def putAll (path : List Name) (entries : List (Name × FileTree Name Content))
    (t : FileTree Name Content) : FileTree Name Content :=
  entries.foldl (fun t entry => t.put (path ++ [entry.1]) entry.2) t

/-! ### Operations -/

/-- Create a directory where there is nothing. -/
def createDirectory (path : List Name) (t : FileTree Name Content) :
    Option (FileTree Name Content) :=
  if t.HasParent path ∧ (t.get path).isNothing then some (t.put path emptyDirectory) else none

/-- A file can be written: there is a directory for it, and it does not take the place of one. -/
def Writable (path : List Name) (t : FileTree Name Content) : Prop :=
  t.HasParent path ∧ ¬ (t.get path).isDirectory

instance (path : List Name) (t : FileTree Name Content) : Decidable (t.Writable path) :=
  inferInstanceAs (Decidable (t.HasParent path ∧ ¬ (t.get path).isDirectory))

/-- Write a file, which may replace another file. -/
def write (path : List Name) (content : Content) (t : FileTree Name Content) :
    Option (FileTree Name Content) :=
  if t.Writable path then some (t.put path (file content)) else none

/-- The content of the file at a path. -/
def read (path : List Name) (t : FileTree Name Content) : Option Content :=
  match t.get path with
  | file content => some content
  | _ => none

end FileTree
