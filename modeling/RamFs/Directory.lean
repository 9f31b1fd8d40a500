import RamFs.Collation
import RamFs.Failure

/-!
The names in one directory. Each is bound under the collation key of its own spelling,
so that two spellings of one name cannot be bound side by side, and the bindings are
kept in the order of their keys.
-/

namespace RamFs

inductive Kind where
  | file
  | directory
  | symlink
  deriving DecidableEq, Repr

/-- Identity of an entry: its place among all entries ever made. -/
structure EntryId where
  index : Nat
  deriving DecidableEq, Repr

structure Binding where
  key : String
  /-- The name as it was given. -/
  name : String
  /-- Kind of the entry, which never changes. -/
  kind : Kind
  entry : EntryId
  deriving DecidableEq, Repr

structure Directory where
  bindings : List Binding := []
  deriving DecidableEq, Repr

namespace Directory

def isEmpty (directory : Directory) : Bool :=
  directory.bindings.isEmpty

def size (directory : Directory) : Nat :=
  directory.bindings.length

def lookup? (directory : Directory) (key : String) : Option Binding :=
  directory.bindings.find? (·.key = key)

/-- What `name` is bound to, in whatever spelling. -/
def find? (directory : Directory) (collation : Collation) (name : String) : Option Binding :=
  directory.lookup? (collation.key name)

/-- Puts a binding in front of the first one with a greater key. -/
def insertOrdered (new : Binding) : List Binding → List Binding
  | [] => [new]
  | binding :: rest =>
    if new.key < binding.key then new :: binding :: rest
    else binding :: insertOrdered new rest

/-- Binds a name that is still free. -/
def insert (directory : Directory) (collation : Collation) (name : String) (kind : Kind)
    (entry : EntryId) : Except Failure Directory :=
  let key := collation.key name
  if (directory.lookup? key).isSome then .error .alreadyExists
  else .ok ⟨insertOrdered ⟨key, name, kind, entry⟩ directory.bindings⟩

def erase (directory : Directory) (collation : Collation) (name : String) : Directory :=
  ⟨directory.bindings.filter (·.key ≠ collation.key name)⟩

/-- Names and kinds in the order of the keys. -/
def listing (directory : Directory) : List (String × Kind) :=
  directory.bindings.map fun binding => (binding.name, binding.kind)

end Directory

end RamFs
