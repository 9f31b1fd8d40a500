import RamFs.Directory
import RamFs.Inode
import RamFs.Path
import RamFs.Resolution

/-!
Entries of the tree. An entry has times and an owner of its own and is a directory, a
file or a symbolic link. A file entry points at an inode, which other entries may
share, counts the handles open on it and remembers whether the last of them is to
remove it.
-/

namespace RamFs

structure Times where
  created : Time
  modified : Time
  accessed : Time
  deriving DecidableEq, Repr

def Times.at (now : Time) : Times :=
  ⟨now, now, now⟩

structure Ownership where
  mode : UInt32
  uid : UInt32
  gid : UInt32
  deriving DecidableEq, Repr

/-- Identity of an inode: its place among all inodes ever made. -/
structure InodeId where
  index : Nat
  deriving DecidableEq, Repr

inductive FileState where
  /-- In a directory, with this many open handles. -/
  | live (openHandles : Nat)
  /-- Taken out of its directory. -/
  | pendingDeletion
  deriving DecidableEq, Repr

structure FileNode where
  inode : InodeId
  state : FileState := .live 0
  deleteOnClose : Bool := false
  deriving DecidableEq, Repr

namespace FileNode

def openHandles (file : FileNode) : Nat :=
  match file.state with
  | .live count => count
  | .pendingDeletion => 0

/-- One more open handle; a file that is gone cannot be opened. -/
def acquire (file : FileNode) : Except Failure FileNode :=
  match file.state with
  | .live count => .ok { file with state := .live (count + 1) }
  | .pendingDeletion => .error .notFound

/-- One open handle less. -/
def release (file : FileNode) : FileNode :=
  match file.state with
  | .live count => { file with state := .live (count - 1) }
  | .pendingDeletion => file

/-- Whether the file is to be removed now that a handle was closed. -/
def isAbandoned (file : FileNode) : Bool :=
  file.openHandles = 0 && file.deleteOnClose

/-- The file taken out of its directory, which an open handle prevents. -/
def markDeleted (file : FileNode) : Except Failure FileNode :=
  match file.state with
  | .live 0 => .ok { file with state := .pendingDeletion }
  | .live _ => .error .stillOpen
  | .pendingDeletion => .error .notFound

end FileNode

inductive Node where
  | directory (directory : Directory)
  | file (file : FileNode)
  | symlink (target : String)
  deriving DecidableEq, Repr

namespace Node

def kind : Node → Kind
  | directory _ => .directory
  | file _ => .file
  | symlink _ => .symlink

end Node

structure Entry where
  times : Times
  owner : Ownership
  node : Node
  deriving DecidableEq, Repr

namespace Entry

def kind (entry : Entry) : Kind :=
  entry.node.kind

def directory (entry : Entry) : Except Failure Directory :=
  match entry.node with
  | .directory directory => .ok directory
  | _ => .error .notADirectory

def file (entry : Entry) : Except Failure FileNode :=
  match entry.node with
  | .file file => .ok file
  | .directory _ => .error .isADirectory
  | .symlink _ => .error .invalidArgument

def linkTarget? (entry : Entry) : Option String :=
  match entry.node with
  | .symlink target => some target
  | _ => none

/-- A directory must be empty and a file closed before it leaves its parent. -/
def checkRemovable (entry : Entry) : Except Failure Unit :=
  match entry.node with
  | .directory directory => if directory.isEmpty then .ok () else .error .directoryNotEmpty
  | .file file => if file.openHandles > 0 then .error .stillOpen else .ok ()
  | .symlink _ => .ok ()

def touchModified (entry : Entry) (now : Time) : Entry :=
  { entry with times := { entry.times with modified := now, accessed := now } }

def touchAccessed (entry : Entry) (now : Time) : Entry :=
  { entry with times := { entry.times with accessed := now } }

def withDirectory (entry : Entry) (directory : Directory) : Entry :=
  { entry with node := .directory directory }

def withFile (entry : Entry) (file : FileNode) : Entry :=
  { entry with node := .file file }

end Entry

end RamFs
