import RamFs.Walk

/-!
Questions about the entries of a volume. None of them changes a world, not even the
time of last access.
-/

namespace RamFs

structure Attributes where
  kind : Kind
  /-- Bytes of a file or of a link's target; names in a directory. -/
  size : Nat
  /-- Names of a file's inode. -/
  links : Nat
  owner : Ownership
  times : Times
  inode : Option InodeId
  deriving DecidableEq, Repr

namespace World

def attributes (world : World) (entry : Entry) : Except Failure Attributes :=
  match entry.node with
  | .directory directory =>
    .ok ⟨.directory, directory.size, 1, entry.owner, entry.times, none⟩
  | .symlink target => .ok ⟨.symlink, target.utf8ByteSize, 1, entry.owner, entry.times, none⟩
  | .file file => do
    let inode ← world.inode file.inode
    return ⟨.file, inode.size, inode.links, entry.owner, entry.times, some file.inode⟩

/-- Attributes of what a path names. A link at the end is followed on request. -/
def metadata (world : World) (id : VolumeId) (path : String) (followLast : Bool := true) :
    Except Failure Attributes := do
  let (_, found) ← world.visit id path followLast
  world.attributes (← world.entry found.entry)

/-- Whether a path names anything once links are followed. -/
def hasEntry (world : World) (id : VolumeId) (path : String) : Bool :=
  (world.metadata id path).isOk

/-- Names and kinds in a directory, in collation order. -/
def readDirectory (world : World) (id : VolumeId) (path : String) :
    Except Failure (List (String × Kind)) := do
  let (_, found) ← world.visit id path true
  return (← world.directory found.entry).listing

/-- The target text of a symbolic link. -/
def readLink (world : World) (id : VolumeId) (path : String) : Except Failure String := do
  let (_, found) ← world.visit id path false
  match world.linkTarget? found.entry with
  | some target => return target
  | none => throw .notASymlink

/-- Where a path leads: the one path without links of the entry it names. -/
def canonicalize (world : World) (id : VolumeId) (path : String) : Except Failure Path := do
  let (_, found) ← world.visit id path true
  return found.path

/-- The inode of a file; nothing for any other entry. -/
def inodeOf? (world : World) (id : EntryId) : Option InodeId :=
  match world.entry id >>= Entry.file with
  | .ok file => some file.inode
  | .error _ => none

/-- Whether two paths name one entry or files with the same contents in common. -/
def isSameFile (world : World) (id : VolumeId) (a b : String) : Except Failure Bool := do
  let (_, first) ← world.visit id a true
  let (_, second) ← world.visit id b true
  let inode := world.inodeOf? first.entry
  return first.entry = second.entry || (inode.isSome && inode = world.inodeOf? second.entry)

end World

end RamFs
