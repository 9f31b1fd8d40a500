import RamFs.RangeLock

/-!
What the names of one file share: its contents, the locks on them and the number of
names.
-/

namespace RamFs

structure Inode where
  store : BlockStore
  locks : LockTable := {}
  /-- Number of file entries that use this inode. -/
  links : Nat := 1
  deriving DecidableEq

namespace Inode

def new (maxBlocks : Nat) : Inode :=
  { store := .new maxBlocks }

def size (inode : Inode) : Nat :=
  inode.store.size

/-- Writes at the end of the contents; the offset where the bytes landed. -/
def append (inode : Inode) (bytes : Bytes) : Except Failure (Nat × Inode) := do
  let store ← inode.store.write inode.size bytes
  return (inode.size, { inode with store })

def truncate (inode : Inode) (size : Nat) : Inode :=
  { inode with store := inode.store.truncate size }

/-- A new inode with its own copy of the contents, no locks and one name. -/
def duplicate (inode : Inode) : Inode :=
  { store := inode.store }

def addLink (inode : Inode) : Inode :=
  { inode with links := inode.links + 1 }

def removeLink (inode : Inode) : Inode :=
  { inode with links := inode.links - 1 }

def releaseLock (inode : Inode) (lock : RangeLock) : Inode :=
  { inode with locks := inode.locks.release lock }

end Inode

end RamFs
