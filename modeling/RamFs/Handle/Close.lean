import RamFs.Handle.Transfer

/-!
Locks granted through handles, closing, and files read or written as a whole. A handle
is closed once; that releases its locks, and when it was the last handle on a file
that is to go with it, the name it was opened under is removed, provided that the
name still leads to that very entry.
-/

namespace RamFs

/-- A lock on a range of an inode's bytes. -/
structure Grant where
  inode : InodeId
  lock : RangeLock
  deriving DecidableEq, Repr

namespace Grant

def isValid (grant : Grant) (world : World) : Bool :=
  match world.inode grant.inode with
  | .ok inode => inode.locks.isValid grant.lock
  | .error _ => false

def release (grant : Grant) : Action Unit :=
  modify (·.modifyInode grant.inode (·.releaseLock grant.lock))

end Grant

namespace HandleId

/-- Asks for a lock on a range, without waiting. A request that is already cancelled is
interrupted. The handle remembers what it was granted and forgets what was released. -/
def lock (id : HandleId) (offset length : Nat) (cancelled : Bool := false) : Action Grant := do
  let (handle, inode) ← id.checked Handle.checkOpen
  let (lock, locks) ← inode.locks.lock offset length cancelled
  handle.setInode { inode with locks }
  modify (·.modifyHandle id fun handle =>
    { handle with locks := handle.locks.filter locks.isValid ++ [lock] })
  return ⟨handle.inode, lock⟩

/-- Takes one handle off the count of its entry. Whether the entry is to be removed. -/
def releaseEntry (handle : Handle) : Action Bool := do
  match (← get).entry handle.entry >>= Entry.file with
  | .error _ => return false
  | .ok file =>
    let released := file.release
    modify (·.modifyEntry handle.entry (·.withFile released))
    return released.isAbandoned

/-- Closes a handle. Closing it again does nothing, and a name that cannot be removed
stays. -/
def close (id : HandleId) : Action Unit := do
  let handle ← Action.ask (·.handle id)
  if handle.isOpen then
    modify (·.modifyHandle id fun handle => { handle with isOpen := false, locks := [] })
    handle.locks.forM fun lock => (Grant.mk handle.inode lock).release
    let abandoned ← releaseEntry handle
    let volume ← Action.ask (·.volume handle.volume)
    if volume.isLive then
      handle.volume.releaseHandle
      if abandoned then
        tryCatch (handle.volume.deleteEntry handle.path (some handle.entry)) fun _ => pure ()

end HandleId

namespace VolumeId

/-- All bytes of the file at a path. -/
def readAll (id : VolumeId) (path : String) : Action Bytes := do
  let handle ← id.openFile path .reading
  let outcome ← handle.readToEnd.throughStream.attempt
  handle.close
  outcome

/-- Replaces the contents of the file at a path, which is created if it is not there. -/
def writeAll (id : VolumeId) (path : String) (contents : Bytes) : Action Unit := do
  let handle ← id.openFile path { OpenOptions.creating with truncate := true }
  let outcome ← (handle.writeAll contents).throughStream.attempt
  handle.close
  outcome

end VolumeId

end RamFs
