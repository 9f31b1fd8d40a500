import RamFs.Handle.Open

/-!
Reading and writing through an open handle. Every action first asks whether the handle
is open and then whether it may do what it is asked to. Reads stamp the entry's time of
last access, writes its time of last change as well, and both do so when no byte was
moved. The stream forms of these actions report the same failures as stream errors.
-/

namespace RamFs

namespace Handle

def checkOpen (handle : Handle) : Except Failure Unit :=
  if handle.isOpen then .ok () else .error .closed

def checkReadable (handle : Handle) : Except Failure Unit := do
  handle.checkOpen
  if !handle.options.read then throw .accessDenied

def checkWritable (handle : Handle) : Except Failure Unit := do
  handle.checkOpen
  if !handle.options.write then throw .accessDenied

/-- Stamps the entry that the handle was opened on. -/
def stamp (handle : Handle) (change : Entry → Time → Entry) : Action Unit := do
  let volume ← Action.ask (·.volume handle.volume)
  modify fun world => world.modifyEntry handle.entry (change · (world.now volume))

def setInode (handle : Handle) (inode : Inode) : Action Unit :=
  modify (·.modifyInode handle.inode fun _ => inode)

end Handle

namespace HandleId

/-- The handle and its inode, once the handle passes a check. -/
def checked (id : HandleId) (check : Handle → Except Failure Unit) : Action (Handle × Inode) := do
  let handle ← Action.ask (·.handle id)
  check handle
  let inode ← Action.ask (·.inode handle.inode)
  return (handle, inode)

def setCursor (id : HandleId) (position : Nat) : Action Unit :=
  modify (·.modifyHandle id fun handle => { handle with position })

/-! ### Reading and writing -/

/-- Reads at an offset without moving the cursor. At the end there is nothing to read. -/
def readAt (id : HandleId) (offset count : Nat) : Action Bytes := do
  let (handle, inode) ← id.checked Handle.checkReadable
  handle.stamp Entry.touchAccessed
  return (inode.store.read? offset count).getD []

/-- Reads at the cursor and advances it. -/
def read (id : HandleId) (count : Nat) : Action Bytes := do
  let handle ← Action.ask (·.handle id)
  let bytes ← id.readAt handle.position count
  id.setCursor (handle.position + bytes.length)
  return bytes

/-- Writes at an offset without moving the cursor. -/
def writeAt (id : HandleId) (offset : Nat) (bytes : Bytes) : Action Unit := do
  let (handle, inode) ← id.checked Handle.checkWritable
  let store ← inode.store.write offset bytes
  handle.setInode { inode with store }
  handle.stamp Entry.touchModified

/-- Writes at the cursor, or at the end of the file in append mode, and puts the cursor
behind what was written. -/
def write (id : HandleId) (bytes : Bytes) : Action Unit := do
  let (handle, inode) ← id.checked Handle.checkWritable
  let offset := if handle.options.append then inode.size else handle.position
  let store ← inode.store.write offset bytes
  handle.setInode { inode with store }
  id.setCursor (offset + bytes.length)
  handle.stamp Entry.touchModified

/-- Shrinks the file to `size`, and takes the cursor back to `size` if it is past that. -/
def truncate (id : HandleId) (size : Nat) : Action Unit := do
  let (handle, inode) ← id.checked Handle.checkWritable
  handle.setInode (inode.truncate size)
  id.setCursor (min handle.position size)
  handle.stamp Entry.touchModified

def setPosition (id : HandleId) (position : Nat) : Action Unit := do
  let _ ← id.checked Handle.checkOpen
  id.setCursor position

def size (id : HandleId) : Action Nat := do
  let (_, inode) ← id.checked Handle.checkOpen
  return inode.size

/-- Waits for nothing: contents are always where they belong. -/
def sync (id : HandleId) : Action Unit := do
  let _ ← id.checked Handle.checkOpen

/-- Attributes of the entry that the handle was opened on. -/
def metadata (id : HandleId) : Action Attributes := do
  let (handle, _) ← id.checked Handle.checkOpen
  let entry ← Action.ask (·.entry handle.entry)
  Action.ask (·.attributes entry)

end HandleId

/-! ### Stream forms -/

/-- A step of a world that reports failures as a stream does. -/
abbrev StreamAction (α : Type) := ExceptT StreamError (StateM World) α

namespace Action

def asStream {α : Type} (action : Action α) : StreamAction α := fun world =>
  let (outcome, world) := action world
  (outcome.mapError Failure.toStreamError, world)

/-- An action whose failures have passed through a stream. -/
def throughStream {α : Type} (action : Action α) : Action α := fun world =>
  let (outcome, world) := action world
  (outcome.mapError (.stream ∘ Failure.toStreamError), world)

end Action

/-- From where a new position is counted. -/
inductive SeekOrigin where
  | start
  | current
  | finish
  deriving DecidableEq, Repr

namespace HandleId

/-- Writes everything. Without anything to write, the handle is not even asked. -/
def writeAll (id : HandleId) (bytes : Bytes) : Action Unit :=
  if bytes.isEmpty then pure () else id.write bytes

/-- Reads from the cursor to the end. -/
def readToEnd (id : HandleId) : Action Bytes := do
  let (_, inode) ← id.checked Handle.checkReadable
  id.read inode.size

/-- Moves the cursor and reports it. It may go past the end, but not before the start. -/
def seek (id : HandleId) (origin : SeekOrigin) (distance : Int) : StreamAction Nat := do
  let base ← match origin with
    | .start => pure 0
    | .current => do
      let handle ← (Action.ask (·.handle id)).asStream
      pure handle.position
    | .finish => id.size.asStream
  let target := base + distance
  if target < 0 ∨ target > maxOffset then
    throw ⟨.invalidInput, "seek before start of file"⟩
  (id.setPosition target.toNat).asStream
  return target.toNat

end HandleId

end RamFs
