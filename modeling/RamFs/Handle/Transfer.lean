import RamFs.Handle.Contents

/-!
Transfers between an open file and a stream, or between two open files. Neither moves
the cursor of the handle it is asked of. A stream is handed back in the state the
transfer left it in, whether it succeeded or not.

A transfer holds the lock of its inode until it is over. If the other handle is of the same
inode, its first read or write that is not refused waits for that lock, and the transfer never
returns. What the definitions for two open files yield there describes no run of the program.
-/

namespace RamFs.HandleId

/-- What a transfer of up to `count` bytes from `offset` on sends, block by block. -/
def outgoing (id : HandleId) (offset count : Nat) : Action (Handle × List Bytes) := do
  let (handle, inode) ← id.checked Handle.checkReadable
  return (handle, inode.store.outgoing offset count)

/-- Sends up to `count` bytes from `offset` on to a sink. -/
def transferTo (id : HandleId) (offset count : Nat) (sink : Sink) :
    StateM World (Except Failure Nat × Sink) := do
  match ← (id.outgoing offset count).run with
  | .error failure => return (.error failure, sink)
  | .ok (handle, pieces) =>
    match deliver Sink.writeAll sink pieces with
    | (.error failure, sink) => return (.error failure, sink)
    | (.ok (), sink) =>
      let stamped ← (handle.stamp Entry.touchAccessed).run
      return (stamped.map fun _ => pieces.flatten.length, sink)

/-- Fills up to `count` bytes at `offset` from a source. Only a transfer that succeeds
and moves a byte stamps the entry. -/
def transferFrom (id : HandleId) (offset count : Nat) (source : Source) :
    StateM World (Except Failure Nat × Source) := do
  match ← (id.checked Handle.checkWritable).run with
  | .error failure => return (.error failure, source)
  | .ok (handle, inode) =>
    let transfer := inode.store.transferFrom offset count source
    let _ ← (handle.setInode { inode with store := transfer.store }).run
    match transfer.result with
    | .error failure => return (.error failure, transfer.source)
    | .ok moved =>
      if moved > 0 then
        let _ ← (handle.stamp Entry.touchModified).run
      return (.ok moved, transfer.source)

/-- Sends bytes to another open file, at its cursor. Between two handles of one inode it never
returns once it comes to a write: the write waits for the lock that the transfer holds. -/
def transferToHandle (id : HandleId) (offset count : Nat) (other : HandleId) : Action Nat := do
  let (handle, pieces) ← id.outgoing offset count
  pieces.forM fun piece => (other.write piece).throughStream
  handle.stamp Entry.touchAccessed
  return pieces.flatten.length

/-- What another open file has to give from its cursor on. A handle that may not be
read fails at the first read. -/
def asSource (id : HandleId) (world : World) : Source :=
  match world.handle id with
  | .error failure => [.failure failure.toStreamError]
  | .ok handle =>
    match handle.checkReadable, world.inode handle.inode with
    | .error failure, _ => [.failure failure.toStreamError]
    | .ok (), .ok inode => [.data ((inode.store.read? handle.position inode.size).getD [])]
    | .ok (), .error failure => [.failure failure.toStreamError]

/-- Accounts for what was read of `before`: the cursor moves behind it, and a read that
was not refused stamps the entry. -/
def consumed (id : HandleId) (before after : Source) : Action Unit := do
  let handle ← Action.ask (·.handle id)
  match handle.checkReadable with
  | .error _ => pure ()
  | .ok () =>
    if before ≠ after then
      id.setCursor (handle.position + (before.remaining.length - after.remaining.length))
      handle.stamp Entry.touchAccessed

/-- Takes bytes from another open file, at its cursor. Between two handles of one inode it never
returns once it comes to a read: the read waits for the lock that the transfer holds. -/
def transferFromHandle (id : HandleId) (offset count : Nat) (other : HandleId) :
    Action Nat := do
  let before := other.asSource (← get)
  let (result, after) ← id.transferFrom offset count before
  other.consumed before after
  result

end RamFs.HandleId
