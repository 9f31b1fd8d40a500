import RamFs.BlockStore

/-!
Advisory locks on byte ranges of one file. Granted ranges are recorded in the order of
their starts, one record for each start, and a request is checked against the nearest
record on either side. Ends are computed up to the largest offset. A lock stays valid
until it is released, which happens once however often it is asked for.
-/

namespace RamFs

/-- End of a range, at most the largest offset. -/
def rangeEnd (offset length : Nat) : Nat :=
  min (offset + length) maxOffset

/-- A granted lock. Copies of it are the same lock. -/
structure RangeLock where
  id : Nat
  offset : Nat
  length : Nat
  deriving DecidableEq, Repr

namespace RangeLock

/-- Whether the lock's range meets the given one. -/
def overlaps (lock : RangeLock) (offset length : Nat) : Bool :=
  offset < rangeEnd lock.offset lock.length && lock.offset < rangeEnd offset length

end RangeLock

structure LockRecord where
  start : Nat
  finish : Nat
  id : Nat
  deriving DecidableEq, Repr

structure LockTable where
  /-- Recorded ranges, by ascending start. -/
  records : List LockRecord := []
  /-- Locks granted and not yet released. -/
  valid : List RangeLock := []
  lastId : Nat := 0
  deriving DecidableEq, Repr

namespace LockTable

def count (table : LockTable) : Nat :=
  table.records.length

def isValid (table : LockTable) (lock : RangeLock) : Bool :=
  table.valid.any (·.id = lock.id)

/-- The last record that starts at `offset` or before. -/
def floor? (table : LockTable) (offset : Nat) : Option LockRecord :=
  (table.records.filter (·.start ≤ offset)).getLast?

/-- The first record that starts after `offset`. -/
def ceiling? (table : LockTable) (offset : Nat) : Option LockRecord :=
  (table.records.filter (offset < ·.start)).head?

def conflicts (table : LockTable) (offset length : Nat) : Bool :=
  (table.floor? offset).any (offset < ·.finish) ||
    (table.ceiling? offset).any (·.start < rangeEnd offset length)

/-- Records a range. A record with the same start gives way. -/
def record (table : LockTable) (new : LockRecord) : List LockRecord :=
  table.records.filter (·.start < new.start) ++ new :: table.records.filter (new.start < ·.start)

/-- Grants a lock at once or refuses it. -/
def tryLock (table : LockTable) (offset length : Nat) : Except Failure (RangeLock × LockTable) :=
  if length = 0 then .error .invalidArgument
  else if table.conflicts offset length then .error .lockConflict
  else
    let id := table.lastId + 1
    let lock : RangeLock := ⟨id, offset, length⟩
    .ok (lock,
      { records := table.record ⟨offset, rangeEnd offset length, id⟩
        valid := table.valid ++ [lock]
        lastId := id })

/-- Like `tryLock`, but a request that is already cancelled is interrupted. -/
def lock (table : LockTable) (offset length : Nat) (cancelled : Bool) :
    Except Failure (RangeLock × LockTable) :=
  if cancelled then .error .interrupted else table.tryLock offset length

/-- Releases a lock; a lock that is released already stays so. Only its own record goes. -/
def release (table : LockTable) (lock : RangeLock) : LockTable :=
  if table.isValid lock then
    { table with
      records := table.records.filter fun r => !(r.start = lock.offset && r.id = lock.id)
      valid := table.valid.filter (·.id ≠ lock.id) }
  else table

end LockTable

end RamFs
