import RamFs.Proofs.Locks.Exclusion
import RamFs.Proofs.Namespace.Reachable

/-!
The two neighbours of a request against all locks that stand. A record that a request is
checked against belongs to a lock that overlaps it; and a lock that overlaps a request has
its record, because it starts before the last offset, and then one of the two neighbours
shows the overlap. A request that is refused leaves no trace.
-/

namespace RamFs

open RamFs.Action

namespace LockTable

variable {table : LockTable} {offset length : Nat} {record : LockRecord}

theorem of_floor?_eq_some (h : table.floor? offset = some record) :
    record ∈ table.records ∧ record.start ≤ offset := by
  have hmem : record ∈ table.records.filter (·.start ≤ offset) := List.mem_of_getLast? h
  simpa using hmem

theorem of_ceiling?_eq_some (h : table.ceiling? offset = some record) :
    record ∈ table.records ∧ offset < record.start := by
  have hmem : record ∈ table.records.filter (offset < ·.start) := List.mem_of_mem_head? h
  simpa using hmem

theorem conflicts_iff : table.conflicts offset length = true ↔
    (∃ below, table.floor? offset = some below ∧ offset < below.finish) ∨
      ∃ above, table.ceiling? offset = some above ∧ above.start < rangeEnd offset length := by
  simp [conflicts, Option.any_eq_true]

/-- A request for some bytes conflicts exactly when a neighbour does. -/
theorem tryLock_eq_lockConflict (hlength : 0 < length) :
    table.tryLock offset length = .error .lockConflict ↔ table.conflicts offset length = true := by
  rw [tryLock, if_neg hlength.ne']
  split
  case isTrue hconflicts => simpa using hconflicts
  case isFalse hfree => simpa using hfree

end LockTable

theorem RangeLock.overlaps_iff {lock : RangeLock} {offset length : Nat} :
    lock.overlaps offset length = true ↔
      offset < lock.entry.finish ∧ lock.entry.start < rangeEnd offset length := by
  simp [overlaps, entry]

namespace LockSession.Exact

variable {session : LockSession} {lock : RangeLock} {offset length : Nat}

/-- The neighbours of a range without any conflict keep all locks that stand away from it. -/
theorem not_overlaps_of_free (h : session.Exact)
    (hfree : session.table.conflicts offset length = false) (hmem : lock ∈ session.standing) :
    lock.overlaps offset length = false := by
  refine Bool.eq_false_iff.mpr fun hoverlaps => ?_
  obtain ⟨hbelow, habove⟩ := RangeLock.overlaps_iff.mp hoverlaps
  -- What overlaps a range starts before the end of it, so not at the last offset.
  have hlow : lock.offset < maxOffset := Nat.lt_of_lt_of_le habove (Nat.min_le_right ..)
  have hrecord := h.recorded lock hmem hlow
  rcases Nat.lt_or_ge offset lock.offset with hstart | hstart
  · exact absurd (LockTable.end_le_of_free h.apart hfree hrecord hstart) (Nat.not_le.mpr habove)
  · exact absurd (LockTable.finish_le_of_free h.apart hfree hrecord hstart) (Nat.not_le.mpr hbelow)

/-- A neighbour in conflict is the record of a lock that overlaps. -/
theorem overlaps_of_conflicts (h : session.Exact) (hlength : 0 < length)
    (hconflicts : session.table.conflicts offset length = true) :
    ∃ lock ∈ session.standing, lock.overlaps offset length = true := by
  rcases LockTable.conflicts_iff.mp hconflicts with
    ⟨below, hfloor, hfinish⟩ | ⟨above, hceiling, hstart⟩
  · obtain ⟨hmem, hbelow⟩ := LockTable.of_floor?_eq_some hfloor
    obtain ⟨lock, hlock, rfl⟩ := h.owned below hmem
    refine ⟨lock, hlock, RangeLock.overlaps_iff.mpr ⟨hfinish, ?_⟩⟩
    simp only [RangeLock.entry, rangeEnd] at hfinish hbelow ⊢
    omega
  · obtain ⟨hmem, habove⟩ := LockTable.of_ceiling?_eq_some hceiling
    obtain ⟨lock, hlock, rfl⟩ := h.owned above hmem
    refine ⟨lock, hlock, RangeLock.overlaps_iff.mpr ⟨?_, hstart⟩⟩
    have hpositive := h.positive lock hlock
    simp only [RangeLock.entry, rangeEnd] at hstart habove ⊢
    omega

theorem conflicts_iff_overlaps (h : session.Exact) (hlength : 0 < length) :
    session.table.conflicts offset length = true ↔
      ∃ lock ∈ session.standing, lock.overlaps offset length = true := by
  refine ⟨h.overlaps_of_conflicts hlength, ?_⟩
  rintro ⟨lock, hmem, hoverlaps⟩
  by_contra hfree
  rw [h.not_overlaps_of_free (Bool.eq_false_iff.mpr hfree) hmem] at hoverlaps
  exact Bool.false_ne_true hoverlaps

end LockSession.Exact

/-- What the table answers to a request; other calls are none. -/
def LockCall.answer? (table : LockTable) : LockCall → Option (Except Failure (RangeLock × LockTable))
  | tryLock offset length => some (table.tryLock offset length)
  | lock offset length cancelled => some (table.lock offset length cancelled)
  | clone _ => none
  | release _ => none

theorem LockSession.step_of_refused {session : LockSession} {call : LockCall} {failure : Failure}
    (h : call.answer? session.table = some (.error failure)) : session.step call = session := by
  cases call with
  | tryLock offset length =>
      have hanswer := Option.some.inj h
      rw [step, hanswer, grant]
  | lock offset length cancelled =>
      have hanswer := Option.some.inj h
      rw [step, hanswer, grant]
  | clone place => cases h
  | release place => cases h

namespace HandleId

/-- From one world to another in which an open handle was granted a lock and remembers it. -/
structure Grants (id : HandleId) (offset length : Nat) (world : World) (held : Handle)
    (stored : Inode) (locks : LockTable) (grant : Grant) (after : World) : Prop where
  known : world.handle id = .ok held
  isOpen : held.isOpen = true
  inode : world.inode held.inode = .ok stored
  on : grant.inode = held.inode
  lock : stored.locks.tryLock offset length = .ok (grant.lock, locks)
  after : after = (world.modifyInode held.inode fun _ => { stored with locks }).modifyHandle id
    fun handle => { handle with locks := handle.locks.filter locks.isValid ++ [grant.lock] }

/-- A handle that is refused a lock has changed nothing: all its questions come first. -/
theorem lock_transacts (id : HandleId) (offset length : Nat) (cancelled : Bool) (world : World) :
    Transacts (id.lock offset length cancelled) world fun grant after =>
      ∃ held stored locks, id.Grants offset length world held stored locks grant after := by
  refine checked_transacts fun held stored hheld hcheck hstored => ?_
  refine transacts_lift_bind fun (lock, locks) hlock => .of_ok rfl ⟨held, stored, locks, ?_⟩
  exact ⟨hheld, Handle.checkOpen_eq_ok.1 hcheck, hstored, rfl, LockTable.lock_eq_ok hlock, rfl⟩

end HandleId

/-- After any calls on the locks of one file, a request for some bytes is in conflict exactly
when it overlaps a lock that stands. A request that is refused, as every request that is
already cancelled is, changes no lock and no record, and through a handle nothing at all. -/
theorem neighbours_find_every_overlap (calls : List LockCall) :
    (∀ offset length, 0 < length →
      ((LockSession.run calls).table.tryLock offset length = .error .lockConflict ↔
        ∃ lock ∈ (LockSession.run calls).standing, lock.overlaps offset length = true)) ∧
    (∀ offset length,
      (LockSession.run calls).table.lock offset length true = .error .interrupted) ∧
    (∀ (call : LockCall) (failure : Failure),
      call.answer? (LockSession.run calls).table = some (.error failure) →
      LockSession.run (calls ++ [call]) = LockSession.run calls) ∧
    ∀ (id : HandleId) (offset length : Nat) (cancelled : Bool) (failure : Failure)
      (world after : World),
      id.lock offset length cancelled world = (.error failure, after) → after = world := by
  have hexact := LockSession.Exact.run calls
  refine ⟨fun offset length hlength => ?_, fun _ _ => rfl, fun call failure hanswer => ?_, ?_⟩
  · rw [LockTable.tryLock_eq_lockConflict hlength, hexact.conflicts_iff_overlaps hlength]
  · rw [LockSession.run, List.foldl_append]
    exact LockSession.step_of_refused hanswer
  · intro id offset length cancelled failure world after hrun
    exact (id.lock_transacts offset length cancelled world).unchanged hrun

/-- A range inside a granted one is asked for, and a range between two of them. A handle is
asked for a range that its own lock meets. -/
theorem sample_locks_overlap :
    (LockSession.run LockCall.sample).table.tryLock 3 2 = .error .lockConflict ∧
    (LockSession.run LockCall.sample).table.tryLock 20 5 ≠ .error .lockConflict ∧
    LockSession.run (LockCall.sample ++ [.lock 3 2 false]) = LockSession.run LockCall.sample ∧
    HandleId.lock ⟨0⟩ 5 10 false (HandleId.lock ⟨0⟩ 0 10 false World.sample).2 =
      (.error .lockConflict, (HandleId.lock ⟨0⟩ 0 10 false World.sample).2) := by
  obtain ⟨hconflicts, -, hrefused, hhandle⟩ := neighbours_find_every_overlap LockCall.sample
  have hstanding : (LockSession.run LockCall.sample).standing = [⟨2, 10, 10⟩, ⟨3, 0, 10⟩] := by
    decide +kernel
  have hinside := (hconflicts 3 2 Nat.two_pos).mpr (by rw [hstanding]; decide)
  have hanswer : (HandleId.lock ⟨0⟩ 5 10 false (HandleId.lock ⟨0⟩ 0 10 false World.sample).2).1 =
      .error .lockConflict := by
    decide +kernel
  refine ⟨hinside, ?_, hrefused (.lock 3 2 false) .lockConflict (congrArg some hinside), ?_⟩
  · rw [Ne, hconflicts 20 5 (by decide), hstanding]
    decide
  · exact Prod.ext hanswer (hhandle ⟨0⟩ 5 10 false .lockConflict _ _ (Prod.ext hanswer rfl))

end RamFs
