import Mathlib.Data.List.Nodup
import Mathlib.Data.List.Pairwise
import Mathlib.Order.Nat
import RamFs.RangeLock

/-!
Locks on byte ranges exclude each other. A session of lock calls keeps the locks and
copies that were handed out and, beside the table, the locks that stand: granted, and not
released through any copy. The records of the table lie one after the other, so the two
neighbours of a request speak for all of them, and each standing lock has its record.

The last offset is the exception. Ends are computed up to the largest offset, so no
record reaches the last byte: two locks that both start there are granted, and the second
takes the place of the first one's record.
-/

namespace RamFs

/-- Whether a byte lies in the lock's range. No byte lies past the largest offset. -/
def RangeLock.Covers (lock : RangeLock) (byte : Nat) : Prop :=
  lock.offset ≤ byte ∧ byte < lock.offset + lock.length ∧ byte ≤ maxOffset

instance (lock : RangeLock) (byte : Nat) : Decidable (lock.Covers byte) :=
  inferInstanceAs (Decidable (_ ∧ _ ∧ _))

/-- What the table writes down for a lock. -/
def RangeLock.entry (lock : RangeLock) : LockRecord :=
  ⟨lock.offset, rangeEnd lock.offset lock.length, lock.id⟩

/-- Whether one record lies before another. -/
def LockRecord.Before (one other : LockRecord) : Prop :=
  one.start < other.start ∧ one.finish ≤ other.start

/-- Whether one of two records lies before the other. -/
def LockRecord.Apart (one other : LockRecord) : Prop :=
  one.Before other ∨ other.Before one

instance : Std.Symm LockRecord.Apart :=
  ⟨fun _ _ => Or.symm⟩

/-- A call on the locks of one file. A lock that was handed out is named by its place
among the locks and copies handed out so far. -/
inductive LockCall where
  | tryLock (offset length : Nat)
  | lock (offset length : Nat) (cancelled : Bool)
  | clone (place : Nat)
  | release (place : Nat)

/-- The lock table of one file and what its callers hold. -/
structure LockSession where
  table : LockTable := {}
  /-- Locks and copies of them, in the order they were handed out. -/
  held : List RangeLock := []
  /-- Locks that were granted and not released since. -/
  standing : List RangeLock := []

namespace LockSession

def grant (session : LockSession) (answer : Except Failure (RangeLock × LockTable)) :
    LockSession :=
  match answer with
  | .error _ => session
  | .ok (lock, table) =>
    { table, held := session.held ++ [lock], standing := session.standing ++ [lock] }

def step (session : LockSession) : LockCall → LockSession
  | .tryLock offset length => session.grant (session.table.tryLock offset length)
  | .lock offset length cancelled => session.grant (session.table.lock offset length cancelled)
  | .clone place =>
    match session.held[place]? with
    | none => session
    | some lock => { session with held := session.held ++ [lock] }
  | .release place =>
    match session.held[place]? with
    | none => session
    | some lock =>
      { session with
        table := session.table.release lock
        standing := session.standing.filter (· ≠ lock) }

/-- The session after some calls on a file without locks. -/
def run (calls : List LockCall) : LockSession :=
  calls.foldl step {}

end LockSession

namespace LockTable

variable {table after : LockTable} {offset length : Nat} {cancelled : Bool} {lock : RangeLock}
  {new record : LockRecord}

theorem tryLock_eq_ok (h : table.tryLock offset length = .ok (lock, after)) :
    0 < length ∧ table.conflicts offset length = false ∧
      lock = ⟨table.lastId + 1, offset, length⟩ ∧
      after = ⟨table.record lock.entry, table.valid ++ [lock], table.lastId + 1⟩ := by
  unfold tryLock at h
  split at h
  case isTrue => simp at h
  case isFalse hlength =>
    split at h
    case isTrue => simp at h
    case isFalse hconflicts =>
      obtain ⟨rfl, rfl⟩ : _ = lock ∧ _ = after := by simpa using h
      exact ⟨Nat.pos_of_ne_zero hlength, by simpa using hconflicts, rfl, rfl⟩

theorem lock_eq_ok (h : table.lock offset length cancelled = .ok (lock, after)) :
    table.tryLock offset length = .ok (lock, after) := by
  unfold LockTable.lock at h
  split at h
  case isTrue => simp at h
  case isFalse => exact h

/-- The nearest record at or before a free offset speaks for all that start there. -/
theorem finish_le_of_free (hapart : table.records.Pairwise LockRecord.Before)
    (hfree : table.conflicts offset length = false) (hmem : record ∈ table.records)
    (hstart : record.start ≤ offset) : record.finish ≤ offset := by
  have hbelow : record ∈ table.records.filter (·.start ≤ offset) := by
    simpa using ⟨hmem, hstart⟩
  have hfloor : (table.floor? offset).any (offset < ·.finish) = false := by
    simp only [conflicts, Bool.or_eq_false_iff] at hfree
    exact hfree.1
  unfold floor? at hfloor
  cases hlast : (table.records.filter (·.start ≤ offset)).getLast? with
  | none =>
    rw [List.getLast?_eq_none_iff.mp hlast] at hbelow
    simp at hbelow
  | some last =>
    have hfinish : last.finish ≤ offset := by simpa [hlast] using hfloor
    obtain ⟨rest, hrest⟩ := List.getLast?_eq_some_iff.mp hlast
    have hsorted := hapart.filter fun record => decide (record.start ≤ offset)
    have hlower : last.start ≤ offset := by
      have : last ∈ table.records.filter (·.start ≤ offset) := by simp [hrest]
      simpa using (List.mem_filter.mp this).2
    rw [hrest] at hbelow hsorted
    rcases List.mem_append.mp hbelow with hearlier | hsame
    · have hbefore := (List.pairwise_append.mp hsorted).2.2 record hearlier last (by simp)
      exact hbefore.2.trans hlower
    · rwa [List.mem_singleton.mp hsame]

/-- The nearest record past a free range speaks for all that start there. -/
theorem end_le_of_free (hapart : table.records.Pairwise LockRecord.Before)
    (hfree : table.conflicts offset length = false) (hmem : record ∈ table.records)
    (hstart : offset < record.start) : rangeEnd offset length ≤ record.start := by
  have habove : record ∈ table.records.filter (offset < ·.start) := by
    simpa using ⟨hmem, hstart⟩
  have hceiling : (table.ceiling? offset).any (·.start < rangeEnd offset length) = false := by
    simp only [conflicts, Bool.or_eq_false_iff] at hfree
    exact hfree.2
  unfold ceiling? at hceiling
  have hsorted := hapart.filter fun record => decide (offset < record.start)
  cases hlist : table.records.filter (offset < ·.start) with
  | nil => simp [hlist] at habove
  | cons first rest =>
    have hfirst : rangeEnd offset length ≤ first.start := by simpa [hlist] using hceiling
    rw [hlist] at habove hsorted
    rcases List.mem_cons.mp habove with hsame | hlater
    · rwa [hsame]
    · exact hfirst.trans ((List.pairwise_cons.mp hsorted).1 record hlater).1.le

theorem mem_record : record ∈ table.record new ↔
    record = new ∨ record ∈ table.records ∧ record.start ≠ new.start := by
  simp only [LockTable.record, List.mem_append, List.mem_cons, List.mem_filter,
    decide_eq_true_eq]
  constructor
  · rintro (⟨hmem, hlt⟩ | hsame | ⟨hmem, hlt⟩)
    · exact .inr ⟨hmem, hlt.ne⟩
    · exact .inl hsame
    · exact .inr ⟨hmem, hlt.ne'⟩
  · rintro (hsame | ⟨hmem, hne⟩)
    · exact .inr (.inl hsame)
    · rcases Nat.lt_or_gt_of_ne hne with hlt | hlt
      · exact .inl ⟨hmem, hlt⟩
      · exact .inr (.inr ⟨hmem, hlt⟩)

/-- A record of a free range keeps the records one after the other. -/
theorem record_apart (hapart : table.records.Pairwise LockRecord.Before)
    (hfree : table.conflicts new.start length = false)
    (hfinish : new.finish = rangeEnd new.start length) :
    (table.record new).Pairwise LockRecord.Before := by
  have hbelow : ∀ record ∈ table.records, record.start < new.start → record.Before new :=
    fun record hmem hlt => ⟨hlt, finish_le_of_free hapart hfree hmem hlt.le⟩
  have habove : ∀ record ∈ table.records, new.start < record.start → new.Before record :=
    fun record hmem hlt => ⟨hlt, hfinish ▸ end_le_of_free hapart hfree hmem hlt⟩
  refine List.pairwise_append.mpr ⟨hapart.filter _, List.pairwise_cons.mpr ⟨?_, hapart.filter _⟩, ?_⟩
  · intro record hmem
    obtain ⟨hmem, hlt⟩ := List.mem_filter.mp hmem
    exact habove record hmem (by simpa using hlt)
  · intro one hone other hother
    obtain ⟨hone, hlt⟩ := List.mem_filter.mp hone
    have hbefore := hbelow one hone (by simpa using hlt)
    rcases List.mem_cons.mp hother with hsame | hother
    · rwa [hsame]
    · obtain ⟨hother, hgt⟩ := List.mem_filter.mp hother
      have hafter := habove other hother (by simpa using hgt)
      exact ⟨hbefore.1.trans hafter.1, hbefore.2.trans hafter.1.le⟩

theorem isValid_iff : table.isValid lock = true ↔ ∃ other ∈ table.valid, other.id = lock.id := by
  simp [isValid]

end LockTable

/-- What every session keeps. -/
structure LockSession.Exact (session : LockSession) : Prop where
  valid : session.table.valid = session.standing
  apart : session.table.records.Pairwise LockRecord.Before
  issued : ∀ lock ∈ session.held, lock.id ≤ session.table.lastId
  /-- Copies with one number are copies of one lock. -/
  named : ∀ one ∈ session.held, ∀ other ∈ session.held, one.id = other.id → one = other
  standing_held : ∀ lock ∈ session.standing, lock ∈ session.held
  once : session.standing.Nodup
  positive : ∀ lock ∈ session.standing, 0 < lock.length
  /-- A lock loses its record to another one only at the last offset. -/
  recorded : ∀ lock ∈ session.standing, lock.offset < maxOffset →
    lock.entry ∈ session.table.records
  owned : ∀ record ∈ session.table.records, ∃ lock ∈ session.standing, lock.entry = record

namespace LockSession.Exact

variable {session : LockSession} {lock : RangeLock} {after : LockTable} {offset length : Nat}

theorem start : ({} : LockSession).Exact := by
  constructor <;> simp

theorem not_held (h : session.Exact) (hid : lock.id = session.table.lastId + 1) :
    lock ∉ session.held := by
  intro hmem
  have := h.issued lock hmem
  omega

/-- A record that has to give way starts at the last offset. -/
theorem replaced (h : session.Exact) (hfree : session.table.conflicts offset length = false)
    (hmem : lock ∈ session.standing) (hrecord : lock.entry ∈ session.table.records)
    (hstart : lock.offset = offset) : maxOffset ≤ offset := by
  have hfinish : rangeEnd lock.offset lock.length ≤ offset :=
    LockTable.finish_le_of_free h.apart hfree hrecord hstart.le
  have hpositive := h.positive lock hmem
  simp only [rangeEnd] at hfinish
  omega

theorem grant (h : session.Exact)
    (hok : session.table.tryLock offset length = .ok (lock, after)) :
    LockSession.Exact ⟨after, session.held ++ [lock], session.standing ++ [lock]⟩ := by
  obtain ⟨hlength, hfree, hlock, rfl⟩ := LockTable.tryLock_eq_ok hok
  have hid : lock.id = session.table.lastId + 1 := by rw [hlock]
  have hoffset : lock.offset = offset := by rw [hlock]
  have hsize : lock.length = length := by rw [hlock]
  have hfresh : lock ∉ session.held := h.not_held hid
  have hother : ∀ other ∈ session.held, other.id ≠ lock.id := by
    intro other hmem
    have := h.issued other hmem
    omega
  constructor
  case valid => simp [h.valid]
  case apart =>
    have hfree' : session.table.conflicts lock.entry.start lock.length = false := by
      rw [RangeLock.entry, hoffset, hsize]
      exact hfree
    exact LockTable.record_apart h.apart hfree' rfl
  case issued =>
    intro other hmem
    rcases List.mem_append.mp hmem with hmem | hmem
    · exact (h.issued other hmem).trans (Nat.le_succ _)
    · exact (List.mem_singleton.mp hmem ▸ hid).le
  case named =>
    intro one hone other hmem hsame
    rcases List.mem_append.mp hone with hone | hone <;>
      rcases List.mem_append.mp hmem with hmem | hmem
    · exact h.named one hone other hmem hsame
    · exact absurd (List.mem_singleton.mp hmem ▸ hsame) (hother one hone)
    · exact absurd (List.mem_singleton.mp hone ▸ hsame.symm) (hother other hmem)
    · rw [List.mem_singleton.mp hone, List.mem_singleton.mp hmem]
  case standing_held =>
    intro other hmem
    rcases List.mem_append.mp hmem with hmem | hmem
    · exact List.mem_append_left _ (h.standing_held other hmem)
    · exact List.mem_append_right _ hmem
  case once =>
    refine List.nodup_append'.mpr ⟨h.once, List.nodup_singleton _, ?_⟩
    intro other hmem hsame
    exact hfresh (List.mem_singleton.mp hsame ▸ h.standing_held other hmem)
  case positive =>
    intro other hmem
    rcases List.mem_append.mp hmem with hmem | hmem
    · exact h.positive other hmem
    · rwa [List.mem_singleton.mp hmem, hsize]
  case recorded =>
    intro other hmem hlow
    rcases List.mem_append.mp hmem with hmem | hmem
    · have hrecord := h.recorded other hmem hlow
      refine LockTable.mem_record.mpr (.inr ⟨hrecord, fun hstart => ?_⟩)
      have hstart : other.offset = offset := hstart.trans hoffset
      exact absurd (h.replaced hfree hmem hrecord hstart) (by omega)
    · exact LockTable.mem_record.mpr (.inl (by rw [List.mem_singleton.mp hmem]))
  case owned =>
    intro record hmem
    rcases LockTable.mem_record.mp hmem with rfl | ⟨hmem, -⟩
    · exact ⟨lock, by simp, rfl⟩
    · obtain ⟨other, hmem, hentry⟩ := h.owned record hmem
      exact ⟨other, List.mem_append_left _ hmem, hentry⟩

theorem granted (h : session.Exact)
    (answer : Except Failure (RangeLock × LockTable))
    (hanswer : ∀ lock after, answer = .ok (lock, after) →
      session.table.tryLock offset length = .ok (lock, after)) :
    (session.grant answer).Exact := by
  cases answer with
  | error failure => exact h
  | ok pair => exact h.grant (hanswer pair.1 pair.2 rfl)

theorem clone (h : session.Exact) (hmem : lock ∈ session.held) :
    LockSession.Exact { session with held := session.held ++ [lock] } := by
  have hheld : ∀ other ∈ session.held ++ [lock], other ∈ session.held := by
    intro other hother
    rcases List.mem_append.mp hother with hother | hother
    · exact hother
    · rwa [List.mem_singleton.mp hother]
  exact { h with
    issued := fun other hother => h.issued other (hheld other hother)
    named := fun one hone other hother =>
      h.named one (hheld one hone) other (hheld other hother)
    standing_held := fun other hother => List.mem_append_left _ (h.standing_held other hother) }

theorem isValid_iff (h : session.Exact) (hmem : lock ∈ session.held) :
    session.table.isValid lock = true ↔ lock ∈ session.standing := by
  rw [LockTable.isValid_iff, h.valid]
  constructor
  · rintro ⟨other, hother, hid⟩
    rwa [← h.named other (h.standing_held other hother) lock hmem hid]
  · exact fun hstanding => ⟨lock, hstanding, rfl⟩

theorem release (h : session.Exact) (hmem : lock ∈ session.held) :
    LockSession.Exact { session with
      table := session.table.release lock
      standing := session.standing.filter (· ≠ lock) } := by
  by_cases hvalid : session.table.isValid lock = true
  case neg =>
    -- The lock was released before, through this or another copy.
    have hgone : lock ∉ session.standing := fun hstanding =>
      hvalid ((h.isValid_iff hmem).mpr hstanding)
    have hstanding : session.standing.filter (· ≠ lock) = session.standing := by
      rw [List.filter_eq_self]
      intro other hother
      simpa using fun hsame : other = lock => hgone (hsame ▸ hother)
    simp only [LockTable.release, hvalid, Bool.false_eq_true, if_false, hstanding]
    exact h
  case pos =>
    have hid : ∀ other ∈ session.standing, other.id = lock.id ↔ other = lock := fun other hother =>
      ⟨h.named other (h.standing_held other hother) lock hmem, congrArg RangeLock.id⟩
    simp only [LockTable.release, hvalid, if_true]
    constructor
    case valid =>
      simp only [h.valid]
      exact List.filter_congr fun other hother => by simp [hid other hother]
    case apart => exact h.apart.filter _
    case issued => exact h.issued
    case named => exact h.named
    case standing_held =>
      exact fun other hother => h.standing_held other (List.mem_of_mem_filter hother)
    case once => exact h.once.filter _
    case positive => exact fun other hother => h.positive other (List.mem_of_mem_filter hother)
    case recorded =>
      intro other hother hlow
      obtain ⟨hother, hne⟩ := List.mem_filter.mp hother
      refine List.mem_filter.mpr ⟨h.recorded other hother hlow, ?_⟩
      have : other.id ≠ lock.id := fun hsame => by simp [(hid other hother).mp hsame] at hne
      simp [RangeLock.entry, this]
    case owned =>
      intro record hrecord
      obtain ⟨hrecord, hkept⟩ := List.mem_filter.mp hrecord
      obtain ⟨other, hother, rfl⟩ := h.owned record hrecord
      refine ⟨other, List.mem_filter.mpr ⟨hother, ?_⟩, rfl⟩
      have hne : other ≠ lock := by
        rintro rfl
        simp [RangeLock.entry] at hkept
      simpa using hne

theorem step (h : session.Exact) (call : LockCall) : (session.step call).Exact := by
  cases call with
  | tryLock offset length => exact h.granted _ fun _ _ hok => hok
  | lock offset length cancelled => exact h.granted _ fun _ _ hok => LockTable.lock_eq_ok hok
  | clone place =>
    simp only [LockSession.step]
    split
    case h_1 => exact h
    case h_2 lock hplace => exact h.clone (List.mem_of_getElem? hplace)
  | release place =>
    simp only [LockSession.step]
    split
    case h_1 => exact h
    case h_2 lock hplace => exact h.release (List.mem_of_getElem? hplace)

theorem foldl (h : session.Exact) (calls : List LockCall) :
    (calls.foldl LockSession.step session).Exact := by
  induction calls generalizing session with
  | nil => exact h
  | cons call calls ih => exact ih (h.step call)

theorem run (calls : List LockCall) : (LockSession.run calls).Exact :=
  start.foldl calls

/-- The locks that share a byte below the last one are the same lock: each has its
record, and records lie one before the other. -/
theorem eq_of_covers (h : session.Exact) {one other : RangeLock} {byte : Nat}
    (hone : one ∈ session.standing) (hother : other ∈ session.standing)
    (hcovers : one.Covers byte) (hcovers' : other.Covers byte) (hbyte : byte < maxOffset) :
    one = other := by
  obtain ⟨hstart, hend, -⟩ := hcovers
  obtain ⟨hstart', hend', -⟩ := hcovers'
  have hentry := h.recorded one hone (hstart.trans_lt hbyte)
  have hentry' := h.recorded other hother (hstart'.trans_lt hbyte)
  have hapart := (h.apart.imp (S := LockRecord.Apart) Or.inl).forall hentry hentry'
  by_contra hne
  have hentries : one.entry ≠ other.entry := fun hsame =>
    hne (h.named one (h.standing_held one hone) other (h.standing_held other hother)
      (congrArg LockRecord.id hsame))
  rcases hapart hentries with ⟨-, hbefore⟩ | ⟨-, hbefore⟩
  · simp only [RangeLock.entry, rangeEnd] at hbefore
    omega
  · simp only [RangeLock.entry, rangeEnd] at hbefore
    omega

/-- Without a lock at the last offset, standing locks and records correspond. -/
theorem count_eq (h : session.Exact) (hlow : ∀ lock ∈ session.standing, lock.offset < maxOffset) :
    session.table.count = session.standing.length := by
  have hrecords : session.table.records.Nodup :=
    h.apart.imp fun hbefore hsame => (hsame ▸ hbefore.1).ne rfl
  have hentries : (session.standing.map RangeLock.entry).Nodup :=
    h.once.map_on fun one hone other hother hsame =>
      h.named one (h.standing_held one hone) other (h.standing_held other hother)
        (congrArg LockRecord.id hsame)
  have hsame : session.table.records.Perm (session.standing.map RangeLock.entry) := by
    refine (List.perm_ext_iff_of_nodup hrecords hentries).mpr fun record => ⟨?_, ?_⟩
    · intro hrecord
      obtain ⟨lock, hlock, hentry⟩ := h.owned record hrecord
      exact List.mem_map.mpr ⟨lock, hlock, hentry⟩
    · intro hrecord
      obtain ⟨lock, hlock, rfl⟩ := List.mem_map.mp hrecord
      exact h.recorded lock hlock (hlow lock hlock)
  rw [LockTable.count, hsame.length_eq, List.length_map]

end LockSession.Exact

/-- After any calls on the locks of one file, two locks that stand share no byte below
the last one, and the table counts the standing locks unless one of them starts at the
last offset. -/
theorem standing_locks_are_apart (calls : List LockCall) :
    ((LockSession.run calls).standing.Pairwise fun one other =>
      ∀ byte < maxOffset, ¬(one.Covers byte ∧ other.Covers byte)) ∧
    ((∀ lock ∈ (LockSession.run calls).standing, lock.offset < maxOffset) →
      (LockSession.run calls).table.count = (LockSession.run calls).standing.length) := by
  have hexact := LockSession.Exact.run calls
  refine ⟨?_, hexact.count_eq⟩
  refine hexact.once.imp_of_mem fun {one other} hone hother hne byte hbyte => ?_
  rintro ⟨hcovers, hcovers'⟩
  exact hne (hexact.eq_of_covers hone hother hcovers hcovers' hbyte)

/-- Two neighbours are granted, a range across both is not, and the copy of a released
lock releases nothing. -/
def LockCall.sample : List LockCall :=
  [.tryLock 0 10, .lock 10 10 false, .tryLock 5 10, .clone 0, .release 0, .tryLock 0 10,
    .release 2]

theorem sample_locks_counted :
    (LockSession.run LockCall.sample).standing = [⟨2, 10, 10⟩, ⟨3, 0, 10⟩] ∧
    (LockSession.run LockCall.sample).table.count = 2 := by
  have hstanding : (LockSession.run LockCall.sample).standing = [⟨2, 10, 10⟩, ⟨3, 0, 10⟩] := by
    decide +kernel
  refine ⟨hstanding, ((standing_locks_are_apart LockCall.sample).2 ?_).trans ?_⟩
  · rw [hstanding]
    decide
  · rw [hstanding]
    rfl

/-- Both locks on the last byte are granted, and one record stands for them. -/
theorem last_byte_locked_twice :
    ∃ calls, ∃ one other : RangeLock, (LockSession.run calls).standing = [one, other] ∧
      one.Covers maxOffset ∧ other.Covers maxOffset ∧
      (LockSession.run calls).table.count = 1 :=
  ⟨[.tryLock maxOffset 1, .tryLock maxOffset 1], ⟨1, maxOffset, 1⟩, ⟨2, maxOffset, 1⟩,
    by decide +kernel, by decide, by decide, by decide +kernel⟩

end RamFs
