import RamFs.Proofs.Locks.Roll

/-!
How long locks last. A lock that was handed out stays valid until it is released or its handle is
closed, and nothing but its own release or the end of its handle takes its record away. Three
records have to agree on this: which locks are valid, the records of each table, and what the
handles remember. So an inode that no handle is open on has no lock.
-/

namespace RamFs

open RamFs.Action

variable {world : World} {roll after : LockRoll} {holdings : List Holding} {inode : InodeId}
  {id : HandleId} {grant : Grant} {table : LockTable} {lock : RangeLock}

/-! ### One table -/

theorem LockTable.isValid_release (table : LockTable) (lock other : RangeLock) :
    (table.release lock).isValid other = (table.isValid other && decide (other.id ≠ lock.id)) := by
  rw [Bool.eq_iff_iff, Bool.and_eq_true, decide_eq_true_eq, isValid_iff, isValid_iff]
  unfold release
  split
  case isTrue =>
    simp only [List.mem_filter, decide_eq_true_eq]
    constructor
    · rintro ⟨found, ⟨hfound, hne⟩, hid⟩
      exact ⟨⟨found, hfound, hid⟩, hid ▸ hne⟩
    · rintro ⟨⟨found, hfound, hid⟩, hne⟩
      exact ⟨found, ⟨hfound, hid ▸ hne⟩, hid⟩
  case isFalse hvalid =>
    refine ⟨fun ⟨found, hfound, hid⟩ => ⟨⟨found, hfound, hid⟩, fun hsame => hvalid ?_⟩, And.left⟩
    exact isValid_iff.2 ⟨found, hfound, hid.trans hsame⟩

namespace LockSession.Exact

variable {session : LockSession}

/-- What stands is what the table counts as valid. -/
theorem settle (h : session.Exact) :
    LockSession.Exact { session with standing := session.table.valid } := by
  rw [h.valid]
  exact h

/-- Releasing a lock takes its own record away, if it is there, and no other. -/
theorem mem_release (h : session.Exact) (hmem : lock ∈ session.held) (record : LockRecord) :
    record ∈ (session.table.release lock).records ↔
      record ∈ session.table.records ∧ record ≠ lock.entry := by
  have hsame : ∀ other ∈ session.standing, other.entry.id = lock.id → other = lock :=
    fun other hother => h.named other (h.standing_held other hother) lock hmem
  unfold LockTable.release
  split
  case isTrue =>
    rw [List.mem_filter]
    refine and_congr_right fun hrecord => ?_
    obtain ⟨other, hother, rfl⟩ := h.owned record hrecord
    simp only [Bool.not_eq_true', Bool.and_eq_false_iff, decide_eq_false_iff_not]
    constructor
    · rintro hne hentry
      rw [hentry] at hne
      exact hne.elim (· rfl) (· rfl)
    · exact fun hne => .inr fun hid => hne (congrArg RangeLock.entry (hsame other hother hid))
  case isFalse hvalid =>
    refine ⟨fun hrecord => ⟨hrecord, ?_⟩, And.left⟩
    rintro rfl
    obtain ⟨other, hother, hentry⟩ := h.owned _ hrecord
    obtain rfl := hsame other hother (congrArg LockRecord.id hentry)
    exact hvalid ((h.isValid_iff hmem).2 hother)

end LockSession.Exact

/-! ### The locks that were handed out -/

/-- The locks on the inode, in the order in which they were handed out. -/
def Holding.locksOn (holdings : List Holding) (inode : InodeId) : List RangeLock :=
  (holdings.filter (·.grant.inode = inode)).map (·.grant.lock)

theorem Holding.mem_locksOn :
    lock ∈ locksOn holdings inode ↔ ∃ owner, ⟨owner, inode, lock⟩ ∈ holdings := by
  unfold locksOn
  simp only [List.mem_map, List.mem_filter, decide_eq_true_eq]
  constructor
  · rintro ⟨⟨owner, grant⟩, ⟨hmem, rfl⟩, rfl⟩
    exact ⟨owner, hmem⟩
  · rintro ⟨owner, hmem⟩
    exact ⟨_, ⟨hmem, rfl⟩, rfl⟩

theorem Holding.mem_locksOn_of_mem {holding : Holding} (h : holding ∈ holdings) :
    holding.grant.lock ∈ locksOn holdings holding.grant.inode :=
  mem_locksOn.2 ⟨holding.owner, h⟩

theorem Holding.locksOn_concat (holding : Holding) (inode : InodeId) :
    locksOn (holdings ++ [holding]) inode =
      locksOn holdings inode ++ if holding.grant.inode = inode then [holding.grant.lock] else [] := by
  unfold locksOn
  rw [List.filter_append, List.map_append, List.filter_singleton]
  congr 1
  by_cases hinode : holding.grant.inode = inode <;> simp [hinode]

namespace LockRoll

/-- The locks of one inode as a session of its own. -/
def session (roll : LockRoll) (holdings : List Holding) (inode : InodeId) : LockSession :=
  ⟨roll.table inode, Holding.locksOn holdings inode, (roll.table inode).valid⟩

/-- The roll is true to the locks that were handed out. -/
structure Ledger (roll : LockRoll) (holdings : List Holding) : Prop where
  exact : ∀ inode, (roll.session holdings inode).Exact
  /-- A handle remembers all its locks that are valid. -/
  remembered : ∀ holding ∈ holdings, roll.isValid holding.grant = true →
    holding.grant ∈ roll.grants holding.owner
  /-- It remembers no lock that it did not get. -/
  owned : ∀ {id grant}, grant ∈ roll.grants id → ⟨id, grant⟩ ∈ holdings

theorem isValid_release_self : (roll.release grant).isValid grant = false := by
  unfold isValid
  rw [release_table_self, LockTable.isValid_release, Bool.and_eq_false_iff]
  exact .inr (decide_eq_false fun hne => hne rfl)

theorem isValid_of_release {other : Grant} (h : (roll.release grant).isValid other = true) :
    roll.isValid other = true := by
  unfold isValid at h ⊢
  by_cases hinode : other.inode = grant.inode
  · rw [hinode, release_table_self, LockTable.isValid_release, Bool.and_eq_true] at h
    rw [hinode]
    exact h.1
  · rwa [release_table_of_ne hinode] at h

theorem isValid_of_foldl_release {released : List Grant} {other : Grant} :
    ∀ {roll : LockRoll}, (released.foldl release roll).isValid other = true →
      roll.isValid other = true ∧ other ∉ released := by
  induction released with
  | nil => exact fun h => ⟨h, List.not_mem_nil⟩
  | cons grant rest ih =>
      intro roll h
      obtain ⟨hvalid, hrest⟩ := ih h
      refine ⟨isValid_of_release hvalid, List.not_mem_cons_of_ne_of_not_mem ?_ hrest⟩
      rintro rfl
      exact Bool.false_ne_true (isValid_release_self.symm.trans hvalid)

namespace Ledger

/-- Locks of one inode that have one number are the same lock. -/
theorem grant_eq (h : roll.Ledger holdings) {holding other : Holding} (hmem : holding ∈ holdings)
    (hother : other ∈ holdings) (hinode : other.grant.inode = holding.grant.inode)
    (hid : other.grant.lock.id = holding.grant.lock.id) : other.grant = holding.grant := by
  obtain ⟨owner, inode, lock⟩ := holding
  obtain ⟨owner', inode', lock'⟩ := other
  obtain rfl : inode' = inode := hinode
  exact congrArg (Grant.mk inode') <| (h.exact inode').named lock'
    (Holding.mem_locksOn.2 ⟨owner', hother⟩) lock (Holding.mem_locksOn.2 ⟨owner, hmem⟩) hid

theorem isValid_release (h : roll.Ledger holdings) {holding other : Holding}
    (hmem : holding ∈ holdings) (hother : other ∈ holdings) (hne : other.grant ≠ holding.grant) :
    (roll.release holding.grant).isValid other.grant = roll.isValid other.grant := by
  unfold isValid
  by_cases hinode : other.grant.inode = holding.grant.inode
  · have hid : other.grant.lock.id ≠ holding.grant.lock.id := fun hid =>
      hne (h.grant_eq hmem hother hinode hid)
    rw [hinode, release_table_self, LockTable.isValid_release, decide_eq_true hid, Bool.and_true]
  · rw [release_table_of_ne hinode]

theorem release (h : roll.Ledger holdings) {holding : Holding} (hmem : holding ∈ holdings) :
    (roll.release holding.grant).Ledger holdings where
  exact inode := by
    unfold session
    by_cases hinode : inode = holding.grant.inode
    · subst hinode
      rw [release_table_self]
      exact ((h.exact _).release (Holding.mem_locksOn_of_mem hmem)).settle
    · rw [release_table_of_ne hinode]
      exact h.exact inode
  remembered other hother hvalid := h.remembered other hother (isValid_of_release hvalid)
  owned := h.owned

theorem foldl_release {released : List Grant} (hreleased : ∀ grant ∈ released,
    ∃ owner, ⟨owner, grant⟩ ∈ holdings) :
    ∀ {roll : LockRoll}, roll.Ledger holdings →
      (released.foldl LockRoll.release roll).Ledger holdings := by
  induction released with
  | nil => exact fun h => h
  | cons grant rest ih =>
      intro roll h
      obtain ⟨hgrant, hrest⟩ := List.forall_mem_cons.1 hreleased
      obtain ⟨owner, hmem⟩ := hgrant
      exact ih hrest (h.release hmem)

theorem grants_foldl_release (released : List Grant) : ∀ roll : LockRoll,
    (released.foldl LockRoll.release roll).grants = roll.grants := by
  induction released with
  | nil => exact fun _ => rfl
  | cons grant rest ih => exact fun roll => ih (roll.release grant)

theorem shut (h : roll.Ledger holdings) (id : HandleId) : (roll.shut id).Ledger holdings := by
  have hreleased := foldl_release (fun grant hgrant => ⟨id, h.owned hgrant⟩) h
  constructor
  case exact => exact hreleased.exact
  case remembered =>
    intro holding hmem hvalid
    have hkept := hreleased.remembered holding hmem hvalid
    have hother : holding.grant ∉ roll.grants id := (isValid_of_foldl_release hvalid).2
    rw [grants_foldl_release] at hkept
    change holding.grant ∈ Function.update roll.grants id [] holding.owner
    rwa [Function.update_of_ne]
    rintro rfl
    exact hother hkept
  case owned =>
    intro other grant hgrant
    change grant ∈ Function.update roll.grants id [] other at hgrant
    by_cases hother : other = id
    · rw [hother, Function.update_self] at hgrant
      cases hgrant
    · rw [Function.update_of_ne hother] at hgrant
      exact h.owned hgrant

section Hand

variable {offset length : Nat} {locks : LockTable}

/-- A lock that is handed out has a number of its own. -/
theorem fresh (h : roll.Ledger holdings)
    (hlock : (roll.table grant.inode).tryLock offset length = .ok (grant.lock, locks))
    {holding : Holding} (hmem : holding ∈ holdings) (hinode : holding.grant.inode = grant.inode) :
    holding.grant.lock.id ≠ grant.lock.id := by
  obtain ⟨-, -, hgranted, -⟩ := LockTable.tryLock_eq_ok hlock
  have hissued : holding.grant.lock.id ≤ (roll.table grant.inode).lastId :=
    (h.exact grant.inode).issued _ (hinode ▸ Holding.mem_locksOn_of_mem hmem)
  rw [hgranted]
  exact Nat.ne_of_lt (Nat.lt_succ_of_le hissued)

theorem isValid_hand (h : roll.Ledger holdings)
    (hlock : (roll.table grant.inode).tryLock offset length = .ok (grant.lock, locks)) :
    (roll.hand id grant locks).isValid grant = true := by
  have hvalid : locks.valid = _ := ((h.exact grant.inode).grant hlock).valid
  unfold isValid
  rw [hand_table_self, LockTable.isValid_iff, hvalid]
  exact ⟨grant.lock, List.mem_append_right _ (List.mem_singleton_self _), rfl⟩

/-- What is valid when another lock is handed out was valid before. -/
theorem isValid_of_hand (h : roll.Ledger holdings)
    (hlock : (roll.table grant.inode).tryLock offset length = .ok (grant.lock, locks))
    {holding : Holding} (hmem : holding ∈ holdings)
    (hvalid : (roll.hand id grant locks).isValid holding.grant = true) :
    roll.isValid holding.grant = true := by
  unfold isValid at hvalid ⊢
  by_cases hinode : holding.grant.inode = grant.inode
  · have hlocks : locks.valid = _ := ((h.exact grant.inode).grant hlock).valid
    rw [hinode, hand_table_self, LockTable.isValid_iff, hlocks] at hvalid
    obtain ⟨found, hfound, hid⟩ := hvalid
    rw [hinode, LockTable.isValid_iff]
    rcases List.mem_append.1 hfound with hold | hnew
    · exact ⟨found, hold, hid⟩
    · rw [List.mem_singleton.1 hnew] at hid
      exact absurd hid.symm (h.fresh hlock hmem hinode)
  · rwa [hand_table_of_ne hinode] at hvalid

theorem hand (h : roll.Ledger holdings)
    (hlock : (roll.table grant.inode).tryLock offset length = .ok (grant.lock, locks))
    (halike : ∀ kept ∈ roll.grants id, kept.inode = grant.inode) :
    (roll.hand id grant locks).Ledger (holdings ++ [⟨id, grant⟩]) := by
  have hgranted := (h.exact grant.inode).grant hlock
  constructor
  case exact =>
    intro inode
    unfold session
    rw [Holding.locksOn_concat]
    by_cases hinode : grant.inode = inode
    · subst hinode
      rw [hand_table_self, if_pos rfl]
      exact hgranted.settle
    · rw [hand_table_of_ne (Ne.symm hinode), if_neg hinode, List.append_nil]
      exact h.exact inode
  case remembered =>
    intro holding hmem hstill
    change holding.grant ∈ Function.update roll.grants id _ holding.owner
    rcases List.mem_append.1 hmem with hold | hnew
    · have hkept := h.remembered holding hold (h.isValid_of_hand hlock hold hstill)
      by_cases howner : holding.owner = id
      · subst howner
        rw [Function.update_self]
        refine List.mem_append_left _ (List.mem_filter.2 ⟨hkept, ?_⟩)
        unfold isValid at hstill
        rwa [halike _ hkept, hand_table_self] at hstill
      · rwa [Function.update_of_ne howner]
    · obtain rfl := List.mem_singleton.1 hnew
      rw [Function.update_self]
      exact List.mem_append_right _ (List.mem_singleton_self _)
  case owned =>
    intro other kept hkept
    change kept ∈ Function.update roll.grants id _ other at hkept
    by_cases hother : other = id
    · subst hother
      rw [Function.update_self] at hkept
      rcases List.mem_append.1 hkept with hold | hnew
      · exact List.mem_append_left _ (h.owned (List.mem_filter.1 hold).1)
      · rw [List.mem_singleton.1 hnew]
        exact List.mem_append_right _ (List.mem_singleton_self _)
    · rw [Function.update_of_ne hother] at hkept
      exact List.mem_append_left _ (h.owned hkept)

end Hand

/-- An inode on which no handle remembers a lock has no record of one. -/
theorem count_eq_zero (h : roll.Ledger holdings)
    (hnone : ∀ id, ∀ grant ∈ roll.grants id, grant.inode ≠ inode) :
    (roll.table inode).count = 0 := by
  refine List.length_eq_zero_iff.2 (List.eq_nil_iff_forall_not_mem.2 fun record hrecord => ?_)
  have hexact := h.exact inode
  obtain ⟨lock, hstanding, -⟩ := hexact.owned record hrecord
  have hheld := hexact.standing_held lock hstanding
  obtain ⟨owner, hmem⟩ := Holding.mem_locksOn.1 hheld
  exact hnone owner _ (h.remembered _ hmem ((hexact.isValid_iff hheld).2 hstanding)) rfl

/-- Releasing a lock takes its own record away and no other, on no inode. -/
theorem mem_release (h : roll.Ledger holdings) {holding : Holding} (hmem : holding ∈ holdings)
    (inode : InodeId) (record : LockRecord) :
    record ∈ ((roll.release holding.grant).table inode).records ↔
      record ∈ (roll.table inode).records ∧
        ¬(inode = holding.grant.inode ∧ record = holding.grant.lock.entry) := by
  by_cases hinode : inode = holding.grant.inode
  · subst hinode
    rw [release_table_self]
    have hrecords := (h.exact _).mem_release (Holding.mem_locksOn_of_mem hmem) record
    exact hrecords.trans (and_congr_right fun _ => by simp)
  · rw [release_table_of_ne hinode]
    simp [hinode]

end Ledger

/-- A call leaves the roll true to what was handed out, provided that it releases only that. -/
theorem Step.ledger {call : Call} {handed : Option Holding} (h : roll.Ledger holdings)
    (hstep : roll.Step call handed after)
    (hreleased : ∀ grant, call = .releaseLock grant → ∃ owner, ⟨owner, grant⟩ ∈ holdings) :
    after.Ledger (holdings ++ handed.toList) := by
  cases hstep with
  | stays => rwa [Option.toList_none, List.append_nil]
  | releases grant =>
      obtain ⟨owner, hmem⟩ := hreleased grant rfl
      rw [Option.toList_none, List.append_nil]
      exact h.release hmem
  | closes id =>
      rw [Option.toList_none, List.append_nil]
      exact h.shut id
  | hands call hlock halike => exact h.hand hlock halike

end LockRoll

/-! ### Runs -/

/-- The worlds to which calls lead that release only what was handed out, with all that was handed
out on the way. A lock may be released through any copy, at any time and as often as one likes. -/
inductive ReachableWith : World → List Holding → Prop where
  | start : ReachableWith {} []
  | step {world : World} {holdings : List Holding} (call : Call)
      (released : ∀ grant, call = .releaseLock grant → ∃ owner, ⟨owner, grant⟩ ∈ holdings) :
      ReachableWith world holdings →
      ReachableWith (call.perform world) (holdings ++ (call.handsOut world).toList)

namespace ReachableWith

theorem reachable (h : ReachableWith world holdings) : Reachable world := by
  induction h with
  | start => exact .start
  | step call _ _ ih => exact ih.step call

theorem ledger (h : ReachableWith world holdings) : world.lockRoll.Ledger holdings := by
  induction h with
  | start => exact ⟨fun _ => .start, nofun, nofun⟩
  | step call hreleased hworld ih =>
      exact (call.steps hworld.reachable.sound).ledger ih hreleased

end ReachableWith

/-! ### Worlds -/

namespace World

/-- What handles remember, they remember of the inode that they are open on. -/
theorem handle_of_grantsOf (h : grant ∈ world.grantsOf id) :
    ∃ held, world.handle id = .ok held ∧ held.isOpen = true ∧ held.inode = grant.inode := by
  cases hheld : world.handle id with
  | error failure =>
      rw [grantsOf_of_unknown hheld] at h
      cases h
  | ok held =>
      rw [grantsOf_of_handle hheld] at h
      unfold Handle.grants at h
      split at h
      case isTrue hopen =>
        obtain ⟨_, -, rfl⟩ := List.mem_map.1 h
        exact ⟨held, rfl, hopen, rfl⟩
      case isFalse => cases h

/-- From one world to another in which one of the locks that were handed out is released. -/
structure Frees (world : World) (holdings : List Holding) (grant : Grant) (after : World) : Prop where
  ended : grant.isValid after = false
  others : ∀ other ∈ holdings, other.grant ≠ grant →
    other.grant.isValid after = other.grant.isValid world
  records : ∀ inode record, record ∈ (after.locksOn inode).records ↔
    record ∈ (world.locksOn inode).records ∧
      ¬(inode = grant.inode ∧ record = grant.lock.entry)
  again : grant.isValid world = false → after = world

end World

theorem Grant.release_again (h : grant.isValid world = false) : (grant.release world).2 = world := by
  have hsame : world.inodes.modify grant.inode.index (·.releaseLock grant.lock) = world.inodes := by
    apply Array.ext_getElem?
    intro i
    rw [Array.getElem?_modify]
    split
    case isFalse => rfl
    case isTrue hi =>
      subst hi
      cases hstored : world.inodes[grant.inode.index]? with
      | none => rfl
      | some stored =>
          have hinode : world.inode grant.inode = .ok stored := by
            unfold World.inode
            rw [hstored]
          have hkept : stored.releaseLock grant.lock = stored := by
            unfold Grant.isValid at h
            rw [hinode] at h
            unfold Inode.releaseLock LockTable.release
            rw [if_neg (Bool.eq_false_iff.1 h)]
          exact congrArg some hkept
  exact congrArg (fun inodes => { world with inodes }) hsame

/-- Releasing a lock ends that lock and no other, whatever has been handed out since, and takes away
no other lock's record; releasing it again does nothing. A valid lock belongs to a handle that is
open on its inode, so an inode that no handle is open on has no locks. A lock is valid when it is
handed out, and none that was handed out before. -/
theorem no_lock_outlives_its_handle (h : ReachableWith world holdings) :
    (∀ holding ∈ holdings,
      world.Frees holdings holding.grant (holding.grant.release world).2) ∧
    (∀ holding ∈ holdings, holding.grant.isValid world = true →
      ∃ held, world.handle holding.owner = .ok held ∧ held.isOpen = true ∧
        held.inode = holding.grant.inode) ∧
    (∀ inode stored, world.inode inode = .ok stored →
      (∀ id held, world.handle id = .ok held → held.isOpen = true → held.inode ≠ inode) →
      stored.locks.count = 0) ∧
    ∀ call holding, Call.handsOut world call = some holding →
      holding.grant.isValid (call.perform world) = true ∧
      ∀ other ∈ holdings, other.grant ≠ holding.grant := by
  have hledger := h.ledger
  refine ⟨fun holding hmem => ?_, fun holding hmem hvalid => ?_, fun inode stored hstored hnone => ?_,
    fun call holding hhanded => ?_⟩
  · have hroll := holding.grant.release_roll world
    constructor
    case ended => rw [Grant.isValid_eq, hroll, LockRoll.isValid_release_self]
    case others =>
      intro other hother hne
      rw [Grant.isValid_eq, Grant.isValid_eq, hroll, hledger.isValid_release hmem hother hne]
    case records =>
      have hrecords := hledger.mem_release hmem
      rw [← hroll] at hrecords
      exact hrecords
    case again => exact Grant.release_again
  · rw [Grant.isValid_eq] at hvalid
    exact World.handle_of_grantsOf (hledger.remembered holding hmem hvalid)
  · rw [← World.locksOn_of_inode hstored]
    refine hledger.count_eq_zero fun id grant hgrant => ?_
    obtain ⟨held, hheld, hopen, hinode⟩ := World.handle_of_grantsOf hgrant
    exact hinode ▸ hnone id held hheld hopen
  · have hstep := call.steps h.reachable.sound
    rw [Grant.isValid_eq]
    rw [hhanded] at hstep
    generalize (call.perform world).lockRoll = after at hstep
    cases hstep with
    | hands _ hlock _ =>
        refine ⟨hledger.isValid_hand hlock, fun other hother hsame => ?_⟩
        exact hledger.fresh hlock hother (congrArg Grant.inode hsame)
          (congrArg (RangeLock.id ∘ Grant.lock) hsame)

/-- The world after a call, and all that was handed out up to then. -/
def Call.lend (lent : World × List Holding) (call : Call) : World × List Holding :=
  (call.perform lent.1, lent.2 ++ (call.handsOut lent.1).toList)

/-- Two handles on one file, through two names. The first one gets a lock on a range and releases it,
and the second one gets a lock on the same range. -/
def World.takenOver : World × List Holding :=
  List.foldl Call.lend ({}, []) [.newVolume {}, .onPath ⟨0⟩ (.openFile "/f" .creating),
    .onPath ⟨0⟩ (.createHardLink "/g" "/f"), .onPath ⟨0⟩ (.openFile "/g" .reading),
    .onHandle ⟨0⟩ (.lock 0 10 false), .releaseLock ⟨⟨0⟩, ⟨1, 0, 10⟩⟩,
    .onHandle ⟨1⟩ (.lock 0 10 false)]

/-- Releasing the first lock again does not end the second one. Once the volume is dropped and the
handles are closed, no lock is left. -/
theorem taken_over_lock_stays :
    let closed := List.foldl Call.lend World.takenOver
      [.drop ⟨0⟩, .onHandle ⟨0⟩ .close, .onHandle ⟨1⟩ .close]
    ReachableWith World.takenOver.1 World.takenOver.2 ∧
      World.takenOver.2 = [⟨⟨0⟩, ⟨0⟩, ⟨1, 0, 10⟩⟩, ⟨⟨1⟩, ⟨0⟩, ⟨2, 0, 10⟩⟩] ∧
      ((Grant.mk ⟨0⟩ ⟨1, 0, 10⟩).release World.takenOver.1).2 = World.takenOver.1 ∧
      (Grant.mk ⟨0⟩ ⟨2, 0, 10⟩).isValid World.takenOver.1 = true ∧
      (∃ held, World.takenOver.1.handle ⟨1⟩ = .ok held ∧ held.isOpen = true ∧ held.inode = ⟨0⟩) ∧
      ReachableWith closed.1 closed.2 ∧ (closed.1.inode ⟨0⟩).map (·.locks.count) = .ok 0 := by
  intro closed
  have hfirst : ⟨⟨0⟩, ⟨0⟩, ⟨1, 0, 10⟩⟩ ∈ (List.foldl Call.lend ({}, []) [.newVolume {},
      .onPath ⟨0⟩ (.openFile "/f" .creating), .onPath ⟨0⟩ (.createHardLink "/g" "/f"),
      .onPath ⟨0⟩ (.openFile "/g" .reading), .onHandle ⟨0⟩ (.lock 0 10 false)]).2 := by
    decide +kernel
  have hreach : ReachableWith World.takenOver.1 World.takenOver.2 :=
    ((((((ReachableWith.start.step (.newVolume {}) nofun).step
      (.onPath ⟨0⟩ (.openFile "/f" .creating)) nofun).step
      (.onPath ⟨0⟩ (.createHardLink "/g" "/f")) nofun).step
      (.onPath ⟨0⟩ (.openFile "/g" .reading)) nofun).step
      (.onHandle ⟨0⟩ (.lock 0 10 false)) nofun).step
      (.releaseLock ⟨⟨0⟩, ⟨1, 0, 10⟩⟩) fun _ hsame =>
        ⟨⟨0⟩, Call.releaseLock.inj hsame ▸ hfirst⟩).step (.onHandle ⟨1⟩ (.lock 0 10 false)) nofun
  have hclosed : ReachableWith closed.1 closed.2 :=
    ((hreach.step (.drop ⟨0⟩) nofun).step (.onHandle ⟨0⟩ .close) nofun).step
      (.onHandle ⟨1⟩ .close) nofun
  have hlent : World.takenOver.2 = [⟨⟨0⟩, ⟨0⟩, ⟨1, 0, 10⟩⟩, ⟨⟨1⟩, ⟨0⟩, ⟨2, 0, 10⟩⟩] := by
    decide +kernel
  obtain ⟨hfrees, hopen, -, -⟩ := no_lock_outlives_its_handle hreach
  obtain ⟨-, -, hcount, -⟩ := no_lock_outlives_its_handle hclosed
  rw [hlent] at hfrees hopen
  have hvalid : (Grant.mk ⟨0⟩ ⟨2, 0, 10⟩).isValid World.takenOver.1 = true := by decide +kernel
  refine ⟨hreach, hlent, (hfrees _ List.mem_cons_self).again (by decide +kernel), hvalid,
    hopen ⟨⟨1⟩, ⟨0⟩, ⟨2, 0, 10⟩⟩ (by decide) hvalid, hclosed, ?_⟩
  have hshut : ∀ held ∈ closed.1.handles, held.isOpen = false := by decide +kernel
  cases hstored : closed.1.inode ⟨0⟩ with
  | error failure =>
      have hthere : (closed.1.inode ⟨0⟩).isOk = true := by decide +kernel
      rw [hstored] at hthere
      cases hthere
  | ok stored =>
      refine congrArg Except.ok (hcount ⟨0⟩ stored hstored fun id held hheld hisOpen => ?_)
      have hmem := Array.mem_toList_iff.1 (List.mem_of_getElem? (World.handle_eq_ok hheld))
      cases hisOpen.symm.trans (hshut held hmem)

end RamFs
