import Mathlib.Logic.Function.Basic
import RamFs.Proofs.Accounts.Handles
import RamFs.Proofs.Locks.Neighbours

/-!
The roll of locks: the lock table of every inode, and for every open handle the locks that it
remembers. A call may hand out one lock, release one, or close a handle, which releases all that the
handle remembers. Whatever else calls do, they leave the roll alone, whether they succeed or fail.
-/

namespace RamFs

open RamFs.Action

/-- The lock tables of all inodes, and the locks that open handles remember. -/
structure LockRoll where
  table : InodeId → LockTable
  grants : HandleId → List Grant

/-- The locks that are released when the handle is closed. -/
def Handle.grants (held : Handle) : List Grant :=
  if held.isOpen then held.locks.map (Grant.mk held.inode) else []

namespace World

variable {world : World} {inode : InodeId} {stored : Inode} {id : HandleId} {held : Handle}

/-- The lock table of an inode. An inode that is not there has no locks. -/
def locksOn (world : World) (inode : InodeId) : LockTable :=
  (world.inodes[inode.index]?.map Inode.locks).getD {}

def grantsOf (world : World) (id : HandleId) : List Grant :=
  (world.handles[id.index]?.map Handle.grants).getD []

def lockRoll (world : World) : LockRoll :=
  ⟨world.locksOn, world.grantsOf⟩

theorem locksOn_of_inode (h : world.inode inode = .ok stored) : world.locksOn inode = stored.locks := by
  unfold locksOn
  rw [inode_eq_ok h]
  rfl

theorem grantsOf_of_handle (h : world.handle id = .ok held) : world.grantsOf id = held.grants := by
  unfold grantsOf
  rw [← Array.getElem?_toList, handle_eq_ok h]
  rfl

theorem grantsOf_of_unknown {failure : Failure} (h : world.handle id = .error failure) :
    world.grantsOf id = [] := by
  unfold World.handle at h
  unfold grantsOf
  split at h
  case h_1 => cases h
  case h_2 hnone =>
    rw [hnone]
    rfl

theorem locksOn_of_unknown {failure : Failure} (h : world.inode inode = .error failure) :
    world.locksOn inode = {} := by
  unfold World.inode at h
  unfold locksOn
  split at h
  case h_1 => cases h
  case h_2 hnone =>
    rw [hnone]
    rfl

theorem locksOn_modifyInode {change : Inode → Inode} (edit : LockTable → LockTable)
    (h : ∀ stored, world.inodes[inode.index]? = some stored →
      (change stored).locks = edit stored.locks)
    (hnone : world.inodes[inode.index]? = none → edit {} = {}) :
    (world.modifyInode inode change).locksOn =
      Function.update world.locksOn inode (edit (world.locksOn inode)) := by
  funext other
  unfold locksOn World.modifyInode
  rw [Array.getElem?_modify]
  by_cases hother : other = inode
  · subst hother
    rw [if_pos rfl, Function.update_self]
    cases hstored : world.inodes[other.index]? with
    | none => exact (hnone hstored).symm
    | some stored => exact h stored hstored
  · rw [Function.update_of_ne hother, if_neg fun hindex => hother (congrArg InodeId.mk hindex.symm)]

theorem locksOn_modifyInode_same {change : Inode → Inode}
    (h : ∀ stored, world.inodes[inode.index]? = some stored → (change stored).locks = stored.locks) :
    (world.modifyInode inode change).locksOn = world.locksOn := by
  rw [locksOn_modifyInode (fun locks => locks) h fun _ => rfl, Function.update_eq_self]

theorem grantsOf_addHandle {new : Handle} (h : new.locks = []) :
    (world.addHandle new).2.grantsOf = world.grantsOf := by
  funext other
  unfold grantsOf addHandle
  rw [Array.getElem?_push]
  split
  case isTrue hindex =>
    rw [Array.getElem?_eq_none hindex.ge]
    unfold Handle.grants
    simp [h]
  case isFalse => rfl

theorem grantsOf_modifyHandle (hheld : world.handle id = .ok held) (change : Handle → Handle) :
    (world.modifyHandle id change).grantsOf =
      Function.update world.grantsOf id (change held).grants := by
  funext other
  unfold grantsOf World.modifyHandle
  rw [Array.getElem?_modify]
  by_cases hother : other = id
  · subst hother
    rw [if_pos rfl, Function.update_self, ← Array.getElem?_toList, handle_eq_ok hheld]
    rfl
  · rw [Function.update_of_ne hother, if_neg fun hindex => hother (congrArg HandleId.mk hindex.symm)]

end World

/-! ### What leaves the roll alone -/

instance aloof_lockRoll : Aloof World.lockRoll where
  entries := rfl
  inodes := by
    intro world id change h
    exact congrArg (LockRoll.mk · world.grantsOf) <|
      World.locksOn_modifyInode_same fun stored _ => h stored
  new_entry := rfl
  new_inode := by
    intro world inode h
    have htable : (world.addInode inode).2.locksOn = world.locksOn := by
      funext other
      unfold World.locksOn World.addInode
      rw [Array.getElem?_push]
      split
      case isTrue hindex =>
        rw [Array.getElem?_eq_none hindex.ge]
        exact h
      case isFalse => rfl
    exact congrArg (LockRoll.mk · world.grantsOf) htable

instance hollow_lockRoll : Hollow World.lockRoll where
  times _ := rfl
  cursors := by
    intro world id change h
    have hgrants : (world.modifyHandle id change).grantsOf = world.grantsOf := by
      funext other
      unfold World.grantsOf World.modifyHandle
      rw [Array.getElem?_modify]
      split
      case isTrue =>
        rw [Option.map_map]
        congr 2
        funext held
        exact (congrArg Handle.grants (h held) :)
      case isFalse => rfl
    exact congrArg (LockRoll.mk world.locksOn) hgrants
  contents := by
    intro world id inode store hinode
    refine congrArg (LockRoll.mk · world.grantsOf) <|
      World.locksOn_modifyInode_same fun stored hstored => ?_
    rw [World.inode_eq_ok hinode] at hstored
    rw [← Option.some.inj hstored]

/-- A handle that is made remembers no locks yet. -/
theorem VolumeId.openEntry_keeps (id : VolumeId) (volume : Volume) (options : OpenOptions)
    (entry : EntryId) (path : Path) :
    Keeps World.lockRoll (id.openEntry volume options entry path) := by
  have hhandle : ∀ inode, Keeps World.lockRoll
      (Action.add (·.addHandle { volume := id, entry, inode, path, options })) := fun inode =>
    keeps_add fun world => congrArg (LockRoll.mk world.locksOn) (World.grantsOf_addHandle rfl)
  refine (keeps_ask _).bind fun _ => (keeps_lift _).bind fun file => (keeps_lift _).bind fun _ => ?_
  refine .bind (keeps_modify fun _ => Aloof.entries) fun _ => .ite ?_ (hhandle _)
  refine .bind (keeps_modify fun _ => Aloof.inodes fun _ => rfl) fun _ => keeps_get.bind fun _ => ?_
  exact (touchModified_keeps _ _).bind fun _ => hhandle _

theorem VolumeId.openFile_keeps (id : VolumeId) (text : String) (options : OpenOptions) :
    Keeps World.lockRoll (id.openFile text options) := by
  have hreserve : Keeps World.lockRoll id.reserveHandle :=
    (keeps_ask _).bind fun _ => .ite ((keeps_throw _).bind fun _ => keeps_modify fun _ => rfl)
      (keeps_modify fun _ => rfl)
  have hrelease : Keeps World.lockRoll id.releaseHandle := keeps_modify fun _ => rfl
  have htarget : ∀ volume path, Keeps World.lockRoll (id.openTarget volume path options) :=
    fun volume path => keeps_get.bind fun _ =>
      (Keeps.forM (fun _ => hrelease.bind fun _ => hreserve) _).bind fun _ => keeps_lift _
  have hopen : ∀ volume path, Keeps World.lockRoll (id.reserving do
      let target ← id.openTarget volume path options
      let found ← entryToOpen volume target
      id.openEntry volume options found.1 found.2) := by
    intro volume path
    refine hreserve.bind fun _ => Keeps.tryCatch ?_ fun _ => hrelease.bind fun _ => keeps_throw _
    exact (htarget volume path).bind fun target => (entryToOpen_keeps volume target).bind
      fun found => id.openEntry_keeps volume options found.1 found.2
  unfold openFile
  refine .ite ((keeps_throw _).bind fun _ => ?_) ?_
  all_goals
    refine .ite ((keeps_throw _).bind fun _ => ?_) ?_
    all_goals exact (keeps_ask _).bind fun _ => (keeps_lift _).bind fun _ => hopen _ _

/-! ### What changes the roll -/

namespace LockRoll

variable {roll : LockRoll} {id : HandleId}

def isValid (roll : LockRoll) (grant : Grant) : Bool :=
  (roll.table grant.inode).isValid grant.lock

/-- One lock is released. -/
def release (roll : LockRoll) (grant : Grant) : LockRoll :=
  { roll with
    table := Function.update roll.table grant.inode ((roll.table grant.inode).release grant.lock) }

/-- A handle is closed, and all that it remembers is released. -/
def shut (roll : LockRoll) (id : HandleId) : LockRoll :=
  { (roll.grants id).foldl release roll with grants := Function.update roll.grants id [] }

/-- A handle gets a lock and forgets what is not valid any more. -/
def hand (roll : LockRoll) (id : HandleId) (grant : Grant) (locks : LockTable) : LockRoll where
  table := Function.update roll.table grant.inode locks
  grants := Function.update roll.grants id
    ((roll.grants id).filter (locks.isValid ·.lock) ++ [grant])

variable {inode : InodeId} {grant : Grant} {locks : LockTable}

@[simp]
theorem release_table_self :
    (roll.release grant).table grant.inode = (roll.table grant.inode).release grant.lock :=
  Function.update_self ..

@[simp]
theorem release_table_of_ne (h : inode ≠ grant.inode) :
    (roll.release grant).table inode = roll.table inode :=
  Function.update_of_ne h ..

@[simp]
theorem hand_table_self : (roll.hand id grant locks).table grant.inode = locks :=
  Function.update_self ..

@[simp]
theorem hand_table_of_ne (h : inode ≠ grant.inode) :
    (roll.hand id grant locks).table inode = roll.table inode :=
  Function.update_of_ne h ..

/-- Releasing locks does not ask what handles remember. -/
theorem foldl_release (grants : HandleId → List Grant) (released : List Grant) :
    ∀ roll : LockRoll, released.foldl release { roll with grants } =
      { released.foldl release roll with grants } := by
  induction released with
  | nil => exact fun _ => rfl
  | cons grant rest ih => exact fun roll => ih (roll.release grant)

theorem shut_of_nil (h : roll.grants id = []) : roll.shut id = roll := by
  unfold shut
  rw [h, ← h, Function.update_eq_self, h]
  rfl

end LockRoll

variable {world after : World}

theorem Grant.isValid_eq (grant : Grant) (world : World) :
    grant.isValid world = world.lockRoll.isValid grant := by
  change _ = (world.locksOn grant.inode).isValid grant.lock
  unfold Grant.isValid
  cases hinode : world.inode grant.inode with
  | error failure => rw [World.locksOn_of_unknown hinode]; rfl
  | ok stored => rw [World.locksOn_of_inode hinode]

theorem Grant.release_roll (grant : Grant) (world : World) :
    (grant.release world).2.lockRoll = world.lockRoll.release grant :=
  congrArg (LockRoll.mk · world.grantsOf) <|
    World.locksOn_modifyInode (·.release grant.lock) (fun _ _ => rfl) fun _ => rfl

theorem releaseAll_roll (inode : InodeId) (locks : List RangeLock) : ∀ world : World, ∃ after,
    (locks.forM fun lock => (Grant.mk inode lock).release : Action Unit) world = (.ok (), after) ∧
      after.lockRoll = (locks.map (Grant.mk inode)).foldl LockRoll.release world.lockRoll := by
  induction locks with
  | nil => exact fun world => ⟨world, rfl, rfl⟩
  | cons lock rest ih =>
      intro world
      obtain ⟨after, hrun, hroll⟩ := ih ((Grant.mk inode lock).release world).2
      exact ⟨after, hrun, hroll.trans (by rw [Grant.release_roll]; rfl)⟩

namespace HandleId

theorem close_roll (id : HandleId) (world : World) :
    (id.close world).2.lockRoll = world.lockRoll.shut id := by
  have hnothing : world.lockRoll.grants id = [] → (id.close world).2 = world →
      (id.close world).2.lockRoll = world.lockRoll.shut id := by
    intro hnone hsame
    rw [hsame, LockRoll.shut_of_nil hnone]
  cases hheld : world.handle id with
  | error failure =>
      refine hnothing (World.grantsOf_of_unknown hheld) ?_
      unfold close
      rw [bind_apply, ask_apply, hheld]
  | ok held =>
      have hgrants : world.lockRoll.grants id = held.grants := World.grantsOf_of_handle hheld
      cases hopen : held.isOpen with
      | false =>
          refine hnothing (hgrants.trans (if_neg (hopen ▸ Bool.false_ne_true))) ?_
          unfold close
          rw [bind_ask_ok hheld, hopen]
          rfl
      | true =>
          rw [Handle.grants, if_pos hopen] at hgrants
          obtain ⟨unlocked, hrelease, hroll⟩ := releaseAll_roll held.inode held.locks
            (world.modifyHandle id fun held => { held with isOpen := false, locks := [] })
          have hleft : Keeps World.lockRoll _ := leave_keeps held (keeps_modify fun _ => rfl)
          have hshut : (world.modifyHandle id fun held =>
              { held with isOpen := false, locks := [] }).lockRoll =
                { world.lockRoll with grants := Function.update world.lockRoll.grants id [] } :=
            congrArg (LockRoll.mk world.locksOn) (World.grantsOf_modifyHandle hheld _)
          unfold close
          rw [bind_ask_ok hheld, if_pos hopen, bind_ok (modify_apply ..), bind_ok hrelease,
            hleft, hroll, ← hgrants, hshut, LockRoll.foldl_release]
          rfl

theorem lock_roll {id : HandleId} {offset length : Nat} {cancelled : Bool} {grant : Grant}
    (hrun : id.lock offset length cancelled world = (.ok grant, after)) :
    ∃ locks, (world.locksOn grant.inode).tryLock offset length = .ok (grant.lock, locks) ∧
      (∀ kept ∈ world.grantsOf id, kept.inode = grant.inode) ∧
      after.lockRoll = world.lockRoll.hand id grant locks := by
  obtain ⟨held, stored, locks, hgrants⟩ :=
    (id.lock_transacts offset length cancelled world).post_of_ok hrun
  have htable : world.locksOn held.inode = stored.locks := World.locksOn_of_inode hgrants.inode
  have hremembered : world.grantsOf id = held.locks.map (Grant.mk held.inode) :=
    (World.grantsOf_of_handle hgrants.known).trans (if_pos hgrants.isOpen)
  obtain ⟨inode, lock⟩ := grant
  obtain rfl : inode = held.inode := hgrants.on
  refine ⟨locks, htable ▸ hgrants.lock, ?_, ?_⟩
  · rw [hremembered]
    intro kept hkept
    obtain ⟨_, _, rfl⟩ := List.mem_map.1 hkept
    rfl
  · have hhandle : (world.modifyInode held.inode fun _ => { stored with locks }).handle id =
      .ok held := hgrants.known
    have hlocks : (world.modifyInode held.inode fun _ => { stored with locks }).locksOn =
        Function.update world.locksOn held.inode locks :=
      World.locksOn_modifyInode (fun _ => locks) (fun _ _ => rfl) fun hnone => by
        rw [World.inode_eq_ok hgrants.inode] at hnone
        cases hnone
    have hkept : Handle.grants { held with locks := held.locks.filter locks.isValid ++ [lock] } =
        (world.grantsOf id).filter (locks.isValid ·.lock) ++ [⟨held.inode, lock⟩] := by
      unfold Handle.grants
      rw [if_pos hgrants.isOpen, hremembered, List.filter_map, List.map_append]
      rfl
    rw [hgrants.after]
    refine congrArg₂ LockRoll.mk hlocks ((World.grantsOf_modifyHandle hhandle _).trans ?_)
    exact congrArg (Function.update world.grantsOf id) hkept

end HandleId

/-! ### Calls -/

/-- A session hands out no lock, so closing its handle releases none. -/
theorem VolumeId.session_roll {α : Type} {work : HandleId → Action α} {id : VolumeId}
    {path : String} {options : OpenOptions} (hn : world.namespace.Sound)
    (hwork : ∀ handle, Keeps World.skeleton (work handle))
    (hroll : ∀ handle, Keeps World.lockRoll (work handle)) :
    (id.session path options work world).2.lockRoll = world.lockRoll := by
  have hopens := id.openFile_keeps path options world
  rcases hrun : id.openFile path options world with ⟨failure | handle, opened⟩
  · rw [session_failed ((openFile_transacts hn id path options).unchanged hrun ▸ hrun)]
  · rw [hrun] at hopens
    obtain ⟨closed, opening, htakes, hclose, hsession⟩ := session_opened hn hwork hrun
    have hnone : (work handle opened).2.lockRoll.grants handle = [] := by
      rw [hroll handle opened]
      exact World.grantsOf_of_handle htakes.opens.handle
    have hclosed := handle.close_roll (work handle opened).2
    rw [hclose, LockRoll.shut_of_nil hnone, hroll handle opened] at hclosed
    rw [hsession]
    exact hclosed.trans hopens

theorem newVolume_keeps (config : Config) : Keeps World.lockRoll (newVolume config) := by
  have hroot : ∀ (root : Entry) (_ : String),
      Keeps World.lockRoll (Action.add (·.addEntry root)) :=
    fun _ _ => keeps_add fun _ => Aloof.new_entry
  exact (keeps_lift _).bind fun _ => keeps_get.bind fun world =>
    (Keeps.mapM (hroot _) _).bind fun _ => keeps_add fun _ => rfl

/-- A lock that was handed out, and the handle that had asked for it. -/
structure Holding where
  owner : HandleId
  grant : Grant
  deriving DecidableEq

/-- The lock that the call hands out, if it does. -/
def Call.handsOut (world : World) : Call → Option Holding
  | onHandle id (.lock offset length cancelled) =>
    match (id.lock offset length cancelled world).1 with
    | .ok grant => some ⟨id, grant⟩
    | .error _ => none
  | _ => none

/-- What a call may do to the roll, and which lock it hands out. -/
inductive LockRoll.Step (roll : LockRoll) : Call → Option Holding → LockRoll → Prop where
  | stays (call : Call) : Step roll call none roll
  | releases (grant : Grant) : Step roll (.releaseLock grant) none (roll.release grant)
  | closes (id : HandleId) : Step roll (.onHandle id .close) none (roll.shut id)
  | hands {id : HandleId} {offset length : Nat} {grant : Grant} {locks : LockTable} (call : Call)
      (lock : (roll.table grant.inode).tryLock offset length = .ok (grant.lock, locks))
      (alike : ∀ kept ∈ roll.grants id, kept.inode = grant.inode) :
      Step roll call (some ⟨id, grant⟩) (roll.hand id grant locks)

theorem HandleId.lock_step (id : HandleId) (offset length : Nat) (cancelled : Bool) :
    world.lockRoll.Step (.onHandle id (.lock offset length cancelled))
      (Call.handsOut world (.onHandle id (.lock offset length cancelled)))
      (id.lock offset length cancelled world).2.lockRoll := by
  unfold Call.handsOut
  dsimp only
  rcases hrun : id.lock offset length cancelled world with ⟨failure | grant, after⟩
  · rw [(id.lock_transacts offset length cancelled world).unchanged hrun]
    exact .stays _
  · obtain ⟨locks, hlock, halike, hroll⟩ := lock_roll hrun
    dsimp only
    rw [hroll]
    exact .hands _ hlock halike

theorem Call.steps (hn : world.namespace.Sound) (call : Call) :
    world.lockRoll.Step call (call.handsOut world) (call.perform world).lockRoll := by
  have hstays : call.handsOut world = none → (call.perform world).lockRoll = world.lockRoll →
      world.lockRoll.Step call (call.handsOut world) (call.perform world).lockRoll := by
    intro hnone hsame
    rw [hnone, hsame]
    exact .stays call
  cases call with
  | setClock now | share id | drop id => exact hstays rfl rfl
  | newVolume config => exact hstays rfl (newVolume_keeps config world)
  | readAll id path =>
      refine hstays rfl (VolumeId.session_roll hn (fun handle => ?_) fun handle => ?_) <;>
        exact handle.readToEnd_keeps.throughStream
  | writeAll id path contents =>
      refine hstays rfl (VolumeId.session_roll hn (fun handle => ?_) fun handle => ?_) <;>
        exact (handle.writeAll_keeps contents).throughStream
  | releaseLock grant =>
      have hroll : (Call.perform world (.releaseLock grant)).lockRoll = _ := grant.release_roll world
      rw [hroll]
      exact .releases grant
  | onPath id call =>
      refine hstays rfl ?_
      by_cases hopening : ∃ path options, call = .openFile path options
      · obtain ⟨path, options, rfl⟩ := hopening
        exact ((id.openFile_keeps path options).bind fun _ => keeps_pure _) world
      · exact call.act_keeps id (fun path options h => hopening ⟨path, options, h⟩) world
  | onHandle id call =>
      have hkeeps : call ≠ .close → (∀ offset length cancelled, call ≠ .lock offset length cancelled) →
          (call.perform id world).lockRoll = world.lockRoll :=
        HandleCall.perform_keeps_locks id
      cases call with
      | close =>
          have hroll : (Call.perform world (.onHandle id .close)).lockRoll = _ := id.close_roll world
          rw [hroll]
          exact .closes id
      | lock offset length cancelled => exact id.lock_step offset length cancelled
      | _ => exact hstays rfl (hkeeps nofun nofun)

end RamFs
