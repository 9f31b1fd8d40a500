import RamFs.Handle.Close
import RamFs.Proofs.Namespace.Edits
import RamFs.Proofs.Namespace.Opening
import RamFs.Proofs.Namespace.Skeleton

/-!
Calls through open handles. Reading, writing, seeking and locking do not show in the namespace,
whether they succeed or fail. Closing takes the handle off the count of its file and may remove
the file's name, but only when no handle on the file is left.
-/

namespace RamFs

open RamFs.Action

variable {world : World} {id other : HandleId}

theorem FileNode.inode_release (file : FileNode) : file.release.inode = file.inode := by
  unfold FileNode.release
  split <;> rfl

theorem FileNode.deleteOnClose_release (file : FileNode) :
    file.release.deleteOnClose = file.deleteOnClose := by
  unfold FileNode.release
  split <;> rfl

theorem FileNode.state_release {file : FileNode} (hlive : file.state ≠ .pendingDeletion) :
    file.release.state = .live file.release.openHandles := by
  unfold FileNode.release FileNode.openHandles
  cases hstate : file.state with
  | live count => rfl
  | pendingDeletion => exact absurd hstate hlive

/-! ### Views -/

/-- The view does not show times and cursors. -/
class Timeless {δ : Type} (view : World → δ) : Prop where
  times : ∀ {world : World} {id : EntryId} {change : Entry → Entry},
    (∀ entry, { change entry with times := entry.times } = entry) →
    view (world.modifyEntry id change) = view world
  cursors : ∀ {world : World} {id : HandleId} {change : Handle → Handle},
    (∀ handle, { change handle with position := handle.position } = handle) →
    view (world.modifyHandle id change) = view world

/-- It does not show contents either. -/
class Hollow {δ : Type} (view : World → δ) : Prop extends Timeless view where
  contents : ∀ {world : World} {id : InodeId} {inode : Inode} {store : BlockStore},
    world.inode id = .ok inode → view (world.modifyInode id fun _ => { inode with store }) = view world

/-- The view does not show times, cursors and locks. -/
class Quiet {δ : Type} (view : World → δ) : Prop where
  times : ∀ {world : World} {id : EntryId} {change : Entry → Entry},
    (∀ entry, { change entry with times := entry.times } = entry) →
    view (world.modifyEntry id change) = view world
  cursors : ∀ {world : World} {id : HandleId} {change : Handle → Handle},
    (∀ handle, { change handle with position := handle.position, locks := handle.locks } = handle) →
    view (world.modifyHandle id change) = view world
  locks : ∀ {world : World} {id : InodeId} {inode : Inode} {locks : LockTable},
    world.inode id = .ok inode → view (world.modifyInode id fun _ => { inode with locks }) = view world

/-- It does not show contents either. -/
class Blind {δ : Type} (view : World → δ) : Prop extends Quiet view where
  contents : ∀ {world : World} {id : InodeId} {inode : Inode} {store : BlockStore},
    world.inode id = .ok inode → view (world.modifyInode id fun _ => { inode with store }) = view world

theorem Handle.eq_of_position {handle changed : Handle}
    (h : { changed with position := handle.position } = handle) :
    { changed with position := handle.position, locks := handle.locks } = handle := by
  rw [← h]

instance Quiet.timeless {δ : Type} {view : World → δ} [Quiet view] : Timeless view where
  times := Quiet.times
  cursors h := Quiet.cursors fun handle => Handle.eq_of_position (h handle)

instance Blind.hollow {δ : Type} {view : World → δ} [Blind view] : Hollow view where
  contents := Blind.contents

instance blind_skeleton : Blind World.skeleton where
  times h := World.skeleton_modifyEntry_same fun entry => (congrArg Entry.node (h entry) :)
  cursors h := World.skeleton_modifyHandle fun handle => (congrArg Handle.lease? (h handle) :)
  locks hinode := World.skeleton_setInode hinode rfl
  contents hinode := World.skeleton_setInode hinode rfl

variable {δ : Type} {view : World → δ}

namespace Handle

theorem checkOpen_eq_ok {handle : Handle} : handle.checkOpen = .ok () ↔ handle.isOpen = true := by
  unfold checkOpen
  cases handle.isOpen with
  | true => exact ⟨fun _ => rfl, fun _ => rfl⟩
  | false => exact ⟨nofun, nofun⟩

theorem touchAccessed_keeps [Timeless view] (handle : Handle) :
    Keeps view (handle.stamp Entry.touchAccessed) :=
  (keeps_ask _).bind fun _ => keeps_modify fun _ => Timeless.times fun _ => rfl

theorem touchModified_keeps [Timeless view] (handle : Handle) :
    Keeps view (handle.stamp Entry.touchModified) :=
  (keeps_ask _).bind fun _ => keeps_modify fun _ => Timeless.times fun _ => rfl

theorem setStore_keeps [Hollow view] {handle : Handle} {inode : Inode} {store : BlockStore}
    (hinode : world.inode handle.inode = .ok inode) :
    view (handle.setInode { inode with store } world).2 = view world :=
  Hollow.contents hinode

end Handle

namespace HandleId

/-! ### Contents and cursors -/

theorem checked_ok {check : Handle → Except Failure Unit} {handle : Handle} {inode : Inode}
    {after : World} (h : id.checked check world = (.ok (handle, inode), after)) :
    after = world ∧ world.inode handle.inode = .ok inode := by
  unfold HandleId.checked at h
  cases hhandle : world.handle id with
  | error failure =>
      rw [bind_apply, ask_apply, hhandle] at h
      cases h
  | ok found =>
      rw [bind_ask_ok hhandle] at h
      cases hcheck : check found with
      | error failure =>
          rw [bind_apply, hcheck, lift_apply] at h
          cases h
      | ok _ =>
          rw [bind_lift_ok hcheck] at h
          cases hinode : world.inode found.inode with
          | error failure =>
              rw [bind_apply, ask_apply, hinode] at h
              cases h
          | ok held =>
              rw [bind_ask_ok hinode] at h
              cases h
              exact ⟨rfl, hinode⟩

theorem checked_keeps (id : HandleId) (check : Handle → Except Failure Unit) :
    Keeps view (id.checked check) :=
  (keeps_ask _).bind fun _ => (keeps_lift _).bind fun _ => (keeps_ask _).bind fun _ =>
    keeps_pure _

/-- What follows a check knows the handle, that it has passed, and its inode. -/
theorem checked_transacts {α : Type} {id : HandleId} {check : Handle → Except Failure Unit}
    {next : Handle × Inode → Action α} {post : α → World → Prop}
    (h : ∀ handle inode, world.handle id = .ok handle → check handle = .ok () →
      world.inode handle.inode = .ok inode → Transacts (next (handle, inode)) world post) :
    Transacts (id.checked check >>= next) world post := by
  unfold checked
  simp only [bind_assoc, pure_bind]
  refine transacts_ask_bind fun handle hhandle => transacts_lift_bind fun _ hcheck => ?_
  exact transacts_ask_bind fun inode hinode => h handle inode hhandle hcheck hinode

/-- What follows a check knows the inode of the handle. -/
theorem checked_bind_keeps {α : Type} {id : HandleId} {check : Handle → Except Failure Unit}
    {next : Handle × Inode → Action α}
    (h : ∀ {world handle inode}, world.inode handle.inode = .ok inode →
      view (next (handle, inode) world).2 = view world) :
    Keeps view (id.checked check >>= next) := by
  intro world
  have hchecked : view _ = view world := id.checked_keeps check world
  rw [bind_apply]
  rcases hrun : id.checked check world with ⟨failure | ⟨handle, inode⟩, after⟩
  · rw [hrun] at hchecked
    exact hchecked
  · obtain ⟨rfl, hinode⟩ := checked_ok hrun
    exact h hinode

theorem setCursor_keeps [Timeless view] (id : HandleId) (position : Nat) :
    Keeps view (id.setCursor position) :=
  keeps_modify fun _ => Timeless.cursors fun _ => rfl

theorem readAt_keeps [Timeless view] (id : HandleId) (offset count : Nat) :
    Keeps view (id.readAt offset count) :=
  (id.checked_keeps _).bind fun (handle, _) => handle.touchAccessed_keeps.bind fun _ =>
    keeps_pure _

theorem read_keeps [Timeless view] (id : HandleId) (count : Nat) : Keeps view (id.read count) :=
  (keeps_ask _).bind fun _ => (id.readAt_keeps _ _).bind fun _ =>
    (id.setCursor_keeps _).bind fun _ => keeps_pure _

theorem writeAt_keeps [Hollow view] (id : HandleId) (offset : Nat) (bytes : Bytes) :
    Keeps view (id.writeAt offset bytes) :=
  checked_bind_keeps fun {_ handle _} hinode => lift_bind_keeps fun _ =>
    Keeps.bind_at (Handle.setStore_keeps hinode) fun _ => handle.touchModified_keeps

theorem write_keeps [Hollow view] (id : HandleId) (bytes : Bytes) : Keeps view (id.write bytes) :=
  checked_bind_keeps fun {_ handle _} hinode => lift_bind_keeps fun _ =>
    Keeps.bind_at (Handle.setStore_keeps hinode) fun _ => (id.setCursor_keeps _).bind fun _ =>
      handle.touchModified_keeps

theorem truncate_keeps [Hollow view] (id : HandleId) (size : Nat) : Keeps view (id.truncate size) :=
  checked_bind_keeps fun {_ handle _} hinode =>
    Keeps.bind_at (Handle.setStore_keeps hinode) fun _ => (id.setCursor_keeps _).bind fun _ =>
      handle.touchModified_keeps

theorem setPosition_keeps [Timeless view] (id : HandleId) (position : Nat) :
    Keeps view (id.setPosition position) :=
  (id.checked_keeps _).bind fun _ => id.setCursor_keeps _

theorem writeAll_keeps [Hollow view] (id : HandleId) (bytes : Bytes) :
    Keeps view (id.writeAll bytes) :=
  .ite (keeps_pure _) (id.write_keeps bytes)

theorem readToEnd_keeps [Timeless view] (id : HandleId) : Keeps view id.readToEnd :=
  (id.checked_keeps _).bind fun _ => id.read_keeps _

theorem size_keeps (id : HandleId) : Keeps view id.size :=
  (id.checked_keeps _).bind fun _ => keeps_pure _

theorem sync_keeps (id : HandleId) : Keeps view id.sync :=
  (id.checked_keeps _).bind fun _ => keeps_pure _

theorem metadata_keeps (id : HandleId) : Keeps view id.metadata :=
  (id.checked_keeps _).bind fun _ => (keeps_ask _).bind fun _ => keeps_ask _

theorem seek_keeps [Timeless view] (id : HandleId) (origin : SeekOrigin) (distance : Int) :
    Keeps view (id.seek origin distance) := by
  have hmove : ∀ position : Nat, Keeps view (do
      (id.setPosition position).asStream
      return position : StreamAction Nat) :=
    fun position => (id.setPosition_keeps position).asStream.bind fun _ => keeps_pure _
  unfold HandleId.seek
  cases origin with
  | start =>
      exact (keeps_pure _).bind fun _ => .ite ((keeps_throw _).bind fun _ => hmove _) (hmove _)
  | current =>
      exact (keeps_ask _).asStream.bind fun _ => (keeps_pure _).bind fun _ =>
        .ite ((keeps_throw _).bind fun _ => hmove _) (hmove _)
  | finish =>
      exact id.size_keeps.asStream.bind fun _ =>
        .ite ((keeps_throw _).bind fun _ => hmove _) (hmove _)

theorem lock_keeps [Quiet view] (id : HandleId) (offset length : Nat) (cancelled : Bool) :
    Keeps view (id.lock offset length cancelled) := by
  refine checked_bind_keeps fun hinode => lift_bind_keeps fun (lock, locks) => ?_
  refine Keeps.bind_at (Quiet.locks hinode) fun _ =>
    Keeps.bind (keeps_modify fun _ => ?_) fun _ => keeps_pure _
  exact Quiet.cursors fun _ => rfl

/-! ### Transfers -/

theorem outgoing_keeps (id : HandleId) (offset count : Nat) :
    Keeps view (id.outgoing offset count) :=
  (id.checked_keeps _).bind fun _ => keeps_pure _

theorem transferTo_keeps [Timeless view] (id : HandleId) (offset count : Nat) (sink : Sink) :
    Keeps view (id.transferTo offset count sink) := by
  unfold HandleId.transferTo
  refine (id.outgoing_keeps offset count).stateBind fun outcome => ?_
  split
  · exact keeps_statePure _
  · split
    · exact keeps_statePure _
    · exact (Handle.touchAccessed_keeps _).stateBind fun _ => keeps_statePure _

theorem transferFrom_keeps [Hollow view] (id : HandleId) (offset count : Nat) (source : Source) :
    Keeps view (id.transferFrom offset count source) := by
  unfold HandleId.transferFrom
  intro world
  have hchecked : view ((id.checked Handle.checkWritable).run world).2 = view world :=
    id.checked_keeps Handle.checkWritable world
  rw [stateBind_apply]
  rcases hrun : (id.checked Handle.checkWritable).run world with ⟨failure | ⟨handle, inode⟩, after⟩
  · rw [hrun] at hchecked
    exact hchecked
  obtain ⟨rfl, hinode⟩ := checked_ok hrun
  dsimp only
  refine Keeps.stateBind_at (Handle.setStore_keeps hinode) fun _ => ?_
  split
  · exact keeps_statePure _
  · split
    · exact (Handle.touchModified_keeps _).stateBind fun _ => keeps_statePure _
    · exact keeps_statePure _

theorem transferToHandle_keeps [Hollow view] (id : HandleId) (offset count : Nat) (other : HandleId) :
    Keeps view (id.transferToHandle offset count other) :=
  (id.outgoing_keeps offset count).bind fun (handle, pieces) =>
    (Keeps.forM (fun piece => (other.write_keeps piece).throughStream) pieces).bind fun _ =>
      handle.touchAccessed_keeps.bind fun _ => keeps_pure _

theorem consumed_keeps [Timeless view] (id : HandleId) (before after : Source) :
    Keeps view (id.consumed before after) := by
  refine (keeps_ask _).bind fun handle => ?_
  split
  · exact keeps_pure _
  · exact .ite ((id.setCursor_keeps _).bind fun _ => handle.touchAccessed_keeps) (keeps_pure _)

theorem transferFromHandle_keeps [Hollow view] (id : HandleId) (offset count : Nat) (other : HandleId) :
    Keeps view (id.transferFromHandle offset count other) := by
  refine keeps_get.bind fun world => ?_
  refine (id.transferFrom_keeps offset count _).liftState.bind fun (result, after) => ?_
  exact (other.consumed_keeps _ _).bind fun _ => keeps_lift _

/-! ### Closing -/

/-- From one world to another in which the handle is closed and its file is open once less, and its
place is still taken. -/
structure Releases (world : World) (handle : Handle) (file : FileNode) (released : World) :
    Prop where
  node : world.namespace.node? handle.entry = some (.file file)
  named : world.namespace.Names handle.volume handle.entry
  names : ∃ leases, world.namespace.leases.Perm (⟨handle.volume, handle.entry⟩ :: leases) ∧
    released.namespace = { world.namespace.setNode handle.entry (.file file.release) with leases }
  volumes : released.volumes = world.volumes
  tally : released.tally = world.tally
  stores : released.stores = world.stores

/-- From one world to another in which the handle is closed and its file is open once less. The
place is given back where there is a volume to give it to. -/
structure Closes (world : World) (handle : Handle) (volume : Volume) (file : FileNode)
    (closed : World) : Prop where
  known : world.volume handle.volume = .ok volume
  node : world.namespace.node? handle.entry = some (.file file)
  named : world.namespace.Names handle.volume handle.entry
  names : ∃ leases, world.namespace.leases.Perm (⟨handle.volume, handle.entry⟩ :: leases) ∧
    closed.namespace = { world.namespace.setNode handle.entry (.file file.release) with leases }
  volumes : closed.volumes =
    if volume.isLive then world.volumes.modify handle.volume.index Volume.freePlace
    else world.volumes
  tally : closed.tally = world.tally
  stores : closed.stores = world.stores

theorem Closes.expands {handle : Handle} {volume : Volume} {file : FileNode} {closed : World}
    (h : Closes world handle volume file closed) (hn : world.namespace.Sound) :
    world.Expands closed := by
  obtain ⟨leases, hperm, hclosed⟩ := h.names
  have hgrows := hn.closeFile h.node hperm
  refine ⟨hclosed ▸ hgrows, fun hb => ?_⟩
  have hlive := hn.bound_live h.named.1 h.node
  have hlive' : file.release.state ≠ .pendingDeletion := by
    rw [FileNode.state_release hlive]
    exact nofun
  unfold World.Booked
  rw [h.tally, hclosed]
  refine Namespace.Booked.grows hb hn hgrows
    (fun _ => Namespace.users_setFile h.node file.inode_release hlive hlive') ?_
  rintro other ⟨directory, binding, hbinding, hentry⟩
  exact ⟨directory, binding, (Namespace.binds_setFile h.node).1 hbinding, hentry⟩

theorem Closes.node_after {handle : Handle} {volume : Volume} {file : FileNode} {closed : World}
    (h : Closes world handle volume file closed) :
    closed.namespace.node? handle.entry = some (.file file.release) := by
  obtain ⟨leases, _, hclosed⟩ := h.names
  rw [hclosed]
  exact Namespace.node?_setNode_self

theorem releaseEntry_apply {handle : Handle} {file : FileNode}
    (hnode : world.namespace.node? handle.entry = some (.file file)) :
    releaseEntry handle world = (.ok file.release.isAbandoned,
        world.modifyEntry handle.entry (·.withFile file.release)) ∧
      (world.modifyEntry handle.entry (·.withFile file.release)).namespace =
        world.namespace.setNode handle.entry (.file file.release) := by
  obtain ⟨found, hfound, hkind⟩ := World.entry_of_node? hnode
  refine ⟨?_, World.namespace_modifyEntry _ hfound⟩
  have hfile : (world.entry handle.entry >>= Entry.file) = .ok file := by
    rw [hfound]
    exact Entry.file_eq_ok.2 hkind
  unfold releaseEntry
  rw [bind_ok (get_apply _), hfile]
  rfl

theorem releaseAll_names (handle : Handle) (locks : List RangeLock) : ∀ world, ∃ after,
    (locks.forM fun lock => (Grant.mk handle.inode lock).release : Action Unit) world =
      (.ok (), after) ∧ after.skeleton = world.skeleton ∧ after.stores = world.stores := by
  induction locks with
  | nil => exact fun world => ⟨world, rfl, rfl, rfl⟩
  | cons lock rest ih =>
      intro world
      obtain ⟨after, hrun, hskeleton, hstores⟩ := ih
        (world.modifyInode handle.inode (·.releaseLock lock))
      refine ⟨after, hrun, hskeleton.trans (World.skeleton_modifyInode fun _ => rfl), ?_⟩
      exact hstores.trans (World.stores_modifyInode_same fun _ => rfl)

/-- The first half of closing cannot fail. -/
theorem close_releases {handle : Handle} (hn : world.namespace.Sound)
    (hhandle : world.handle id = .ok handle) (hopen : handle.isOpen = true) :
    ∃ file released, Releases world handle file released ∧ id.close world = (do
      let volume ← Action.ask (·.volume handle.volume)
      if volume.isLive then
        handle.volume.releaseHandle
        if file.release.isAbandoned then
          tryCatch (handle.volume.deleteEntry handle.path (some handle.entry)) fun _ => pure () :
        Action Unit) released := by
  obtain ⟨leases, hclosed, hperm⟩ := World.namespace_closeHandle
    (fun handle => { handle with isOpen := false, locks := [] }) hhandle hopen rfl
  have hlease : (⟨handle.volume, handle.entry⟩ : Lease) ∈ world.namespace.leases :=
    hperm.symm.subset (List.mem_cons_self ..)
  obtain ⟨file, hfile⟩ := hn.leased hlease
  obtain ⟨unlocked, hlocks, hunlocked, hstores⟩ := releaseAll_names handle handle.locks
    (world.modifyHandle id fun handle => { handle with isOpen := false, locks := [] })
  have hnames : unlocked.namespace = { world.namespace with leases } :=
    (World.namespace_of_skeleton hunlocked).trans hclosed
  have hfile' : unlocked.namespace.node? handle.entry = some (.file file) := by
    rw [hnames]
    exact hfile
  obtain ⟨hrelease, hreleased⟩ := releaseEntry_apply hfile'
  rw [hnames] at hreleased
  refine ⟨file, _, ⟨hfile, hn.held hlease, ⟨leases, hperm, hreleased⟩,
    congrArg Skeleton.volumes hunlocked, congrArg Skeleton.tally hunlocked, hstores⟩, ?_⟩
  unfold HandleId.close
  rw [bind_ask_ok hhandle, if_pos hopen, bind_ok (modify_apply ..), bind_ok hlocks,
    bind_ok hrelease]

theorem Releases.closes {handle : Handle} {volume : Volume} {file : FileNode} {released : World}
    (h : Releases world handle file released) (hvolume : world.volume handle.volume = .ok volume) :
    Closes world handle volume file
      (if volume.isLive then released.modifyVolume handle.volume Volume.freePlace
      else released) := by
  obtain ⟨leases, hperm, hreleased⟩ := h.names
  cases hlive : volume.isLive with
  | true =>
      rw [if_pos rfl]
      refine ⟨hvolume, h.node, h.named, ⟨leases, hperm, ?_⟩, ?_, h.tally, h.stores⟩
      · rw [← hreleased]
        exact World.namespace_modifyVolume_same fun _ => rfl
      · rw [hlive, if_pos rfl, ← h.volumes]
        rfl
  | false =>
      rw [if_neg nofun]
      refine ⟨hvolume, h.node, h.named, ⟨leases, hperm, hreleased⟩, ?_, h.tally, h.stores⟩
      rw [hlive, if_neg nofun, h.volumes]

/-- Closing an open handle closes its file once and then, when a file that is to go is not open
any more, tries to remove the name it was opened under. -/
theorem close_closes {handle : Handle} (hn : world.namespace.Sound)
    (hhandle : world.handle id = .ok handle) (hopen : handle.isOpen = true) :
    ∃ volume file closed, Closes world handle volume file closed ∧
      id.close world =
        if volume.isLive && file.release.isAbandoned then
          (tryCatch (handle.volume.deleteEntry handle.path (some handle.entry)) fun _ => pure () :
            Action Unit) closed
        else (.ok (), closed) := by
  obtain ⟨file, released, hreleases, hrun⟩ := close_releases hn hhandle hopen
  -- the volume of an open handle is known
  obtain ⟨volume, hvolume⟩ : ∃ volume, world.volume handle.volume = .ok volume := by
    obtain ⟨_, _, _, ⟨ground, hground, _⟩, _⟩ := hreleases.named.2
    obtain ⟨volume, hvolume, _⟩ := World.volume_of_ground? hground
    exact ⟨volume, hvolume⟩
  have hvolume' : released.volume handle.volume = .ok volume := by
    unfold World.volume
    rw [hreleases.volumes]
    exact hvolume
  refine ⟨volume, file, _, hreleases.closes hvolume, ?_⟩
  rw [hrun, bind_ask_ok hvolume']
  cases volume.isLive with
  | true =>
      rw [if_pos rfl, Bool.true_and]
      change (if file.release.isAbandoned then _ else _ : Action Unit) _ = _
      split <;> rfl
  | false => rfl

/-- Trying to remove a name opens and closes nothing. -/
theorem deleteAbandoned_keeps [Aloof view] (volume : VolumeId) (path : Path) (entry : EntryId) :
    Keeps view (tryCatch (volume.deleteEntry path (some entry)) fun _ => pure () : Action Unit) :=
  (VolumeId.deleteEntry_keeps volume path (some entry)).tryCatch fun _ => keeps_pure _

theorem releaseEntry_keeps [Aloof view] (handle : Handle) : Keeps view (releaseEntry handle) := by
  refine keeps_get.bind fun _ => ?_
  split
  · exact keeps_pure _
  · exact .bind (keeps_modify fun _ => Aloof.entries) fun _ => keeps_pure _

/-- What closing does once the handle is closed and its locks are released. -/
theorem leave_keeps [Aloof view] (handle : Handle)
    (hplace : Keeps view handle.volume.releaseHandle) : Keeps view (do
      let abandoned ← releaseEntry handle
      let volume ← Action.ask (·.volume handle.volume)
      if volume.isLive then
        handle.volume.releaseHandle
        if abandoned then
          tryCatch (handle.volume.deleteEntry handle.path (some handle.entry)) fun _ => pure () :
      Action Unit) := by
  refine (releaseEntry_keeps handle).bind fun abandoned => (keeps_ask _).bind fun volume => ?_
  refine .ite (hplace.bind fun _ => .ite ?_ (keeps_pure _)) (keeps_pure _)
  exact deleteAbandoned_keeps _ _ _

/-- A name removed for an abandoned file is all that goes, if it can be removed at all. -/
theorem deleteAbandoned_advances {entry : EntryId} {file : FileNode}
    (hn : world.namespace.Sound) (volume : VolumeId) (path : Path)
    (hnode : world.namespace.node? entry = some (.file file)) :
    ∃ after, (tryCatch (volume.deleteEntry path (some entry)) fun _ => pure () : Action Unit)
        world = (.ok (), after) ∧
      world.Advances (world.namespace.Abandoned after.namespace) after ∧
      after.roster = world.roster := by
  have hdelete := VolumeId.deleteEntry_transacts hn volume path (some entry)
  have hkeeps : World.roster _ = world.roster := deleteAbandoned_keeps volume path entry world
  rw [tryCatch_apply] at hkeeps ⊢
  rcases hrun : volume.deleteEntry path (some entry) world with ⟨failure | _, after⟩
  · rw [hdelete.unchanged hrun]
    exact ⟨world, rfl, (World.Advances.refl hn).weaken nofun, rfl⟩
  · rw [hrun] at hkeeps
    refine ⟨after, rfl, (hdelete.post_of_ok hrun).weaken ?_, hkeeps⟩
    rintro lost ⟨hspent, honly⟩
    obtain rfl := honly entry rfl
    obtain ⟨node, hlost, hclosed⟩ := hspent
    obtain rfl : Node.file file = node := Option.some.inj (hnode.symm.trans hlost)
    exact ⟨⟨file, hnode⟩, hclosed⟩

/-- Closing an open handle never fails. -/
theorem close_ok {lease : Lease} (hn : world.namespace.Sound)
    (hholder : world.holder? id = some lease) : ∃ closed, id.close world = (.ok (), closed) := by
  obtain ⟨handle, hhandle, hopen, _⟩ := World.holder_eq_some.1 hholder
  obtain ⟨volume, file, closed, hcloses, hrun⟩ := close_closes hn hhandle hopen
  rw [hrun]
  split
  case isFalse => exact ⟨closed, rfl⟩
  case isTrue =>
    obtain ⟨after, hdelete, _⟩ := deleteAbandoned_advances (hcloses.expands hn).evolves.sound
      handle.volume handle.path hcloses.node_after
    exact ⟨after, hdelete⟩

/-- Closing a handle loses at most a file, and only if no handle on it is left. -/
theorem close_advances (hn : world.namespace.Sound) (id : HandleId) :
    world.Advances (world.namespace.Abandoned (id.close world).2.namespace)
      (id.close world).2 := by
  cases hhandle : world.handle id with
  | error failure =>
      unfold HandleId.close
      rw [bind_apply, ask_apply, hhandle]
      exact (World.Advances.refl hn).weaken nofun
  | ok handle =>
      cases hopen : handle.isOpen with
      | false =>
          unfold HandleId.close
          rw [bind_ask_ok hhandle, hopen]
          exact (World.Advances.refl hn).weaken nofun
      | true =>
          obtain ⟨volume, file, closed, hcloses, hrun⟩ := close_closes hn hhandle hopen
          have hexpands := hcloses.expands hn
          rw [hrun]
          split
          case isFalse => exact hexpands.weaken nofun
          case isTrue =>
          obtain ⟨after, hdelete, hadvances, _⟩ := deleteAbandoned_advances
            hexpands.evolves.sound handle.volume handle.path hcloses.node_after
          rw [hdelete]
          exact hexpands.abandons hn hadvances

end HandleId

namespace VolumeId

variable {volume : VolumeId} {path : String}

/-- Work through a handle between opening and closing it. -/
def session {α : Type} (id : VolumeId) (path : String) (options : OpenOptions)
    (work : HandleId → Action α) : Action α := do
  let handle ← id.openFile path options
  let outcome ← (work handle).attempt
  handle.close
  outcome

theorem readAll_eq (id : VolumeId) (path : String) :
    id.readAll path = id.session path .reading fun handle => handle.readToEnd.throughStream := rfl

theorem writeAll_eq (id : VolumeId) (path : String) (contents : Bytes) :
    id.writeAll path contents = id.session path { OpenOptions.creating with truncate := true }
      fun handle => (handle.writeAll contents).throughStream := rfl

/-- A session that has opened its file reports what came of the work and leaves the world that
closing the handle leaves. -/
theorem session_opened {α : Type} {work : HandleId → Action α} {options : OpenOptions}
    {handle : HandleId} {opened : World} (hn : world.namespace.Sound)
    (hwork : ∀ handle, Keeps World.skeleton (work handle))
    (hrun : volume.openFile path options world = (.ok handle, opened)) :
    ∃ closed, ∃ opening : Opening, opening.Takes world volume path options handle opened ∧
      handle.close (work handle opened).2 = (.ok (), closed) ∧
      volume.session path options work world = ((work handle opened).1, closed) := by
  obtain ⟨opening, htakes⟩ := (openFile_transacts hn volume path options).post_of_ok hrun
  have hworked := hwork handle opened
  have hsound : (work handle opened).2.namespace.Sound := by
    rw [World.namespace_of_skeleton hworked]
    exact (htakes.expands_after hn).evolves.sound
  have hholder : (work handle opened).2.holder? handle = some ⟨volume, opening.entry⟩ := by
    rw [World.holder_of_skeleton hworked]
    exact htakes.holder
  obtain ⟨closed, hclose⟩ := handle.close_ok hsound hholder
  refine ⟨closed, opening, htakes, hclose, ?_⟩
  unfold session
  rw [bind_ok hrun, bind_ok (attempt_apply ..), bind_ok hclose, lift_apply]

/-- A session that cannot open its file changes nothing. -/
theorem session_failed {α : Type} {work : HandleId → Action α} {options : OpenOptions}
    {failure : Failure} (hrun : volume.openFile path options world = (.error failure, world)) :
    volume.session path options work world = (.error failure, world) := by
  unfold session
  rw [bind_apply, hrun]

/-- A session cannot open its file, or does its work and closes it. -/
theorem session_cases {α : Type} {work : HandleId → Action α} (hn : world.namespace.Sound)
    (id : VolumeId) (path : String) (options : OpenOptions)
    (hwork : ∀ handle, Keeps World.skeleton (work handle)) :
    (∃ failure, id.openFile path options world = (.error failure, world) ∧
      id.session path options work world = (.error failure, world)) ∨
    ∃ handle opened closed, ∃ opening : Opening,
      opening.Takes world id path options handle opened ∧
      handle.close (work handle opened).2 = (.ok (), closed) ∧
      id.session path options work world = ((work handle opened).1, closed) := by
  rcases hrun : id.openFile path options world with ⟨failure | handle, opened⟩
  · obtain rfl := (openFile_transacts hn id path options).unchanged hrun
    exact .inl ⟨failure, rfl, session_failed hrun⟩
  · obtain ⟨closed, opening, htakes, hclose, hsession⟩ := session_opened hn hwork hrun
    exact .inr ⟨handle, opened, closed, opening, htakes, hclose, hsession⟩

/-- However a session ends, it loses at most a file that is not open afterwards. -/
theorem session_advances {α : Type} {work : HandleId → Action α} (hn : world.namespace.Sound)
    (id : VolumeId) (path : String) (options : OpenOptions)
    (hwork : ∀ handle, Keeps World.skeleton (work handle)) :
    world.Advances
      (world.namespace.Abandoned (id.session path options work world).2.namespace)
      (id.session path options work world).2 := by
  rcases session_cases hn id path options hwork with
    ⟨failure, _, hrun⟩ | ⟨handle, opened, closed, opening, htakes, hclose, hrun⟩
  · rw [hrun]
    exact (World.Advances.refl hn).weaken nofun
  · have hopened := htakes.expands_after hn
    have hworked : opened.Expands (work handle opened).2 :=
      .of_same hopened.evolves.sound (World.namespace_of_skeleton (hwork handle opened))
        (World.tally_of_skeleton (hwork handle opened))
    have hexpands := World.Expands.trans hopened hworked
    have hclosed := handle.close_advances hexpands.evolves.sound
    rw [hclose] at hclosed
    rw [hrun]
    exact hexpands.abandons hn hclosed

end VolumeId

theorem Grant.release_keeps (grant : Grant) : Keeps World.skeleton grant.release :=
  keeps_modify fun _ => World.skeleton_modifyInode fun _ => rfl

end RamFs
