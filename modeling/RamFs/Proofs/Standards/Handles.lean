import RamFs.Proofs.Namespace.Closing
import RamFs.Proofs.Standards.Paths

/-!
Calls through handles keep a world in compliance with its registry. A file is opened in the tree
of the volume it is opened on, so what an open handle writes and stamps is under the rules of its
own volume; a handle that is closed does neither.
-/

namespace RamFs

open RamFs.Action

variable {s : Standard} {r : Registry} {volume : Volume} {now : Time}

/-! ### Opening -/

/-- What there is to open is in the tree of a volume that is configured so. -/
def World.OpenTarget.In (r : Registry) (config : Config) : World.OpenTarget → Prop
  | .existing entry _ => r.entry entry = config
  | .vacant directory _ => r.entry directory = config

namespace Complies

variable {world : World} {id : VolumeId} {createNew : Bool} {unseen : List EntryId} {path : Path}
  {options : OpenOptions} {target : World.OpenTarget} {parent : Visit} {found : Option Binding}

theorem lookup (h : Complies s r world) (hvolume : r.Grounds id volume)
    (hlookup : World.createTrail.lookup world volume path = .ok (parent, found)) :
    r.entry parent.entry = r.volume id ∧ ∀ binding ∈ found, r.entry binding.entry = r.volume id := by
  unfold World.createTrail.lookup at hlookup
  obtain ⟨visit, hvisit, hlookup⟩ := exists_of_bind_ok hlookup
  have hparent := h.trail hvolume hvisit
  split at hlookup
  case h_2 => cases hlookup
  case h_1 =>
    obtain ⟨names, hnames, hlookup⟩ := exists_of_bind_ok hlookup
    cases hlookup
    refine ⟨hparent, fun binding hfind => ?_⟩
    exact (h.bound hnames binding (Directory.find?_mem hfind)).trans hparent

theorem createTrail (h : Complies s r world) (hvolume : r.Grounds id volume)
    (htrail : (world.createTrail volume createNew unseen path).outcome = .ok target) :
    target.In r (r.volume id) := by
  fun_induction World.createTrail world volume createNew unseen path with
  | case1 => cases htrail
  | case2 unseen path parent hlookup =>
      cases htrail
      exact (h.lookup hvolume hlookup).1
  | case3 => cases htrail
  | case4 unseen path parent binding hlookup =>
      cases htrail
      exact (h.lookup hvolume hlookup).2 binding rfl
  | case5 => cases htrail
  | case6 _ _ _ _ _ _ _ _ _ _ _ _ ih => exact ih htrail
  | case7 => cases htrail

theorem openTrail (h : Complies s r world) (hvolume : r.Grounds id volume)
    (htrail : (world.openTrail volume path options).outcome = .ok target) :
    target.In r (r.volume id) := by
  unfold World.openTrail at htrail
  split at htrail
  case isTrue => exact h.createTrail hvolume htrail
  case isFalse =>
    obtain ⟨visit, hvisit, htrail⟩ := exists_of_bind_ok htrail
    cases htrail
    exact h.trail hvolume hvisit

end Complies

namespace VolumeId

variable {α : Type} {id : VolumeId} {post : α → Prop}

theorem reserveHandle_complies (id : VolumeId) : Maintains (Complies s r) id.reserveHandle := by
  unfold reserveHandle
  refine (volume_complies id).bind fun volume _ => ?_
  dsimp only
  split
  case isTrue => exact maintains_throw
  case isFalse => exact maintains_modify fun _ h => h.modifyVolume (fun _ => rfl) fun _ => rfl

theorem releaseHandle_complies (id : VolumeId) : Maintains (Complies s r) id.releaseHandle :=
  maintains_modify fun _ h => h.modifyVolume (fun _ => rfl) fun _ => rfl

theorem reserving_complies {action : Action α} (h : Maintains (Complies s r) action post) :
    Maintains (Complies s r) (id.reserving action) post := by
  unfold reserving
  refine (reserveHandle_complies id).bind fun _ _ => h.tryCatch fun failure => ?_
  exact (releaseHandle_complies id).bind fun _ _ => maintains_throw

theorem openTarget_complies {path : Path} {options : OpenOptions} (hvolume : r.Grounds id volume) :
    Maintains (Complies s r) (id.openTarget volume path options) (·.In r (r.volume id)) := by
  intro world h
  have hfollow : Maintains (Complies s r) (do
      id.releaseHandle
      id.reserveHandle : Action Unit) :=
    (releaseHandle_complies id).bind fun _ _ => reserveHandle_complies id
  unfold openTarget
  rw [bind_ok (get_apply world)]
  refine Maintains.bind (.forM (fun _ => hfollow) _) (fun _ _ => maintains_lift ?_) world h
  exact fun target => h.openTrail hvolume

theorem entryToOpen_complies {target : World.OpenTarget} (hvolume : r.Grounds id volume)
    (hmade : r.made = r.volume id) (htarget : target.In r (r.volume id)) :
    Maintains (Complies s r) (entryToOpen volume target) fun found =>
      r.entry found.1 = r.volume id := by
  unfold entryToOpen
  cases target with
  | existing entry path => exact maintains_pure htarget
  | vacant directory path =>
      dsimp only
      split
      case h_2 => exact maintains_throw
      case h_1 name _ =>
        refine maintains_get_bind fun world => ?_
        have hnow := hvolume.now s world
        refine (newFile_complies (hmade.trans hvolume.config.symm)).bind fun node hnode => ?_
        refine (addEntry_complies hnode (hmade ▸ hnow)).bind fun entry hentry => ?_
        have hhome : r.entry entry = r.volume id := hentry.trans hmade
        have hdirectory : r.entry directory = r.volume id := htarget
        refine (bind_complies (hhome.trans hdirectory.symm) (hdirectory ▸ hnow)).bind fun _ _ => ?_
        exact maintains_pure hhome

theorem openEntry_complies {options : OpenOptions} {entry : EntryId} {path : Path}
    (hvolume : r.Grounds id volume) (hentry : r.entry entry = r.volume id) :
    Maintains (Complies s r) (id.openEntry volume options entry path) := by
  unfold openEntry
  refine (entry_complies entry).bind fun found hfound => ?_
  refine (maintains_lift fun file => hfound.file).bind fun file hfile => ?_
  have hacquired : ∀ opened, file.acquire = .ok opened → r.inode opened.inode = r.entry entry := by
    intro opened hopened
    obtain ⟨-, rfl⟩ := FileNode.acquire_eq_ok.1 hopened
    exact hfile
  refine (maintains_lift hacquired).bind fun opened hopened => ?_
  dsimp only
  refine (maintains_modify fun _ h => h.modifyEntry fun _ h => h.withFile hopened).bind fun _ _ => ?_
  have hhandle : Maintains (Complies s r) (Action.add (·.addHandle
      { volume := id, entry, inode := file.inode, path, options })) :=
    maintains_add fun _ h => ⟨h.addHandle fun _ => hentry.symm, trivial⟩
  split
  case isFalse => exact hhandle
  case isTrue =>
    refine (maintains_modify fun _ h => ?_).bind fun _ _ => maintains_get_bind fun world => ?_
    · exact h.modifyInode fun _ hinode => s.store_truncate 0 hinode
    · exact (touchModified_complies (hentry ▸ hvolume.now s world)).bind fun _ _ => hhandle

theorem openFile_complies (hmade : r.made = r.volume id) (text : String) (options : OpenOptions) :
    Maintains (Complies s r) (id.openFile text options) := by
  unfold openFile
  dsimp only
  split
  case isTrue => exact maintains_throw
  case isFalse =>
    split
    case isTrue => exact maintains_throw
    case isFalse =>
      refine (volume_complies id).bind fun volume hvolume => ?_
      refine (maintains_lift fun _ _ => trivial).bind fun path _ => reserving_complies ?_
      refine (openTarget_complies hvolume).bind fun target htarget => ?_
      refine (entryToOpen_complies hvolume hmade htarget).bind fun found hfound => ?_
      exact openEntry_complies hvolume hfound

end VolumeId

/-! ### Through a handle -/

theorem Registry.Serves.fits {handle : Handle} (h : r.Serves handle)
    (hopen : handle.checkOpen = .ok ()) : r.Fits handle :=
  h (Handle.checkOpen_eq_ok.1 hopen)

namespace Handle

variable {handle : Handle}

theorem checkReadable_open (hcheck : handle.checkReadable = .ok ()) : handle.checkOpen = .ok () :=
  (exists_of_bind_ok hcheck).choose_spec.1

theorem checkWritable_open (hcheck : handle.checkWritable = .ok ()) : handle.checkOpen = .ok () :=
  (exists_of_bind_ok hcheck).choose_spec.1

theorem stamp_complies {change : Entry → Time → Entry} (hfits : r.Fits handle)
    (hchange : ∀ {config entry now}, r.Admits s config entry → s.time config now →
      r.Admits s config (change entry now)) :
    Maintains (Complies s r) (handle.stamp change) := by
  unfold stamp
  refine (volume_complies handle.volume).bind fun volume hvolume => maintains_modify fun world h => ?_
  exact h.modifyEntry fun entry hentry => hchange hentry (hfits ▸ hvolume.now s world)

theorem touchAccessed_complies (hfits : r.Fits handle) :
    Maintains (Complies s r) (handle.stamp Entry.touchAccessed) :=
  stamp_complies hfits .touchAccessed

theorem touchModified_complies (hfits : r.Fits handle) :
    Maintains (Complies s r) (handle.stamp Entry.touchModified) :=
  stamp_complies hfits .touchModified

theorem setInode_complies {inode : Inode} (hinode : s.store (r.inode handle.inode) inode.store) :
    Maintains (Complies s r) (handle.setInode inode) :=
  maintains_modify fun _ h => h.modifyInode fun _ _ => hinode

end Handle

namespace HandleId

variable {id : HandleId}

theorem checked_complies {check : Handle → Except Failure Unit}
    (hcheck : ∀ handle, check handle = .ok () → handle.checkOpen = .ok ()) :
    Maintains (Complies s r) (id.checked check) fun found =>
      r.Fits found.1 ∧ s.store (r.inode found.1.inode) found.2.store := by
  unfold checked
  refine (maintains_ask fun _ _ h => h.serves).bind fun handle hserves => ?_
  have hpasses : ∀ passed, check handle = .ok passed → r.Fits handle :=
    fun _ hpassed => hserves.fits (hcheck handle hpassed)
  refine (maintains_lift hpasses).bind fun _ hfits => ?_
  exact (inode_complies handle.inode).bind fun inode hinode => maintains_pure ⟨hfits, hinode⟩

theorem setCursor_complies (id : HandleId) (position : Nat) :
    Maintains (Complies s r) (id.setCursor position) :=
  maintains_modify fun _ h => h.modifyHandle fun _ hhandle => hhandle

theorem readAt_complies (id : HandleId) (offset count : Nat) :
    Maintains (Complies s r) (id.readAt offset count) := by
  unfold readAt
  refine (checked_complies fun _ => Handle.checkReadable_open).bind fun ⟨handle, inode⟩ hfound => ?_
  exact (Handle.touchAccessed_complies hfound.1).bind fun _ _ => maintains_pure trivial

theorem read_complies (id : HandleId) (count : Nat) : Maintains (Complies s r) (id.read count) := by
  unfold read
  refine (maintains_ask fun _ _ _ _ => trivial).bind fun handle _ => ?_
  refine (id.readAt_complies handle.position count).bind fun bytes _ => ?_
  exact (id.setCursor_complies _).bind fun _ _ => maintains_pure trivial

theorem writeAt_complies (id : HandleId) (offset : Nat) (bytes : Bytes) :
    Maintains (Complies s r) (id.writeAt offset bytes) := by
  unfold writeAt
  refine (checked_complies fun _ => Handle.checkWritable_open).bind fun ⟨handle, inode⟩ hfound => ?_
  refine (maintains_lift fun _ => s.store_write hfound.2).bind fun store hstore => ?_
  refine (Handle.setInode_complies hstore).bind fun _ _ => ?_
  exact Handle.touchModified_complies hfound.1

theorem write_complies (id : HandleId) (bytes : Bytes) :
    Maintains (Complies s r) (id.write bytes) := by
  unfold write
  refine (checked_complies fun _ => Handle.checkWritable_open).bind fun ⟨handle, inode⟩ hfound => ?_
  refine (maintains_lift fun _ => s.store_write hfound.2).bind fun store hstore => ?_
  refine (Handle.setInode_complies hstore).bind fun _ _ => ?_
  exact (id.setCursor_complies _).bind fun _ _ => Handle.touchModified_complies hfound.1

theorem truncate_complies (id : HandleId) (size : Nat) :
    Maintains (Complies s r) (id.truncate size) := by
  unfold truncate
  refine (checked_complies fun _ => Handle.checkWritable_open).bind fun ⟨handle, inode⟩ hfound => ?_
  have hstore : s.store (r.inode handle.inode) (inode.truncate size).store :=
    s.store_truncate size hfound.2
  refine (Handle.setInode_complies hstore).bind fun _ _ => ?_
  exact (id.setCursor_complies _).bind fun _ _ => Handle.touchModified_complies hfound.1

theorem setPosition_complies (id : HandleId) (position : Nat) :
    Maintains (Complies s r) (id.setPosition position) := by
  unfold setPosition
  exact (checked_complies fun _ h => h).bind fun _ _ => id.setCursor_complies position

theorem size_complies (id : HandleId) : Maintains (Complies s r) id.size := by
  unfold size
  exact (checked_complies fun _ h => h).bind fun _ _ => maintains_pure trivial

theorem sync_complies (id : HandleId) : Maintains (Complies s r) id.sync := by
  unfold sync
  exact (checked_complies fun _ h => h).bind fun _ _ => maintains_pure trivial

theorem metadata_complies (id : HandleId) : Maintains (Complies s r) id.metadata := by
  unfold metadata
  refine (checked_complies fun _ h => h).bind fun ⟨handle, _⟩ _ => ?_
  exact (entry_complies handle.entry).bind fun entry _ => maintains_ask fun _ _ _ _ => trivial

theorem writeAll_complies (id : HandleId) (bytes : Bytes) :
    Maintains (Complies s r) (id.writeAll bytes) := by
  unfold writeAll
  split
  case isTrue => exact maintains_pure trivial
  case isFalse => exact id.write_complies bytes

theorem readToEnd_complies (id : HandleId) : Maintains (Complies s r) id.readToEnd := by
  unfold readToEnd
  refine (checked_complies fun _ => Handle.checkReadable_open).bind fun ⟨_, inode⟩ _ => ?_
  exact id.read_complies inode.size

theorem seek_complies (id : HandleId) (origin : SeekOrigin) (distance : Int) :
    Maintains (Complies s r) (id.seek origin distance) := by
  have hmove : ∀ base : Nat, Maintains (Complies s r) (do
      let target := (base : Int) + distance
      if target < 0 ∨ target > maxOffset then
        throw ⟨.invalidInput, "seek before start of file"⟩
      (id.setPosition target.toNat).asStream
      return target.toNat : StreamAction Nat) := by
    intro base
    dsimp only
    split
    case isTrue => exact maintains_throw
    case isFalse => exact (id.setPosition_complies _).asStream.bind fun _ _ => maintains_pure trivial
  have hpure : ∀ base : Nat, Maintains (Complies s r) (pure base : StreamAction Nat) :=
    fun _ => maintains_pure trivial
  unfold seek
  cases origin with
  | start => exact (hpure 0).bind fun _ _ => hmove _
  | current =>
      refine (maintains_ask fun _ _ _ _ => trivial).asStream.bind fun handle _ => ?_
      exact (hpure handle.position).bind fun _ _ => hmove _
  | finish => exact id.size_complies.asStream.bind fun _ _ => hmove _

theorem lock_complies (id : HandleId) (offset length : Nat) (cancelled : Bool) :
    Maintains (Complies s r) (id.lock offset length cancelled) := by
  unfold lock
  refine (checked_complies fun _ h => h).bind fun ⟨handle, inode⟩ hfound => ?_
  refine (maintains_lift fun _ _ => trivial).bind fun ⟨lock, locks⟩ _ => ?_
  have hstore : s.store (r.inode handle.inode) { inode with locks }.store := hfound.2
  refine (Handle.setInode_complies hstore).bind fun _ _ => ?_
  refine (maintains_modify fun _ h => ?_).bind fun _ _ => maintains_pure trivial
  exact h.modifyHandle fun _ hhandle => hhandle

/-! ### Transfers -/

theorem outgoing_complies (id : HandleId) (offset count : Nat) :
    Maintains (Complies s r) (id.outgoing offset count) fun found => r.Fits found.1 := by
  unfold outgoing
  refine (checked_complies fun _ => Handle.checkReadable_open).bind fun ⟨handle, inode⟩ hfound => ?_
  exact maintains_pure hfound.1

theorem transferTo_complies (id : HandleId) (offset count : Nat) (sink : Sink) :
    ∀ world, Complies s r world → Complies s r (id.transferTo offset count sink world).2 := by
  unfold transferTo
  refine (id.outgoing_complies offset count).run_bind fun outcome hfits => ?_
  split
  case h_1 => exact fun _ h => h
  case h_2 handle pieces =>
    have hstamp := Handle.touchAccessed_complies (s := s) (hfits _ rfl)
    cases deliver Sink.writeAll sink pieces with
    | mk delivered sink =>
        cases delivered with
        | error failure => exact fun _ h => h
        | ok _ => exact hstamp.run_bind fun _ _ _ h => h

theorem transferFrom_complies (id : HandleId) (offset count : Nat) (source : Source) :
    ∀ world, Complies s r world → Complies s r (id.transferFrom offset count source world).2 := by
  unfold transferFrom
  refine (checked_complies fun _ => Handle.checkWritable_open).run_bind fun outcome hfound => ?_
  split
  case h_1 => exact fun _ h => h
  case h_2 handle inode =>
    obtain ⟨hfits, hstore⟩ := hfound _ rfl
    have hfilled : s.store (r.inode handle.inode)
        { inode with store := (inode.store.transferFrom offset count source).store }.store :=
      s.store_transfer offset count source hstore
    refine (Handle.setInode_complies hfilled).run_bind fun _ _ => ?_
    cases (inode.store.transferFrom offset count source).result with
    | error failure => exact fun _ h => h
    | ok moved =>
        dsimp only
        split
        case isTrue => exact (Handle.touchModified_complies hfits).run_bind fun _ _ _ h => h
        case isFalse => exact fun _ h => h

theorem transferToHandle_complies (id : HandleId) (offset count : Nat) (other : HandleId) :
    Maintains (Complies s r) (id.transferToHandle offset count other) := by
  unfold transferToHandle
  refine (id.outgoing_complies offset count).bind fun ⟨handle, pieces⟩ hfits => ?_
  refine (Maintains.forM (fun piece => (other.write_complies piece).throughStream) _).bind
    fun _ _ => ?_
  exact (Handle.touchAccessed_complies hfits).bind fun _ _ => maintains_pure trivial

theorem consumed_complies (id : HandleId) (before after : Source) :
    Maintains (Complies s r) (id.consumed before after) := by
  unfold consumed
  refine (maintains_ask fun _ _ h => h.serves).bind fun handle hserves => ?_
  split
  case h_1 => exact maintains_pure trivial
  case h_2 hreadable =>
    split
    case isFalse => exact maintains_pure trivial
    case isTrue =>
      refine (id.setCursor_complies _).bind fun _ _ => Handle.touchAccessed_complies ?_
      exact hserves.fits (Handle.checkReadable_open hreadable)

theorem transferFromHandle_complies (id : HandleId) (offset count : Nat) (other : HandleId) :
    Maintains (Complies s r) (id.transferFromHandle offset count other) := by
  unfold transferFromHandle
  refine maintains_get_bind fun world => ?_
  refine (maintains_liftState (id.transferFrom_complies offset count _)).bind fun found _ => ?_
  exact (other.consumed_complies _ _).bind fun _ _ => maintains_lift fun _ _ => trivial

/-! ### Closing -/

theorem releaseEntry_complies (handle : Handle) :
    Maintains (Complies s r) (releaseEntry handle) := by
  unfold releaseEntry
  intro world h
  rw [bind_ok (get_apply world)]
  cases hfound : world.entry handle.entry >>= Entry.file with
  | error failure => exact ⟨h, fun _ _ => trivial⟩
  | ok file =>
      obtain ⟨entry, hentry, hfile⟩ := exists_of_bind_ok hfound
      have hinode : r.inode file.release.inode = r.entry handle.entry :=
        file.inode_release ▸ (h.admits hentry).file hfile
      exact ⟨h.modifyEntry fun _ hentry => hentry.withFile hinode, fun _ _ => trivial⟩

theorem close_complies (id : HandleId) : Maintains (Complies s r) id.close := by
  unfold close
  refine (maintains_ask fun _ _ _ _ => trivial).bind fun handle _ => ?_
  split
  case isFalse => exact maintains_pure trivial
  case isTrue =>
    refine (maintains_modify fun _ h => h.modifyHandle fun _ _ => nofun).bind fun _ _ => ?_
    have hrelease : ∀ lock, Maintains (Complies s r) (Grant.mk handle.inode lock).release :=
      fun lock => maintains_modify fun _ h => h.modifyInode fun _ hinode => hinode
    refine (Maintains.forM hrelease _).bind fun _ _ => ?_
    refine (releaseEntry_complies handle).bind fun abandoned _ => ?_
    refine (volume_complies handle.volume).bind fun volume _ => ?_
    split
    case isFalse => exact maintains_pure trivial
    case isTrue =>
      refine (handle.volume.releaseHandle_complies).bind fun _ _ => ?_
      split
      case isFalse => exact maintains_pure trivial
      case isTrue =>
        refine (handle.volume.deleteEntry_complies _ _).tryCatch fun _ => ?_
        exact maintains_pure trivial

end HandleId

theorem Grant.release_complies (grant : Grant) : Maintains (Complies s r) grant.release :=
  maintains_modify fun _ h => h.modifyInode fun _ hinode => hinode

/-- Work that complies may be done between opening and closing a file. -/
theorem VolumeId.session_complies {α : Type} {id : VolumeId} {work : HandleId → Action α}
    (hmade : r.made = r.volume id) (path : String) (options : OpenOptions)
    (hwork : ∀ handle, Maintains (Complies s r) (work handle)) :
    Maintains (Complies s r) (id.session path options work) := by
  unfold session
  refine (openFile_complies hmade path options).bind fun handle _ => ?_
  refine (hwork handle).attempt.bind fun outcome _ => ?_
  exact handle.close_complies.bind fun _ _ => maintains_lift fun _ _ => trivial

end RamFs
