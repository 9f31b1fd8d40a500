import RamFs.Proofs.Namespace.Lasting
import RamFs.Proofs.Namespace.Reachable

/-!
What lasts and holds of tidy worlds only is kept by every call on a path, by closing a handle and
by a whole session with a file. The invariant itself does not matter here: a call is followed
from change to change, and tidiness tells that what it binds are names and that what it opens is
where the path of the handle says. Only calls that cut a file ask for more.
-/

namespace RamFs

open RamFs.Action

/-- The invariant lasts, and whatever it holds of is tidy. -/
structure Durable (invariant : World → Prop) : Prop extends Lasting invariant where
  tidy : ∀ {world}, invariant world → world.Tidy

theorem durable_tidy : Durable World.Tidy :=
  { tidy_lasting with tidy := id }

/-- Files may be cut under the invariant. -/
def Cuts (invariant : World → Prop) : Prop :=
  ∀ world id size, invariant world → invariant (world.modifyInode id (·.truncate size))

theorem Cuts.and {invariant other : World → Prop} (h : Cuts invariant) (hother : Cuts other) :
    Cuts fun world => invariant world ∧ other world :=
  fun world id size hworld => ⟨h world id size hworld.1, hother world id size hworld.2⟩

theorem cuts_tracks (handle : Handle) : Cuts fun world => world.Tracks handle :=
  fun _ _ _ hworld => ⟨hworld.inode, hworld.path⟩

theorem cuts_tidy : Cuts World.Tidy :=
  fun world id size hworld => ⟨hworld.entries, hworld.volumes, fun i handle hhandle =>
    cuts_tracks handle world id size (hworld.handles i handle hhandle)⟩

theorem Action.maintains_of {α : Type} {invariant : World → Prop} {action : Action α}
    (h : ∀ world, invariant world → invariant (action world).2) : Maintains invariant action :=
  fun world hworld => ⟨h world hworld, fun _ _ => trivial⟩

theorem FileNode.inode_markDeleted {file gone : FileNode} (h : file.markDeleted = .ok gone) :
    gone.inode = file.inode := by
  unfold FileNode.markDeleted at h
  split at h
  case h_1 => exact (congrArg FileNode.inode (Except.ok.inj h) :).symm
  case h_2 => cases h
  case h_3 => cases h

theorem FileNode.inode_acquire {file opened : FileNode} (h : file.acquire = .ok opened) :
    opened.inode = file.inode := by
  obtain ⟨-, rfl⟩ := FileNode.acquire_eq_ok.1 h
  rfl

namespace Durable

variable {invariant : World → Prop} {id : VolumeId} {volume : Volume} {collation : Collation}
  {directory entry : EntryId} {name text : String} {kind : Kind} {now : Time} {world : World}

theorem and (h : Durable invariant) {other : World → Prop} (hother : Lasting other) :
    Durable fun world => invariant world ∧ other world :=
  { h.toLasting.and hother with tidy := fun hworld => h.tidy hworld.1 }

/-! ### Steps on one entry -/

theorem bind (h : Durable invariant) (hname : Path.IsName name) :
    Maintains invariant (Action.bind directory collation name kind entry now) := by
  refine maintains_of fun world hworld => ?_
  unfold Action.bind
  refine ask_bind_invariant hworld fun names hnames => ?_
  refine lift_bind_invariant hworld fun bound hbound => ?_
  obtain ⟨_, rfl⟩ := Directory.insert_eq_ok.1 hbound
  refine h.directory hworld hnames (fun binding hmem => ?_) fun _ => rfl
  rcases Directory.mem_insertOrdered.1 hmem with rfl | hold
  · exact hname
  · exact (h.tidy hworld).bindings hnames binding hold

theorem unbind (h : Durable invariant) :
    Maintains invariant (Action.unbind directory collation name) := by
  refine maintains_of fun world hworld => ?_
  unfold Action.unbind
  refine ask_bind_invariant hworld fun names hnames => ?_
  refine h.directory hworld hnames (fun binding hmem => ?_) fun _ => rfl
  exact (h.tidy hworld).bindings hnames binding (Directory.mem_erase.1 hmem).1

theorem touchModified (h : Durable invariant) :
    Maintains invariant (Action.touchModified entry now) :=
  maintains_modify fun _ hworld => h.attributes hworld fun _ => rfl

theorem markDeleted (h : Durable invariant) : Maintains invariant (Action.markDeleted entry) := by
  refine maintains_of fun world hworld => ?_
  unfold Action.markDeleted
  refine ask_bind_invariant hworld fun found hfound => ?_
  have hnode := World.node?_of_entry hfound
  cases hkind : found.node with
  | directory names => exact hworld
  | symlink target => exact hworld
  | file file =>
      rw [hkind] at hnode
      refine lift_bind_invariant hworld fun gone hgone => ?_
      rw [bind_ok (modify_apply ..)]
      exact h.inode (h.file hworld hnode (FileNode.inode_markDeleted hgone)) fun _ => rfl

theorem newEntry (h : Durable invariant) {new : Entry} (hidle : new.node.IsIdle) :
    Maintains invariant (Action.add (·.addEntry new)) :=
  maintains_add fun _ hworld => ⟨h.new_entry hworld hidle, trivial⟩

theorem newInode (h : Durable invariant) {new : Inode} :
    Maintains invariant (Action.add (·.addInode new)) :=
  maintains_add fun _ hworld => ⟨h.new_inode hworld, trivial⟩

/-! ### Creation -/

theorem createEntry (h : Durable invariant) {owner : Ownership} {newNode : Action Node}
    (hnode : Maintains invariant newNode Node.IsIdle) :
    Maintains invariant (id.createEntry text owner kind newNode) := by
  refine maintains_of fun world hworld => ?_
  unfold VolumeId.createEntry
  refine ask_bind_invariant hworld fun volume hvolume => ?_
  refine lift_bind_invariant hworld fun path hparse => ?_
  dsimp only
  split
  case isTrue => exact hworld
  case isFalse =>
    refine ask_bind_invariant hworld fun parent hparent => ?_
    cases hname : parent.path.fileName? with
    | none => exact hworld
    | some name =>
      have htidy := h.tidy hworld
      have hlies := htidy.walk_lies (htidy.grounded hvolume) (Path.parse_isName hparse) hparent
      refine ask_bind_invariant hworld fun names _ => ?_
      split
      case isTrue => exact hworld
      case isFalse =>
        rw [bind_ok (get_apply _)]
        refine ((hnode.bind fun node hidle => ?_ : Maintains invariant _) world hworld).1
        refine (h.newEntry hidle).bind fun entry _ => ?_
        exact h.bind (hlies.names name (List.mem_of_getLast? hname))

theorem newFile (h : Durable invariant) :
    Maintains invariant (VolumeId.newFile volume) Node.IsIdle := by
  unfold VolumeId.newFile
  exact h.newInode.bind fun _ _ => maintains_pure rfl

theorem createDirectory (h : Durable invariant) {request : OwnerRequest} :
    Maintains invariant (id.createDirectory text request) := by
  unfold VolumeId.createDirectory
  exact (maintains_ask fun _ _ _ _ => trivial).bind fun _ _ => h.createEntry (maintains_pure rfl)

theorem createFile (h : Durable invariant) {request : OwnerRequest} :
    Maintains invariant (id.createFile text request) := by
  unfold VolumeId.createFile
  exact (maintains_ask fun _ _ _ _ => trivial).bind fun _ _ => h.createEntry h.newFile

theorem createSymlink (h : Durable invariant) {target : String} :
    Maintains invariant (id.createSymlink text target) := by
  unfold VolumeId.createSymlink
  refine (maintains_ask fun _ _ _ _ => trivial).bind fun _ _ => ?_
  refine (maintains_lift fun _ _ => trivial).bind fun _ _ => ?_
  exact h.createEntry (maintains_pure trivial)

/-! ### Deletion -/

theorem deleteEntry (h : Durable invariant) {path : Path} {expected : Option EntryId} :
    Maintains invariant (id.deleteEntry path expected) := by
  unfold VolumeId.deleteEntry
  dsimp only
  split
  case isTrue => exact maintains_throw
  case isFalse =>
    refine (maintains_ask fun _ _ _ _ => trivial).bind fun volume _ => ?_
    refine (maintains_ask fun _ _ _ _ => trivial).bind fun parent _ => ?_
    split
    case h_2 => exact maintains_throw
    case h_1 =>
      refine (maintains_ask fun _ _ _ _ => trivial).bind fun names _ => ?_
      split
      case h_2 => exact maintains_throw
      case h_1 =>
        split
        case isTrue => exact maintains_throw
        case isFalse =>
          refine (maintains_ask fun _ _ _ _ => trivial).bind fun found _ => ?_
          refine (maintains_lift fun _ _ => trivial).bind fun _ _ => ?_
          refine h.markDeleted.bind fun _ _ => h.unbind.bind fun _ _ => ?_
          exact maintains_get_bind fun _ => h.touchModified

theorem delete (h : Durable invariant) : Maintains invariant (id.delete text) := by
  unfold VolumeId.delete
  refine (maintains_ask fun _ _ _ _ => trivial).bind fun _ _ => ?_
  exact (maintains_lift fun _ _ => trivial).bind fun _ _ => h.deleteEntry

/-! ### Attributes -/

theorem modifyAt (h : Durable invariant) {change : Entry → Entry}
    (hchange : ∀ entry, (change entry).node = entry.node) :
    Maintains invariant (id.modifyAt text change) := by
  unfold VolumeId.modifyAt
  exact (maintains_ask fun _ _ _ _ => trivial).bind fun _ _ =>
    maintains_modify fun _ hworld => h.attributes hworld hchange

theorem setTimes (h : Durable invariant) {times : TimesRequest} :
    Maintains invariant (id.setTimes text times) := by
  unfold VolumeId.setTimes
  exact (maintains_ask fun _ _ _ _ => trivial).bind fun _ _ => h.modifyAt fun _ => rfl

theorem truncate (h : Durable invariant) (hcuts : Cuts invariant) {size : Nat} :
    Maintains invariant (id.truncate text size) := by
  unfold VolumeId.truncate
  refine (maintains_ask fun _ _ _ _ => trivial).bind fun _ _ => ?_
  refine (maintains_ask fun _ _ _ _ => trivial).bind fun _ _ => ?_
  refine (maintains_lift fun _ _ => trivial).bind fun _ _ => ?_
  refine (maintains_modify fun world hworld => hcuts world _ size hworld).bind fun _ _ => ?_
  exact maintains_get_bind fun _ => h.touchModified

/-! ### Copies, moves and links -/

theorem duplicateNode (h : Durable invariant) {node : Node} :
    Maintains invariant (Action.duplicateNode node) Node.IsIdle := by
  unfold Action.duplicateNode
  cases node with
  | directory names => exact maintains_pure rfl
  | symlink target => exact maintains_pure trivial
  | file file =>
      refine (maintains_ask fun _ _ _ _ => trivial).bind fun _ _ => ?_
      exact h.newInode.bind fun _ _ => maintains_pure rfl

theorem duplicate (h : Durable invariant) {keepAttributes : Bool} :
    Maintains invariant (Action.duplicate volume entry keepAttributes) := by
  unfold Action.duplicate
  refine (maintains_ask fun _ _ _ _ => trivial).bind fun found _ => ?_
  refine h.duplicateNode.bind fun node hidle => maintains_get_bind fun world => h.newEntry ?_
  split <;> exact hidle

theorem arrival (h : Durable invariant) {op : Relocation} {sameVolume : Bool} :
    Maintains invariant (op.arrival sameVolume volume entry) := by
  unfold Relocation.arrival
  cases op with
  | copy options => exact h.duplicate
  | move options =>
      cases sameVolume with
      | true => exact maintains_pure trivial
      | false => exact h.duplicate
  | link =>
      refine (maintains_ask fun _ _ _ _ => trivial).bind fun _ _ => ?_
      refine (maintains_lift fun _ _ => trivial).bind fun file _ => ?_
      exact maintains_get_bind fun _ => h.newEntry rfl

theorem vacate (h : Durable invariant) {op : Relocation} {sameVolume : Bool} {src : Slot}
    {moving : Binding} : Maintains invariant (op.vacate sameVolume volume src moving) := by
  unfold Relocation.vacate
  cases op with
  | copy options => exact maintains_pure trivial
  | move options =>
      refine h.unbind.bind fun _ _ => maintains_get_bind fun _ => ?_
      refine h.touchModified.bind fun _ _ => ?_
      cases sameVolume with
      | true => exact maintains_pure trivial
      | false => exact h.markDeleted
  | link =>
      refine (maintains_ask fun _ _ _ _ => trivial).bind fun _ _ => ?_
      refine (maintains_lift fun _ _ => trivial).bind fun _ _ => ?_
      exact maintains_modify fun _ hworld => h.inode hworld fun _ => rfl

theorem clear (h : Durable invariant) {dst : Slot} {replaced : Option Binding} :
    Maintains invariant (Relocation.clear dst collation replaced) := by
  unfold Relocation.clear
  cases replaced with
  | none => exact maintains_pure trivial
  | some binding => exact h.markDeleted.bind fun _ _ => h.unbind

theorem settle (h : Durable invariant) {dst : Slot} (hname : Path.IsName dst.name) :
    Maintains invariant (Relocation.settle volume dst kind entry) := by
  unfold Relocation.settle
  exact maintains_get_bind fun _ => h.bind hname

theorem commit (h : Durable invariant) {op : Relocation} {sourceVolume : Volume} {src dst : Slot}
    {plan : Relocation.Plan} (hname : Path.IsName dst.name) :
    Maintains invariant (op.commit sourceVolume volume src dst plan) := by
  rw [Relocation.commit_eq]
  refine h.arrival.bind fun entry _ => ?_
  exact h.clear.bind fun _ _ => h.vacate.bind fun _ _ => h.settle hname

theorem respell (h : Durable invariant) {slot : Slot} {binding : Binding}
    (hname : Path.IsName slot.name) :
    Maintains invariant (Relocation.respell slot collation binding) := by
  refine maintains_of fun world hworld => ?_
  unfold Relocation.respell
  refine ask_bind_invariant hworld fun names hnames => ?_
  refine lift_bind_invariant hworld fun respelled hrespelled => ?_
  obtain ⟨_, rfl⟩ := Directory.insert_eq_ok.1 hrespelled
  refine h.directory hworld hnames (fun other hmem => ?_) fun _ => rfl
  rcases Directory.mem_insertOrdered.1 hmem with rfl | hold
  · exact hname
  · exact (h.tidy hworld).bindings hnames other (Directory.mem_erase.1 hold).1

theorem run (h : Durable invariant) {op : Relocation} {targetId : VolumeId} {source target : Path}
    (htarget : ∀ name ∈ target.elements, Path.IsName name) :
    Maintains invariant (op.run id source targetId target) := by
  refine maintains_of fun world hworld => ?_
  rw [Relocation.run_eq]
  refine ask_bind_invariant hworld fun decision hdecision => ?_
  rcases Relocation.decision_cases hdecision with
    rfl | ⟨_, dst, same, rfl, hrespelled⟩ | ⟨_, _, src, dst, plan, rfl, hdecided⟩
  · exact hworld
  · exact (h.respell (World.slot_isName htarget hrespelled.target_slot) world hworld).1
  · exact (h.commit (World.slot_isName htarget hdecided.target_slot) world hworld).1

/-- A copy or a move reads its two paths first. -/
theorem relocate (h : Durable invariant) {op : Relocation} {targetId : VolumeId}
    {target : String} : Maintains invariant (do
      let sourcePath ← (← Action.ask (·.volume id)).parse text
      let targetPath ← (← Action.ask (·.volume targetId)).parse target
      op.run id sourcePath targetId targetPath : Action Unit) := by
  refine (maintains_ask fun _ _ _ _ => trivial).bind fun _ _ => ?_
  refine (maintains_lift fun _ _ => trivial).bind fun _ _ => ?_
  refine (maintains_ask fun _ _ _ _ => trivial).bind fun _ _ => ?_
  exact (maintains_lift fun _ => Path.parse_isName).bind fun _ htarget => h.run htarget

theorem createHardLink (h : Durable invariant) {existing : String} :
    Maintains invariant (id.createHardLink text existing) := by
  unfold VolumeId.createHardLink
  refine (maintains_ask fun _ _ _ _ => trivial).bind fun _ _ => ?_
  refine (maintains_lift fun _ _ => trivial).bind fun _ _ => ?_
  exact (maintains_lift fun _ => Path.parse_isName).bind fun _ htarget => h.run htarget

/-! ### Opening -/

theorem releaseHandle (h : Durable invariant) : Maintains invariant id.releaseHandle :=
  maintains_modify fun _ hworld => h.volume hworld fun _ => ⟨rfl, rfl⟩

theorem reserveHandle (h : Durable invariant) : Maintains invariant id.reserveHandle := by
  unfold VolumeId.reserveHandle
  refine (maintains_ask fun _ _ _ _ => trivial).bind fun volume _ => ?_
  dsimp only
  split
  case isTrue => exact maintains_throw
  case isFalse => exact maintains_modify fun _ hworld => h.volume hworld fun _ => ⟨rfl, rfl⟩

theorem reserving (h : Durable invariant) {α : Type} {action : Action α}
    (haction : Maintains invariant action) : Maintains invariant (id.reserving action) := by
  unfold VolumeId.reserving
  refine h.reserveHandle.bind fun _ _ => haction.tryCatch fun failure => ?_
  exact h.releaseHandle.bind fun _ _ => maintains_throw

theorem openTarget (h : Durable invariant) {path : Path} {options : OpenOptions}
    (hvolume : volume.Grounded) (hpath : ∀ name ∈ path.elements, Path.IsName name) :
    Maintains invariant (id.openTarget volume path options) fun target =>
      target.resolved.Lies volume.config.roots := by
  intro world hworld
  have hlinks : ∀ link : EntryId, Maintains invariant (do
      id.releaseHandle
      id.reserveHandle : Action Unit) :=
    fun _ => h.releaseHandle.bind fun _ _ => h.reserveHandle
  unfold VolumeId.openTarget
  rw [bind_ok (get_apply _)]
  refine Maintains.bind (Maintains.forM hlinks _) (fun _ _ => maintains_lift ?_) world hworld
  exact fun target => (h.tidy hworld).openTrail_lies hvolume hpath

theorem entryToOpen (h : Durable invariant) {target : World.OpenTarget}
    (htarget : target.resolved.Lies volume.config.roots) :
    Maintains invariant (VolumeId.entryToOpen volume target) fun found =>
      found.2.Lies volume.config.roots := by
  cases target with
  | existing entry path => exact maintains_pure htarget
  | vacant directory path =>
      unfold VolumeId.entryToOpen
      dsimp only
      split
      case h_2 => exact maintains_throw
      case h_1 name hname =>
        refine maintains_get_bind fun world => h.newFile.bind fun node hidle => ?_
        refine (h.newEntry hidle).bind fun entry _ => ?_
        refine (h.bind (htarget.names name (List.mem_of_getLast? hname))).bind fun _ _ => ?_
        exact maintains_pure htarget

/-- A handle is made on the inode of the file that it opens. -/
theorem openEntry (h : Durable invariant) {options : OpenOptions} {path : Path}
    (hcuts : (options.truncate && options.write) = true → Cuts invariant)
    (hpath : ∀ world, invariant world →
      ∃ found, world.volume id = .ok found ∧ path.Lies found.config.roots) :
    Maintains invariant (id.openEntry volume options entry path) := by
  refine maintains_of fun world hworld => ?_
  unfold VolumeId.openEntry
  refine ask_bind_invariant hworld fun found hfound => ?_
  refine lift_bind_invariant hworld fun file hfile => ?_
  refine lift_bind_invariant hworld fun opened hopened => ?_
  have hnode : world.namespace.node? entry = some (.file file) :=
    Entry.file_eq_ok.1 hfile ▸ World.node?_of_entry hfound
  have htracks : world.Tracks { volume := id, entry, inode := file.inode, path, options } :=
    ⟨World.inodeOf?_eq_some.2 ⟨file, hnode, rfl⟩, hpath world hworld⟩
  have hinode : FileNode.inode { opened with
      deleteOnClose := opened.deleteOnClose || options.deleteOnClose } = file.inode :=
    (FileNode.inode_acquire hopened :)
  dsimp only
  generalize Handle.mk id entry file.inode path options 0 [] true = handle at htracks ⊢
  -- what the handle relies on stays until the handle is there
  have hboth := h.and (tracks_lasting handle)
  have hhandle : Maintains (fun world => invariant world ∧ world.Tracks handle)
      (Action.add (·.addHandle handle)) :=
    maintains_add fun _ hworld => ⟨hboth.new_handle hworld hworld.2, trivial⟩
  have hready := hboth.file ⟨hworld, htracks⟩ hnode hinode
  rw [bind_ok (modify_apply ..)]
  split
  case isFalse => exact (hhandle _ hready).1.1
  case isTrue htruncate =>
    rw [bind_ok (modify_apply ..)]
    have hcut := (hcuts htruncate).and (cuts_tracks handle) _ file.inode 0 hready
    have hrest : Maintains (fun world => invariant world ∧ world.Tracks handle) (do
        Action.touchModified entry ((← get).now volume)
        Action.add (·.addHandle handle)) :=
      maintains_get_bind fun _ => hboth.touchModified.bind fun _ _ => hhandle
    exact (hrest _ hcut).1.1

theorem openFile (h : Durable invariant) {options : OpenOptions}
    (hcuts : (options.truncate && options.write) = true → Cuts invariant) :
    Maintains invariant (id.openFile text options) := by
  refine maintains_of fun world hworld => ?_
  unfold VolumeId.openFile
  dsimp only
  split
  case isTrue => exact hworld
  case isFalse =>
    split
    case isTrue => exact hworld
    case isFalse =>
      refine ask_bind_invariant hworld fun volume hvolume => ?_
      refine lift_bind_invariant hworld fun path hparse => ?_
      -- the volume may count other handles by now, but is configured as before
      have hboth := h.and (config_lasting id (· = volume.config))
      refine (hboth.reserving ?_ world ⟨hworld, volume, hvolume, rfl⟩).1.1
      have hgrounded := (h.tidy hworld).grounded hvolume
      refine (hboth.openTarget hgrounded (Path.parse_isName hparse)).bind fun target htarget => ?_
      refine (hboth.entryToOpen htarget).bind fun found hfound => hboth.openEntry ?_ ?_
      · exact fun htruncate => (hcuts htruncate).and fun _ _ _ hworld => hworld
      · rintro world ⟨_, volume', hvolume', hconfig⟩
        exact ⟨volume', hvolume', hconfig ▸ hfound⟩

/-! ### Closing -/

theorem releaseEntry (h : Durable invariant) {handle : Handle} :
    Maintains invariant (HandleId.releaseEntry handle) := by
  refine maintains_of fun world hworld => ?_
  unfold HandleId.releaseEntry
  rw [bind_ok (get_apply _)]
  cases hfile : world.entry handle.entry >>= Entry.file with
  | error failure => exact hworld
  | ok file =>
      obtain ⟨found, hfound, hfile⟩ := exists_of_bind_ok hfile
      have hnode := World.node?_of_entry hfound
      rw [Entry.file_eq_ok.1 hfile] at hnode
      exact h.file hworld hnode file.inode_release

theorem releaseLock (h : Durable invariant) (grant : Grant) : Maintains invariant grant.release :=
  maintains_modify fun _ hworld => h.inode hworld fun _ => rfl

theorem close (h : Durable invariant) {id : HandleId} : Maintains invariant id.close := by
  unfold HandleId.close
  refine (maintains_ask fun _ _ _ _ => trivial).bind fun handle _ => ?_
  split
  case isFalse => exact maintains_pure trivial
  case isTrue =>
    have hclosed : Maintains invariant (modify (·.modifyHandle id fun handle =>
        { handle with isOpen := false, locks := [] })) :=
      maintains_modify fun _ hworld => h.handle hworld fun handle => ⟨handle.position, [], false, rfl⟩
    refine hclosed.bind fun _ _ => ?_
    refine (Maintains.forM (fun lock => h.releaseLock (Grant.mk handle.inode lock)) _).bind
      fun _ _ => ?_
    refine h.releaseEntry.bind fun abandoned _ => ?_
    refine (maintains_ask fun _ _ _ _ => trivial).bind fun volume _ => ?_
    split
    case isFalse => exact maintains_pure trivial
    case isTrue =>
      refine h.releaseHandle.bind fun _ _ => ?_
      split
      case isFalse => exact maintains_pure trivial
      case isTrue => exact h.deleteEntry.tryCatch fun _ => maintains_pure trivial

/-- Work that keeps the invariant may be done between opening and closing a file. -/
theorem session (h : Durable invariant) {α : Type} {work : HandleId → Action α}
    {options : OpenOptions}
    (hcuts : (options.truncate && options.write) = true → Cuts invariant)
    (hwork : ∀ handle, Maintains invariant (work handle)) :
    Maintains invariant (id.session text options work) := by
  unfold VolumeId.session
  refine (h.openFile hcuts).bind fun handle _ => ?_
  refine (hwork handle).attempt.bind fun outcome _ => ?_
  exact h.close.bind fun _ _ => maintains_lift fun _ _ => trivial

/-! ### Volumes -/

theorem newVolume (h : Durable invariant) {config : Config} :
    Maintains invariant (newVolume config) := by
  refine maintains_of fun world hworld => ?_
  unfold RamFs.newVolume
  refine lift_bind_invariant hworld fun _ hchecked => ?_
  rw [bind_ok (get_apply _)]
  dsimp only
  generalize hroot : Entry.mk _ _ _ = root
  have hmade : Maintains invariant (Action.add (·.addEntry root)) := h.newEntry (hroot ▸ rfl)
  have hroots := Maintains.mapM (fun _ : String => hmade) config.roots world hworld
  rw [bind_apply]
  rcases hrun : (config.roots.mapM fun _ => Action.add (·.addEntry root) : Action (List EntryId))
    world with ⟨failure | roots, after⟩
  · rw [hrun] at hroots
    exact hroots.1
  · rw [hrun] at hroots
    exact h.new_volume hroots.1 ⟨hchecked, length_of_mapM hrun⟩

end Durable

/-! ### Calls on paths -/

/-- Whether the call may cut a file. -/
def PathCall.cuts : PathCall → Bool
  | truncate _ _ => true
  | openFile _ options => options.truncate && options.write
  | _ => false

theorem Durable.act {invariant : World → Prop} (h : Durable invariant) (id : VolumeId)
    (call : PathCall) (hcuts : call.cuts = true → Cuts invariant) :
    Maintains invariant (call.act id) := by
  cases call with
  | createDirectory path request => exact h.createDirectory
  | createFile path request => exact h.createFile
  | createSymlink link target => exact h.createSymlink
  | createHardLink link existing => exact h.createHardLink
  | delete path => exact h.delete
  | copy source targetId target options => exact h.relocate
  | move source targetId target options => exact h.relocate
  | setTimes path times => exact h.setTimes
  | setMode path mode => exact h.modifyAt fun _ => rfl
  | setOwner path uid gid => exact h.modifyAt fun _ => rfl
  | truncate path size => exact h.truncate (hcuts rfl)
  | openFile path options => exact (h.openFile hcuts).bind fun _ _ => maintains_pure trivial

/-! ### Every call -/

/-- The invariant can be told from the signs. -/
def Signed (invariant : World → Prop) : Prop :=
  ∀ {world after : World}, invariant world → after.signs = world.signs → invariant after

theorem Signed.and {invariant other : World → Prop} (h : Signed invariant) (hother : Signed other) :
    Signed fun world => invariant world ∧ other world :=
  fun hworld hsigns => ⟨h hworld.1 hsigns, hother hworld.2 hsigns⟩

theorem signed_tidy : Signed World.Tidy :=
  World.Tidy.of_signs

theorem signed_inodeOf (entry : EntryId) (inode : InodeId) :
    Signed fun world => world.inodeOf? entry = some inode := by
  intro world after hworld hsigns
  have hnode : after.namespace.node? = world.namespace.node? := congrArg Signs.node? hsigns
  rw [World.inodeOf?_eq_some] at hworld ⊢
  rwa [hnode]

/-- Work through a handle that shows in no sign. -/
theorem Signed.maintains {invariant : World → Prop} (h : Signed invariant) {α : Type}
    {work : Action α} (hwork : Keeps World.signs work) : Maintains invariant work :=
  maintains_of fun world hworld => h hworld (hwork world)

/-- Every call keeps what lasts, does not mind files being cut and shows in the signs. -/
theorem Durable.perform {invariant : World → Prop} (h : Durable invariant)
    (hcuts : Cuts invariant) (hsigned : Signed invariant) {world : World}
    (hworld : invariant world) (call : Call) : invariant (call.perform world) := by
  cases call with
  | setClock now => exact h.clock hworld
  | newVolume config => exact (h.newVolume world hworld).1
  | share id => exact h.volume hworld fun _ => ⟨rfl, rfl⟩
  | drop id => exact h.volume hworld fun _ => ⟨rfl, rfl⟩
  | onPath id call => exact (h.act id call (fun _ => hcuts) world hworld).1
  | readAll id path =>
      refine (h.session (fun _ => hcuts) (fun handle => ?_) world hworld).1
      exact hsigned.maintains handle.readToEnd_keeps.throughStream
  | writeAll id path contents =>
      refine (h.session (fun _ => hcuts) (fun handle => ?_) world hworld).1
      exact hsigned.maintains (handle.writeAll_keeps contents).throughStream
  | onHandle id call =>
      by_cases hclose : call = .close
      · subst hclose
        exact (h.close world hworld).1
      · exact hsigned hworld (HandleCall.perform_keeps id hclose)
  | releaseLock grant => exact (h.releaseLock grant world hworld).1

theorem World.Tidy.perform {world : World} (h : world.Tidy) (call : Call) :
    (call.perform world).Tidy :=
  durable_tidy.perform cuts_tidy signed_tidy h call

/-- A file keeps its inode through any call. -/
theorem World.Tidy.inodeOf_perform {world : World} (h : world.Tidy) {entry : EntryId}
    {inode : InodeId} (hinode : world.inodeOf? entry = some inode) (call : Call) :
    (call.perform world).inodeOf? entry = some inode :=
  ((durable_tidy.and (inodeOf_lasting entry inode)).perform
    (cuts_tidy.and fun _ _ _ hinode => hinode) (signed_tidy.and (signed_inodeOf entry inode))
    ⟨h, hinode⟩ call).2

/-! ### Every reachable world -/

theorem tidy_empty : ({} : World).Tidy where
  entries := nofun
  volumes := nofun
  handles := nofun

theorem Reachable.tidy {world : World} (h : Reachable world) : world.Tidy := by
  induction h with
  | start => exact tidy_empty
  | step call _ ih => exact ih.perform call

end RamFs
