import RamFs.Edit
import RamFs.Proofs.Standards.Registry

/-!
Calls on paths keep a world in compliance with its registry. What they make falls under the
configuration of the volume they make it for, and what they change they change by the rules of
the volume it is in.
-/

namespace RamFs

open RamFs.Action

variable {s : Standard} {r : Registry} {id : VolumeId} {volume : Volume} {entry directory : EntryId}
  {now : Time}

/-! ### Queries -/

theorem volume_complies (id : VolumeId) :
    Maintains (Complies s r) (Action.ask (·.volume id)) (r.Grounds id) :=
  maintains_ask fun _ _ h => h.grounds

theorem entry_complies (id : EntryId) :
    Maintains (Complies s r) (Action.ask (·.entry id)) (r.Admits s (r.entry id)) :=
  maintains_ask fun _ _ h => h.admits

theorem directory_complies (id : EntryId) :
    Maintains (Complies s r) (Action.ask (·.directory id)) fun names =>
      r.Holds (r.entry id) (.directory names) :=
  maintains_ask fun _ _ h => h.bound

theorem inode_complies (id : InodeId) :
    Maintains (Complies s r) (Action.ask (·.inode id)) fun inode =>
      s.store (r.inode id) inode.store :=
  maintains_ask fun _ _ h => h.stored

theorem walk_complies {path : Path} {goal : Goal} {followLinks : Bool}
    (hvolume : r.Grounds id volume) :
    Maintains (Complies s r) (Action.ask (·.walk volume path goal followLinks)) fun visit =>
      r.entry visit.entry = r.volume id :=
  maintains_ask fun _ _ h => h.trail hvolume

theorem visit_complies {text : String} {followLast : Bool} :
    Maintains (Complies s r) (Action.ask (·.visit id text followLast)) fun found =>
      r.Grounds id found.1 ∧ r.entry found.2.entry = r.volume id :=
  maintains_ask fun _ _ h => h.visit

/-! ### Steps on one entry -/

theorem bind_complies {collation : Collation} {name : String} {kind : Kind}
    (hentry : r.entry entry = r.entry directory) (hnow : s.time (r.entry directory) now) :
    Maintains (Complies s r) (Action.bind directory collation name kind entry now) := by
  unfold Action.bind
  refine (directory_complies directory).bind fun names hnames => ?_
  have hinsert : ∀ bound, names.insert collation name kind entry = .ok bound →
      r.Holds (r.entry directory) (.directory bound) := by
    intro bound hbound binding hmem
    obtain ⟨_, rfl⟩ := Directory.insert_eq_ok.1 hbound
    rcases Directory.mem_insertOrdered.1 hmem with rfl | hold
    · exact hentry
    · exact hnames binding hold
  refine (maintains_lift hinsert).bind fun bound hbound => maintains_modify fun world h => ?_
  exact h.modifyEntry fun parent hparent => (hparent.withDirectory hbound).touchModified hnow

theorem unbind_complies {collation : Collation} {name : String} :
    Maintains (Complies s r) (Action.unbind directory collation name) := by
  unfold Action.unbind
  refine (directory_complies directory).bind fun names hnames => maintains_modify fun world h => ?_
  refine h.modifyEntry fun parent hparent => hparent.withDirectory fun binding hmem => ?_
  exact hnames binding (Directory.mem_erase.1 hmem).1

theorem touchModified_complies (hnow : s.time (r.entry entry) now) :
    Maintains (Complies s r) (Action.touchModified entry now) :=
  maintains_modify fun _ h => h.modifyEntry fun _ hentry => hentry.touchModified hnow

theorem markDeleted_complies (id : EntryId) : Maintains (Complies s r) (Action.markDeleted id) := by
  unfold Action.markDeleted
  refine (entry_complies id).bind fun entry hentry => ?_
  split
  case h_1 file hnode =>
    have hinode : r.inode file.inode = r.entry id := hentry.file (Entry.file_eq_ok.2 hnode)
    have hgone : ∀ gone, file.markDeleted = .ok gone → r.inode gone.inode = r.entry id := by
      intro gone hgone
      unfold FileNode.markDeleted at hgone
      split at hgone
      case h_1 =>
        obtain rfl := Except.ok.inj hgone
        exact hinode
      case h_2 => cases hgone
      case h_3 => cases hgone
    refine (maintains_lift hgone).bind fun gone hgone => ?_
    refine (maintains_modify fun world h => ?_).bind fun _ _ => maintains_modify fun world h => ?_
    · exact h.modifyEntry fun _ hentry => hentry.withFile hgone
    · exact h.modifyInode fun _ hinode => hinode
  case h_2 => exact maintains_pure trivial

namespace VolumeId

/-! ### Creation -/

/-- A node that falls under the configuration of the volume becomes an entry that does so. -/
theorem addEntry_complies {owner : Ownership} {node : Node} (hnode : r.Holds r.made node)
    (hnow : s.time r.made now) :
    Maintains (Complies s r) (Action.add (·.addEntry ⟨.at now, owner, node⟩)) fun entry =>
      r.entry entry = r.made :=
  maintains_add fun _ h => h.addEntry ⟨⟨hnow, hnow, hnow⟩, hnode⟩

theorem newFile_complies (hmade : r.made = volume.config) :
    Maintains (Complies s r) (newFile volume) (r.Holds r.made) := by
  unfold newFile
  have hstore : s.store r.made (Inode.new volume.config.limits.maxFileBlocks.toNat).store := by
    rw [hmade]
    exact s.store_new volume.config
  exact (maintains_add fun _ h => h.addInode hstore).bind fun _ hinode => maintains_pure hinode

theorem createEntry_complies (hmade : r.made = r.volume id) {text : String} {owner : Ownership}
    {kind : Kind} {newNode : Action Node}
    (hnode : Maintains (Complies s r) newNode (r.Holds r.made)) :
    Maintains (Complies s r) (id.createEntry text owner kind newNode) := by
  unfold createEntry
  refine (volume_complies id).bind fun volume hvolume => ?_
  refine (maintains_lift fun _ _ => trivial).bind fun path _ => ?_
  dsimp only
  split
  case isTrue => exact maintains_throw
  case isFalse =>
    refine (walk_complies hvolume).bind fun parent hparent => ?_
    split
    case h_2 => exact maintains_throw
    case h_1 name _ =>
      refine (directory_complies parent.entry).bind fun names _ => ?_
      split
      case isTrue => exact maintains_throw
      case isFalse =>
        refine maintains_get_bind fun world => hnode.bind fun node hnode => ?_
        have hnow := hvolume.now s world
        refine (addEntry_complies hnode (hmade ▸ hnow)).bind fun entry hentry => ?_
        exact bind_complies (hentry.trans (hmade.trans hparent.symm)) (hparent ▸ hnow)

theorem createDirectory_complies (hmade : r.made = r.volume id) (path : String)
    (request : OwnerRequest) : Maintains (Complies s r) (id.createDirectory path request) := by
  unfold createDirectory
  refine (volume_complies id).bind fun volume _ => createEntry_complies hmade (maintains_pure ?_)
  exact fun _ hmem => nomatch hmem

theorem createFile_complies (hmade : r.made = r.volume id) (path : String)
    (request : OwnerRequest) : Maintains (Complies s r) (id.createFile path request) := by
  unfold createFile
  refine (volume_complies id).bind fun volume hvolume => createEntry_complies hmade ?_
  exact newFile_complies (hmade.trans hvolume.config.symm)

theorem createSymlink_complies (hmade : r.made = r.volume id) (link target : String) :
    Maintains (Complies s r) (id.createSymlink link target) := by
  unfold createSymlink
  refine (volume_complies id).bind fun volume _ => ?_
  refine (maintains_lift fun _ _ => trivial).bind fun _ _ => createEntry_complies hmade ?_
  exact maintains_pure trivial

/-! ### Deletion -/

theorem deleteEntry_complies (id : VolumeId) (path : Path) (expected : Option EntryId) :
    Maintains (Complies s r) (id.deleteEntry path expected) := by
  unfold deleteEntry
  dsimp only
  split
  case isTrue => exact maintains_throw
  case isFalse =>
    refine (volume_complies id).bind fun volume hvolume => ?_
    refine (walk_complies hvolume).bind fun parent hparent => ?_
    split
    case h_2 => exact maintains_throw
    case h_1 name _ =>
      refine (directory_complies parent.entry).bind fun names _ => ?_
      split
      case h_2 => exact maintains_throw
      case h_1 binding _ =>
        split
        case isTrue => exact maintains_throw
        case isFalse =>
          refine (entry_complies binding.entry).bind fun entry _ => ?_
          refine (maintains_lift fun _ _ => trivial).bind fun _ _ => ?_
          refine (markDeleted_complies binding.entry).bind fun _ _ => ?_
          refine unbind_complies.bind fun _ _ => maintains_get_bind fun world => ?_
          exact touchModified_complies (hparent ▸ hvolume.now s world)

theorem delete_complies (id : VolumeId) (text : String) :
    Maintains (Complies s r) (id.delete text) := by
  unfold delete
  refine (volume_complies id).bind fun volume _ => ?_
  exact (maintains_lift fun _ _ => trivial).bind fun path _ => deleteEntry_complies id path none

/-! ### Attributes -/

theorem modifyAt_complies {text : String} {change : Entry → Entry}
    (hchange : ∀ entry, r.Admits s (r.volume id) entry → r.Admits s (r.volume id) (change entry)) :
    Maintains (Complies s r) (id.modifyAt text change) := by
  unfold modifyAt
  refine visit_complies.bind fun found hfound => maintains_modify fun world h => ?_
  exact h.modifyEntry (hfound.2 ▸ hchange)

theorem setTimes_complies (id : VolumeId) (path : String) (times : TimesRequest) :
    Maintains (Complies s r) (id.setTimes path times) := by
  unfold setTimes
  refine (volume_complies id).bind fun volume hvolume => modifyAt_complies fun entry hentry => ?_
  have hgiven : ∀ (given : Option Time) (old : Time), s.time (r.volume id) old →
      s.time (r.volume id) ((given.map volume.config.resolution.truncate).getD old) := by
    intro given old hold
    cases given with
    | none => exact hold
    | some time =>
        rw [← hvolume.config]
        exact s.time_now volume.config time
  obtain ⟨⟨hcreated, hmodified, haccessed⟩, hnode⟩ := hentry
  exact ⟨⟨hgiven _ _ hcreated, hgiven _ _ hmodified, hgiven _ _ haccessed⟩, hnode⟩

theorem setMode_complies (id : VolumeId) (path : String) (mode : UInt32) :
    Maintains (Complies s r) (id.setMode path mode) :=
  modifyAt_complies fun _ hentry => ⟨hentry.times, hentry.node⟩

theorem setOwner_complies (id : VolumeId) (path : String) (uid gid : UInt32) :
    Maintains (Complies s r) (id.setOwner path uid gid) :=
  modifyAt_complies fun _ hentry => ⟨hentry.times, hentry.node⟩

theorem truncate_complies (id : VolumeId) (path : String) (size : Nat) :
    Maintains (Complies s r) (id.truncate path size) := by
  unfold truncate
  refine visit_complies.bind fun ⟨volume, found⟩ hfound => ?_
  refine (entry_complies found.entry).bind fun entry _ => ?_
  refine (maintains_lift fun _ _ => trivial).bind fun file _ => ?_
  refine (maintains_modify fun world h => ?_).bind fun _ _ => maintains_get_bind fun world => ?_
  · exact h.modifyInode fun inode hinode => s.store_truncate size hinode
  · exact touchModified_complies (hfound.2 ▸ hfound.1.now s world)

end VolumeId

end RamFs
