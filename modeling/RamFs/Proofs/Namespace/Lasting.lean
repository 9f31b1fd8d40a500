import RamFs.Proofs.Namespace.Closing
import RamFs.Proofs.Namespace.Relocations
import RamFs.Proofs.Paths.Tidy

/-!
What lasts. An invariant is lasting if it goes through each of the few changes that actions are
made of: other times, another state of a file, other names in a directory, something new. It then
holds after every call on a path or on a handle that does not change contents, whether the call
succeeds or fails.
-/

namespace RamFs

open RamFs.Action

/-- The invariant goes through every change of a world that does not change contents and keeps
tidy what is tidy. -/
structure Lasting (invariant : World → Prop) : Prop where
  attributes : ∀ {world id change}, invariant world → (∀ entry, (change entry).node = entry.node) →
    invariant (world.modifyEntry id change)
  file : ∀ {world id file file'}, invariant world →
    world.namespace.node? id = some (.file file) → file'.inode = file.inode →
    invariant (world.modifyEntry id (·.withFile file'))
  directory : ∀ {world id names names' change}, invariant world →
    world.directory id = .ok names → (∀ binding ∈ names'.bindings, Path.IsName binding.name) →
    (∀ entry, (change entry).node = .directory names') → invariant (world.modifyEntry id change)
  inode : ∀ {world id change}, invariant world → (∀ inode, (change inode).store = inode.store) →
    invariant (world.modifyInode id change)
  volume : ∀ {world id change}, invariant world →
    (∀ volume, (change volume).config = volume.config ∧ (change volume).roots = volume.roots) →
    invariant (world.modifyVolume id change)
  handle : ∀ {world id change}, invariant world →
    (∀ handle, ∃ position locks isOpen, change handle = { handle with position, locks, isOpen }) →
    invariant (world.modifyHandle id change)
  new_entry : ∀ {world entry}, invariant world → entry.node.IsIdle →
    invariant (world.addEntry entry).2
  new_inode : ∀ {world inode}, invariant world → invariant (world.addInode inode).2
  new_volume : ∀ {world volume}, invariant world → volume.Grounded →
    invariant (world.addVolume volume).2
  new_handle : ∀ {world handle}, invariant world → world.Tracks handle →
    invariant (world.addHandle handle).2
  clock : ∀ {world now}, invariant world → invariant { world with clock := now }

theorem Lasting.and {invariant invariant' : World → Prop} (h : Lasting invariant)
    (h' : Lasting invariant') : Lasting fun world => invariant world ∧ invariant' world where
  attributes hworld hchange := ⟨h.attributes hworld.1 hchange, h'.attributes hworld.2 hchange⟩
  file hworld hnode hinode := ⟨h.file hworld.1 hnode hinode, h'.file hworld.2 hnode hinode⟩
  directory hworld hnames hnamed hchange :=
    ⟨h.directory hworld.1 hnames hnamed hchange, h'.directory hworld.2 hnames hnamed hchange⟩
  inode hworld hchange := ⟨h.inode hworld.1 hchange, h'.inode hworld.2 hchange⟩
  volume hworld hchange := ⟨h.volume hworld.1 hchange, h'.volume hworld.2 hchange⟩
  handle hworld hchange := ⟨h.handle hworld.1 hchange, h'.handle hworld.2 hchange⟩
  new_entry hworld hidle := ⟨h.new_entry hworld.1 hidle, h'.new_entry hworld.2 hidle⟩
  new_inode hworld := ⟨h.new_inode hworld.1, h'.new_inode hworld.2⟩
  new_volume hworld hgrounded := ⟨h.new_volume hworld.1 hgrounded, h'.new_volume hworld.2 hgrounded⟩
  new_handle hworld htracks := ⟨h.new_handle hworld.1 htracks, h'.new_handle hworld.2 htracks⟩
  clock hworld := ⟨h.clock hworld.1, h'.clock hworld.2⟩

/-! ### What handles rely on -/

namespace World

variable {world : World}

theorem inodeOf?_of_entry {entry : EntryId} {found : Entry} (h : world.entry entry = .ok found) :
    world.inodeOf? entry = match found.node with
      | .file file => some file.inode
      | .directory _ | .symlink _ => none := by
  unfold World.inodeOf? Entry.file
  rw [h, ok_bind]
  cases found.node <;> rfl

theorem inodeOf?_eq_some {entry : EntryId} {inode : InodeId} :
    world.inodeOf? entry = some inode ↔
      ∃ file, world.namespace.node? entry = some (.file file) ∧ file.inode = inode := by
  unfold World.inodeOf?
  constructor
  · intro h
    split at h
    case h_1 file hfile =>
      obtain ⟨found, hfound, hfile⟩ := exists_of_bind_ok hfile
      refine ⟨file, ?_, Option.some.inj h⟩
      rw [node?_of_entry hfound, Entry.file_eq_ok.1 hfile]
    case h_2 => cases h
  · rintro ⟨file, hnode, rfl⟩
    obtain ⟨found, hfound, hkind⟩ := entry_of_node? hnode
    have hopened : (world.entry entry >>= Entry.file) = .ok file := by
      rw [hfound]
      exact Entry.file_eq_ok.2 hkind
    rw [hopened]

end World

/-- A file stays a file and keeps its inode. -/
theorem inodeOf_lasting (entry : EntryId) (inode : InodeId) :
    Lasting fun world => world.inodeOf? entry = some inode := by
  -- an inode is told from the nodes alone
  have hsame : ∀ {world after : World}, world.inodeOf? entry = some inode →
      after.namespace.node? = world.namespace.node? → after.inodeOf? entry = some inode := by
    intro world after h hnode
    rw [World.inodeOf?_eq_some] at h ⊢
    rwa [hnode]
  have hset : ∀ {world after : World} {id : EntryId} {node : Node},
      world.inodeOf? entry = some inode → after.namespace = world.namespace.setNode id node →
      (id = entry → ∃ file, node = .file file ∧ file.inode = inode) →
      after.inodeOf? entry = some inode := by
    intro world after id node h hafter hkeeps
    rw [World.inodeOf?_eq_some] at h ⊢
    rw [hafter]
    by_cases hid : entry = id
    · obtain ⟨file, hfile, hinode⟩ := hkeeps hid.symm
      exact ⟨file, by rw [hid, Namespace.node?_setNode_self, hfile], hinode⟩
    · rwa [Namespace.node?_setNode_of_ne hid]
  constructor
  case attributes =>
    intro world id change h hchange
    exact hsame h (congrArg Namespace.node? (World.namespace_modifyEntry_same hchange))
  case file =>
    intro world id file file' h hnode hinode
    obtain ⟨found, hfound, _⟩ := World.entry_of_node? hnode
    refine hset h (World.namespace_modifyEntry _ hfound) fun hid => ⟨file', rfl, ?_⟩
    obtain ⟨held, hheld, rfl⟩ := World.inodeOf?_eq_some.1 h
    rw [← hid, hnode] at hheld
    rw [hinode, Node.file.inj (Option.some.inj hheld)]
  case directory =>
    intro world id names names' change h hnames _ hchange
    have hnode := World.directory_eq_ok.1 hnames
    obtain ⟨found, hfound, _⟩ := World.entry_of_node? hnode
    refine hset h (World.namespace_modifyEntry _ hfound) fun hid => ?_
    obtain ⟨held, hheld, _⟩ := World.inodeOf?_eq_some.1 h
    rw [← hid, hnode] at hheld
    cases hheld
  case inode => exact fun h _ => hsame h (congrArg Namespace.node? World.namespace_modifyInode)
  case volume => exact fun h _ => hsame h rfl
  case handle => exact fun h _ => hsame h rfl
  case new_entry =>
    intro world new h _
    refine hset h World.namespace_addEntry fun hid => ?_
    obtain ⟨held, hheld, _⟩ := World.inodeOf?_eq_some.1 h
    rw [← hid, World.node?_next] at hheld
    cases hheld
  case new_inode => exact fun h => hsame h rfl
  case new_volume => exact fun h _ => hsame h rfl
  case new_handle => exact fun h _ => hsame h rfl
  case clock => exact fun h => hsame h rfl

/-- A volume stays configured as it is. -/
theorem config_lasting (id : VolumeId) (holds : Config → Prop) :
    Lasting fun world => ∃ volume, world.volume id = .ok volume ∧ holds volume.config := by
  have hsame : ∀ {world after : World},
      (∃ volume, world.volume id = .ok volume ∧ holds volume.config) →
      after.volumes = world.volumes →
      ∃ volume, after.volume id = .ok volume ∧ holds volume.config := by
    intro world after h hafter
    unfold World.volume
    rw [hafter]
    exact h
  constructor
  case volume =>
    intro world other change h hchange
    obtain ⟨volume, hvolume, hholds⟩ := h
    by_cases hid : other = id
    · refine ⟨change volume, hid ▸ World.volume_modifyVolume (hid ▸ hvolume), ?_⟩
      rw [(hchange volume).1]
      exact hholds
    · refine ⟨volume, ?_, hholds⟩
      unfold World.volume World.modifyVolume
      rw [Array.getElem?_modify, if_neg fun hindex => hid (congrArg VolumeId.mk hindex)]
      exact hvolume
  case new_volume =>
    intro world new h _
    obtain ⟨volume, hvolume, hholds⟩ := h
    refine ⟨volume, ?_, hholds⟩
    have hlt := (Array.getElem?_eq_some_iff.1 (World.volume_eq_ok hvolume)).1
    unfold World.volume World.addVolume
    dsimp only
    rw [Array.getElem?_push, if_neg (Nat.ne_of_lt hlt)]
    exact hvolume
  case attributes => exact fun h _ => hsame h rfl
  case file => exact fun h _ _ => hsame h rfl
  case directory => exact fun h _ _ _ => hsame h rfl
  case inode => exact fun h _ => hsame h rfl
  case handle => exact fun h _ => hsame h rfl
  case new_entry => exact fun h _ => hsame h rfl
  case new_inode => exact fun h => hsame h rfl
  case new_handle => exact fun h _ => hsame h rfl
  case clock => exact fun h => hsame h rfl

theorem World.tracks_iff {world : World} {handle : Handle} :
    world.Tracks handle ↔ world.inodeOf? handle.entry = some handle.inode ∧
      ∃ volume, world.volume handle.volume = .ok volume ∧ handle.path.Lies volume.config.roots :=
  ⟨fun h => ⟨h.inode, h.path⟩, fun h => ⟨h.1, h.2⟩⟩

/-- What a handle relies on stays. -/
theorem tracks_lasting (handle : Handle) : Lasting fun world => world.Tracks handle := by
  have hboth := (inodeOf_lasting handle.entry handle.inode).and
    (config_lasting handle.volume fun config => handle.path.Lies config.roots)
  simpa only [← World.tracks_iff] using hboth

/-! ### Tidy worlds stay tidy -/

theorem Entry.named_of_idle {entry : Entry} (h : entry.node.IsIdle) : entry.Named := by
  intro names hnode
  rw [hnode] at h
  rw [show names.bindings = [] from h]
  exact List.forall_mem_nil _

theorem tidy_lasting : Lasting World.Tidy := by
  have hhandles : ∀ {world after : World}, world.Tidy → after.handles = world.handles →
      (∀ handle, world.Tracks handle → after.Tracks handle) →
      Each after.handles fun _ handle => after.Tracks handle := by
    intro world after h hafter htracks
    rw [hafter]
    exact fun i handle hhandle => htracks handle (h.handles i handle hhandle)
  constructor
  case attributes =>
    intro world id change h hchange
    refine ⟨h.entries.modify fun entry hentry => ?_, h.volumes, hhandles h rfl fun handle hhandle =>
      (tracks_lasting handle).attributes hhandle hchange⟩
    exact fun names hnode => hentry names ((hchange entry).symm.trans hnode)
  case file =>
    intro world id file file' h hnode hinode
    refine ⟨h.entries.modify fun entry hentry => nofun, h.volumes, hhandles h rfl
      fun handle hhandle => (tracks_lasting handle).file hhandle hnode hinode⟩
  case directory =>
    intro world id names names' change h hnames hnamed hchange
    refine ⟨h.entries.modify fun entry hentry => ?_, h.volumes, hhandles h rfl
      fun handle hhandle => (tracks_lasting handle).directory hhandle hnames hnamed hchange⟩
    intro found hfound
    rwa [Node.directory.inj (hfound.symm.trans (hchange entry))]
  case inode =>
    intro world id change h hchange
    exact ⟨h.entries, h.volumes, hhandles h rfl fun handle hhandle =>
      (tracks_lasting handle).inode hhandle hchange⟩
  case volume =>
    intro world id change h hchange
    refine ⟨h.entries, h.volumes.modify fun volume hvolume => ?_, hhandles h rfl
      fun handle hhandle => (tracks_lasting handle).volume hhandle hchange⟩
    obtain ⟨hconfig, hroots⟩ := hchange volume
    exact ⟨hconfig ▸ hvolume.checked, hconfig ▸ hroots ▸ hvolume.size⟩
  case handle =>
    intro world id change h hchange
    refine ⟨h.entries, h.volumes, Each.modify (fun i handle hhandle => ?_) fun handle hhandle => ?_⟩
    · exact (tracks_lasting handle).handle (h.handles i handle hhandle) hchange
    · obtain ⟨position, locks, isOpen, hhandle'⟩ := hchange handle
      rw [hhandle']
      exact ⟨hhandle.inode, hhandle.path⟩
  case new_entry =>
    intro world new h hidle
    exact ⟨h.entries.push (Entry.named_of_idle hidle), h.volumes, hhandles h rfl
      fun handle hhandle => (tracks_lasting handle).new_entry hhandle hidle⟩
  case new_inode =>
    intro world new h
    exact ⟨h.entries, h.volumes, hhandles h rfl fun handle hhandle =>
      (tracks_lasting handle).new_inode hhandle⟩
  case new_volume =>
    intro world new h hgrounded
    exact ⟨h.entries, h.volumes.push hgrounded, hhandles h rfl fun handle hhandle =>
      (tracks_lasting handle).new_volume hhandle hgrounded⟩
  case new_handle =>
    intro world new h hnew
    refine ⟨h.entries, h.volumes, Each.push (fun i handle hhandle => ?_) ?_⟩
    · exact (tracks_lasting handle).new_handle (h.handles i handle hhandle) hnew
    · exact (tracks_lasting new).new_handle hnew hnew
  case clock =>
    intro world now h
    exact ⟨h.entries, h.volumes, hhandles h rfl fun handle hhandle =>
      (tracks_lasting handle).clock hhandle⟩

/-! ### What tidiness is told from -/

/-- The signs of a tidy world. -/
structure Signs where
  node? : EntryId → Option Node
  volumes : Array Volume
  /-- Volume, entry, inode and path of each handle. -/
  handle? : HandleId → Option (VolumeId × EntryId × InodeId × Path)

def World.signs (world : World) : Signs where
  node? := world.namespace.node?
  volumes := world.volumes
  handle? id := world.handles[id.index]?.map fun handle =>
    (handle.volume, handle.entry, handle.inode, handle.path)

/-- Calls through open handles leave the signs alone. -/
instance blind_signs : Blind World.signs where
  times := by
    intro world id change h
    have hnode : ∀ entry, (change entry).node = entry.node :=
      fun entry => (congrArg Entry.node (h entry) :)
    unfold World.signs
    rw [World.namespace_modifyEntry_same hnode]
    rfl
  cursors := by
    intro world id change h
    unfold World.signs World.modifyHandle
    congr 1
    funext other
    rw [Array.getElem?_modify]
    split
    · rw [Option.map_map]
      congr 1
      funext handle
      have hvolume : (change handle).volume = handle.volume := (congrArg Handle.volume (h handle) :)
      have hentry : (change handle).entry = handle.entry := (congrArg Handle.entry (h handle) :)
      have hinode : (change handle).inode = handle.inode := (congrArg Handle.inode (h handle) :)
      have hpath : (change handle).path = handle.path := (congrArg Handle.path (h handle) :)
      simp only [Function.comp_apply, hvolume, hentry, hinode, hpath]
    · rfl
  locks _ := rfl
  contents _ := rfl

theorem World.Tidy.of_signs {world after : World} (h : world.Tidy)
    (hsigns : after.signs = world.signs) : after.Tidy := by
  have hnode : after.namespace.node? = world.namespace.node? := congrArg Signs.node? hsigns
  have hvolumes : after.volumes = world.volumes := congrArg Signs.volumes hsigns
  constructor
  case entries =>
    intro i entry hentry names hnames
    have hsame : world.namespace.node? ⟨i⟩ = some (.directory names) :=
      hnode ▸ hnames ▸ congrArg (Option.map Entry.node) hentry
    exact h.bindings (World.directory_eq_ok.2 hsame)
  case volumes =>
    rw [hvolumes]
    exact h.volumes
  case handles =>
    intro i handle hhandle
    have hsame := congrFun (congrArg Signs.handle? hsigns) ⟨i⟩
    change (after.handles[i]?).map _ = (world.handles[i]?).map _ at hsame
    rw [hhandle, Option.map_some] at hsame
    obtain ⟨known, hknown, hfields⟩ := Option.map_eq_some_iff.1 hsame.symm
    obtain ⟨hvolume, hentry, hinode, hpath⟩ : known.volume = handle.volume ∧
        known.entry = handle.entry ∧ known.inode = handle.inode ∧ known.path = handle.path := by
      simpa only [Prod.mk.injEq] using hfields
    obtain ⟨hheld, volume, hfound, hlies⟩ := h.handles i known hknown
    constructor
    case inode =>
      rw [World.inodeOf?_eq_some, hentry, hinode] at hheld
      rw [World.inodeOf?_eq_some, hnode]
      exact hheld
    case path =>
      refine ⟨volume, ?_, hpath ▸ hlies⟩
      unfold World.volume
      rw [hvolumes, ← hvolume]
      exact hfound

end RamFs
