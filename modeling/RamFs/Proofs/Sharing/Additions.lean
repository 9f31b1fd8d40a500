import RamFs.Proofs.Sharing.Copies

/-!
Worlds to which something was added. Making an inode or an entry leaves all entries, inodes,
volumes and handles that there were as they were. What is made of an entry that is copied is of the
same kind and holds what the entry holds, in a place of its own.
-/

namespace RamFs

open RamFs.Action

variable {world middle after : World} {entry source : EntryId} {volume : Volume} {node : Node}

/-- From one world to another that has all that the first has, and maybe more. -/
structure World.Enlarges (world after : World) : Prop where
  clock : after.clock = world.clock
  volumes : after.volumes = world.volumes
  handles : after.handles = world.handles
  entries : world.entries.size ≤ after.entries.size
  entry : ∀ {id found}, world.entry id = .ok found → after.entry id = .ok found
  inode : ∀ {id stored}, world.inode id = .ok stored → after.inode id = .ok stored

namespace World

theorem Enlarges.refl : world.Enlarges world where
  clock := rfl
  volumes := rfl
  handles := rfl
  entries := le_rfl
  entry h := h
  inode h := h

theorem entry_eq_ok_iff {found : Entry} :
    world.entry entry = .ok found ↔ world.entries[entry.index]? = some found := by
  refine ⟨entry_eq_ok, fun h => ?_⟩
  unfold World.entry
  rw [h]

theorem inode_eq_ok_iff {inode : InodeId} {stored : Inode} :
    world.inode inode = .ok stored ↔ world.inodes[inode.index]? = some stored := by
  refine ⟨inode_eq_ok, fun h => ?_⟩
  unfold World.inode
  rw [h]

theorem inode_modifyInode {id other : InodeId} {change : Inode → Inode} :
    (world.modifyInode id change).inode other =
      (world.inode other).map fun stored => if other = id then change stored else stored := by
  unfold World.inode World.modifyInode
  rw [Array.getElem?_modify]
  by_cases hsame : other = id
  · subst hsame
    rw [if_pos rfl]
    cases world.inodes[other.index]? with
    | none => rfl
    | some stored => exact congrArg Except.ok (if_pos rfl).symm
  · rw [if_neg fun hindex => hsame (congrArg InodeId.mk hindex.symm)]
    cases world.inodes[other.index]? with
    | none => rfl
    | some stored => exact congrArg Except.ok (if_neg hsame).symm

theorem entry_added (new : Entry) : (world.addEntry new).2.entry (world.addEntry new).1 = .ok new :=
  entry_eq_ok_iff.2 Array.getElem?_push_size

theorem inode_added (new : Inode) : (world.addInode new).2.inode (world.addInode new).1 = .ok new :=
  inode_eq_ok_iff.2 Array.getElem?_push_size

theorem Enlarges.addEntry (h : world.Enlarges middle) (new : Entry) :
    world.Enlarges (middle.addEntry new).2 where
  clock := h.clock
  volumes := h.volumes
  handles := h.handles
  entries := by
    have hsize : (middle.addEntry new).2.entries.size = middle.entries.size + 1 :=
      Array.size_push ..
    rw [hsize]
    exact h.entries.trans (Nat.le_succ _)
  entry hfound := by
    obtain ⟨hlt, hget⟩ := Array.getElem?_eq_some_iff.1 (entry_eq_ok_iff.1 (h.entry hfound))
    exact entry_eq_ok_iff.2 ((Array.getElem?_push_lt hlt).trans (congrArg some hget))
  inode := h.inode

theorem Enlarges.addInode (h : world.Enlarges middle) (new : Inode) :
    world.Enlarges (middle.addInode new).2 where
  clock := h.clock
  volumes := h.volumes
  handles := h.handles
  entries := h.entries
  entry := h.entry
  inode hstored := by
    obtain ⟨hlt, hget⟩ := Array.getElem?_eq_some_iff.1 (inode_eq_ok_iff.1 (h.inode hstored))
    exact inode_eq_ok_iff.2 ((Array.getElem?_push_lt hlt).trans (congrArg some hget))

end World

/-! ### Copies of a node -/

/-- What a node of the first world is copied to in the second: a file to one with the same bytes in
an inode of its own, which nobody has open and which has one name; a directory to an empty one; a
link to one with the same target. -/
inductive World.Reproduces (world after : World) : Node → Node → Prop where
  | directory (names : Directory) : Reproduces world after (.directory names) (.directory {})
  | symlink (target : String) : Reproduces world after (.symlink target) (.symlink target)
  | file {file : FileNode} {inode : InodeId} {stored copied : Inode} :
      world.inode file.inode = .ok stored → (∀ entry, world.inodeOf? entry ≠ some inode) →
      after.inode inode = .ok copied → copied.store.contents = stored.store.contents →
      copied.links = 1 →
      Reproduces world after (.file file)
        (.file { inode, state := .live 0, deleteOnClose := false })

/-- The copy stays what it is as long as no inode changes that no entry had. -/
theorem World.Reproduces.later {copied : Node} (h : world.Reproduces middle node copied)
    (hkept : ∀ {inode stored}, (∀ entry, world.inodeOf? entry ≠ some inode) →
      middle.inode inode = .ok stored → after.inode inode = .ok stored) :
    world.Reproduces after node copied := by
  cases h with
  | directory names => exact .directory names
  | symlink target => exact .symlink target
  | file hstored hfresh hcopied hcontents hlinks =>
      exact .file hstored hfresh (hkept hfresh hcopied) hcontents hlinks

/-- What a copy is like. It holds what its source holds, and has either the times and the owner of
its source or those of an entry that the volume makes anew. -/
structure World.Duplicates (world : World) (volume : Volume) (keepAttributes : Bool)
    (source copy : Entry) (after : World) : Prop where
  reproduces : world.Reproduces after source.node copy.node
  kept : keepAttributes = true → copy.times = source.times ∧ copy.owner = source.owner
  renewed : keepAttributes = false → copy.times = .at (world.now volume) ∧
    copy.owner = volume.ownership {} source.kind ∧
    (source.kind = .symlink → copy.owner.mode = 0o777)

theorem World.Duplicates.later {keepAttributes : Bool} {found copy : Entry}
    (h : world.Duplicates volume keepAttributes found copy middle)
    (hkept : ∀ {inode stored}, (∀ entry, world.inodeOf? entry ≠ some inode) →
      middle.inode inode = .ok stored → after.inode inode = .ok stored) :
    world.Duplicates volume keepAttributes found copy after :=
  { h with reproduces := h.reproduces.later hkept }

theorem World.entry_next : world.entry ⟨world.entries.size⟩ = .error .notFound := by
  unfold World.entry
  simp

/-- The next inode is nobody's yet. -/
theorem World.inodeOf?_ne_next (hn : world.namespace.Sound) (entry : EntryId) :
    world.inodeOf? entry ≠ some ⟨world.inodes.size⟩ := by
  intro hinode
  obtain ⟨file, hnode, hfile⟩ := inodeOf?_eq_some.1 hinode
  have hbacked : file.inode.index < world.inodes.size := hn.backed hnode
  rw [hfile] at hbacked
  exact lt_irrefl _ hbacked

namespace Action

theorem duplicateNode_reproduces (hn : world.namespace.Sound)
    (hnode : world.namespace.node? source = some node) :
    ∃ copied made, Action.duplicateNode node world = (.ok copied, made) ∧ world.Enlarges made ∧
      made.entries = world.entries ∧ world.Reproduces made node copied := by
  cases node with
  | directory names => exact ⟨_, _, rfl, .refl, rfl, .directory names⟩
  | symlink target => exact ⟨_, _, rfl, .refl, rfl, .symlink target⟩
  | file file =>
      obtain ⟨stored, hstored⟩ := World.inode_of_lt (hn.backed hnode)
      refine ⟨_, (world.addInode stored.duplicate).2, ?_, World.Enlarges.refl.addInode _, rfl,
        .file hstored (World.inodeOf?_ne_next hn) (World.inode_added _) rfl rfl⟩
      unfold Action.duplicateNode
      dsimp only
      rw [bind_ask_ok hstored]
      rfl

/-- The copy of an entry is the next entry, and nothing else that was there is touched. -/
theorem duplicate_duplicates {found : Entry} (hn : world.namespace.Sound)
    (hfound : world.entry source = .ok found) (volume : Volume) (keepAttributes : Bool) :
    ∃ copy made, Action.duplicate volume source keepAttributes world =
        (.ok ⟨world.entries.size⟩, made) ∧
      world.Enlarges made ∧ made.entries.size = world.entries.size + 1 ∧
      made.entry ⟨world.entries.size⟩ = .ok copy ∧
      world.Duplicates volume keepAttributes found copy made := by
  obtain ⟨copied, middle, hcopied, henlarges, hentries, hreproduces⟩ :=
    duplicateNode_reproduces hn (World.node?_of_entry hfound)
  have hnow : middle.now volume = world.now volume :=
    congrArg volume.config.resolution.truncate henlarges.clock
  have hplace : middle.entries.size = world.entries.size := congrArg Array.size hentries
  have hmade : ∀ copy : Entry, copy.node = copied →
      (middle.addEntry copy).1 = ⟨world.entries.size⟩ ∧ world.Enlarges (middle.addEntry copy).2 ∧
      (middle.addEntry copy).2.entries.size = world.entries.size + 1 ∧
      (middle.addEntry copy).2.entry ⟨world.entries.size⟩ = .ok copy ∧
      world.Reproduces (middle.addEntry copy).2 found.node copy.node := by
    intro copy hnode
    rw [hnode, ← hplace]
    exact ⟨rfl, henlarges.addEntry copy, Array.size_push .., World.entry_added copy,
      hreproduces.later fun _ hinode => hinode⟩
  unfold Action.duplicate
  rw [bind_ask_ok hfound, bind_ok hcopied, bind_ok (get_apply _), add_apply, hnow]
  cases keepAttributes with
  | true =>
      obtain ⟨hnew, henlarges, hsize, hcopy, hreproduces⟩ :=
        hmade ⟨found.times, found.owner, copied⟩ rfl
      exact ⟨_, _, Prod.ext (congrArg Except.ok hnew) rfl, henlarges, hsize, hcopy, hreproduces,
        fun _ => ⟨rfl, rfl⟩, nofun⟩
  | false =>
      obtain ⟨hnew, henlarges, hsize, hcopy, hreproduces⟩ :=
        hmade ⟨.at (world.now volume), volume.ownership {} found.kind, copied⟩ rfl
      refine ⟨_, _, Prod.ext (congrArg Except.ok hnew) rfl, henlarges, hsize, hcopy, hreproduces,
        nofun, fun _ => ⟨rfl, rfl, fun hkind => ?_⟩⟩
      rw [hkind]
      rfl

end Action

end RamFs
