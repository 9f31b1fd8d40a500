import RamFs.Proofs.Namespace.Reachable

/-!
The number of names that an inode reports. In every reachable world the account of links is kept,
with no file on its way and no name owed; so the files in use on an inode are as many as it
counts, each of them has one name, and all of them are in the volume in which one of them is.
-/

namespace RamFs

variable {world : World}

namespace World

/-- The binding gives a name to a file on the inode, in the tree of a volume that is owned. -/
def IsNameOf (world : World) (inode : InodeId) (place : EntryId × Binding) : Prop :=
  (∃ id volume, world.volume id = .ok volume ∧ volume.isLive = true ∧
    world.namespace.InTree id place.1) ∧
  world.namespace.Binds place.1 place.2 ∧
  ∃ file, world.namespace.node? place.2.entry = some (.file file) ∧ file.inode = inode

/-- Where one file is in the tree of a volume, the files in use on its inode are those that have
a name. -/
theorem image_names {id : VolumeId} {volume : Volume} {entry : EntryId} {file : FileNode}
    (hn : world.namespace.Sound) (hb : world.Booked) (hvolume : world.volume id = .ok volume)
    (hlive : volume.isLive = true) (hnames : world.namespace.Names id entry)
    (hfile : world.namespace.node? entry = some (.file file)) :
    (fun place => place.2.entry) '' { place | world.IsNameOf file.inode place } =
      world.namespace.users file.inode := by
  ext other
  constructor
  · rintro ⟨⟨directory, binding⟩, ⟨_, hbinds, found, hfound, hinode⟩, rfl⟩
    exact ⟨found, hfound, hinode, hn.bound_live hbinds.bound hfound⟩
  · intro hother
    -- both files are in one volume, and the other one has a name there
    have hhome : ∀ {id'}, world.namespace.Names id' other → id' = id := fun hnames' =>
      hb.together hother (hn.live_of_names hnames hfile) (.inl hnames') (.inl hnames)
    obtain ⟨id', hnames' | hnone⟩ := hb.placed hother
    · obtain rfl := hhome hnames'
      obtain ⟨⟨directory, binding, hbinds, hentry⟩, htree⟩ := hnames'
      obtain ⟨id', _, _, htree', _⟩ := hn.keyed hbinds
      obtain rfl := hn.inTree_unique (hentry ▸ htree'.step hbinds) htree
      obtain ⟨found, hfound, hinode, _⟩ := hother
      rw [← hentry] at hfound
      exact ⟨(directory, binding),
        ⟨⟨id', volume, hvolume, hlive, htree'⟩, hbinds, found, hfound, hinode⟩, hentry⟩
    · cases hnone

theorem injOn_names (hn : world.namespace.Sound) (inode : InodeId) :
    Set.InjOn (fun place : EntryId × Binding => place.2.entry)
      { place | world.IsNameOf inode place } := by
  rintro ⟨directory, binding⟩ ⟨_, hbinds, _⟩ ⟨directory', binding'⟩ ⟨_, hbinds', _⟩ hentry
  obtain ⟨hdirectory, hbinding⟩ := hn.bound_once hbinds hbinds' hentry
  exact Prod.ext hdirectory hbinding

end World

/-- Link counts are exact: a file in the tree of a volume that is owned reports as many links as
its inode has names in all such volumes. -/
theorem links_count_names (h : Reachable world) {id : VolumeId} {volume : Volume}
    {entry : EntryId} {found : Entry} {file : FileNode} (hvolume : world.volume id = .ok volume)
    (hlive : volume.isLive = true) (htree : world.namespace.InTree id entry)
    (hentry : world.entry entry = .ok found) (hfile : found.node = .file file) :
    ∃ inode attributes, world.inode file.inode = .ok inode ∧
      world.attributes found = .ok attributes ∧ attributes.links = inode.links ∧
      { place | world.IsNameOf file.inode place }.encard = inode.links := by
  have hn := h.sound
  have hb := h.booked
  have hnode : world.namespace.node? entry = some (.file file) :=
    hfile ▸ World.node?_of_entry hentry
  obtain ⟨inode, hinode⟩ := World.inode_of_lt (hn.backed hnode)
  refine ⟨inode, ⟨.file, inode.size, inode.links, found.owner, found.times, some file.inode⟩,
    hinode, ?_, rfl, ?_⟩
  · unfold World.attributes
    rw [hfile]
    dsimp only
    rw [hinode]
    rfl
  · have htally : world.tally file.inode = some inode.links := by
      unfold World.tally
      rw [World.inode_eq_ok hinode]
      rfl
    rw [← (World.injOn_names hn _).encard_image,
      World.image_names hn hb hvolume hlive (hn.names_of_file htree hnode) hnode]
    exact hb.counted htally

namespace World

/-- A volume with one file that has two names. -/
def linked : World :=
  List.foldl Call.perform {} [.newVolume {}, .onPath ⟨0⟩ (.createFile "/note" {}),
    .onPath ⟨0⟩ (.createHardLink "/copy" "/note")]

theorem reachable_linked : Reachable linked := Reachable.start.run _

theorem linked_ground : linked.namespace.ground? ⟨0⟩ = some ⟨.sensitive, [⟨0⟩], 1⟩ := by
  decide +kernel

theorem linked_note : linked.namespace.Binds ⟨0⟩ ⟨"note", "note", .file, ⟨1⟩⟩ :=
  ⟨⟨[⟨"copy", "copy", .file, ⟨2⟩⟩, ⟨"note", "note", .file, ⟨1⟩⟩]⟩, by decide +kernel, by simp⟩

end World

theorem linked_counts_two : { place | World.linked.IsNameOf ⟨0⟩ place }.encard = 2 := by
  obtain ⟨volume, hvolume, hlive⟩ := World.owned_of_ground? World.linked_ground Nat.one_pos
  have hnode : World.linked.namespace.node? ⟨1⟩ = some (.file { inode := ⟨0⟩ }) := by decide +kernel
  obtain ⟨found, hfound, hfile⟩ := World.entry_of_node? hnode
  obtain ⟨inode, _, hinode, _, _, hcount⟩ := links_count_names World.reachable_linked hvolume hlive
    ⟨0, ⟨0⟩, _, ⟨_, World.linked_ground, rfl⟩, .step .top World.linked_note⟩ hfound hfile
  have hlinks : World.linked.tally ⟨0⟩ = some 2 := by decide +kernel
  change World.linked.inode ⟨0⟩ = _ at hinode
  unfold World.tally at hlinks
  rw [World.inode_eq_ok hinode] at hlinks
  rw [hcount, Option.some.inj hlinks]
  rfl

end RamFs
