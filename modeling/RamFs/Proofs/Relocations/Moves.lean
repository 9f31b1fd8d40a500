import RamFs.Proofs.Relocations.Refusals

/-!
What a move within a volume does to a world. `Amends` is the frame of all its steps: some
directories may have other names and other times of change, and one entry may go out of use, but
nothing else is touched. `Moved` says what the whole move comes to: one name is given up, one is
bound to the entry that had it, and what was bound there before has gone.
-/

namespace RamFs

open RamFs.Action

variable {world middle after : World} {parents : List EntryId} {gone : Option EntryId}
  {entry directory : EntryId} {volume : Volume} {src dst : Slot} {moving : Binding}
  {existing : Option Binding}

/-! ### Frames -/

/-- From one world to another in which the parents may have other nodes and other times of change
and of last access, and the entry that is gone another node. -/
structure World.Amends (world : World) (parents : List EntryId) (gone : Option EntryId)
    (after : World) : Prop where
  clock : after.clock = world.clock
  volumes : after.volumes = world.volumes
  handles : after.handles = world.handles
  size : after.entries.size = world.entries.size
  untouched : ∀ {entry}, entry ∉ parents → gone ≠ some entry →
    after.entry entry = world.entry entry
  signed : ∀ {entry found}, world.entry entry = .ok found → ∃ found',
    after.entry entry = .ok found' ∧ found'.owner = found.owner ∧
    found'.times.created = found.times.created ∧ (entry ∉ parents → found'.times = found.times)

namespace World.Amends

theorem refl : world.Amends parents gone world where
  clock := rfl
  volumes := rfl
  handles := rfl
  size := rfl
  untouched _ _ := rfl
  signed hfound := ⟨_, hfound, rfl, rfl, fun _ => rfl⟩

theorem setEntry (h : world.Amends parents gone middle) {change : Entry → Entry}
    (hentry : entry ∈ parents ∨ gone = some entry)
    (hchange : ∀ found, (change found).owner = found.owner ∧
      (change found).times.created = found.times.created ∧
      (entry ∉ parents → (change found).times = found.times)) :
    world.Amends parents gone (middle.modifyEntry entry change) where
  clock := h.clock
  volumes := h.volumes
  handles := h.handles
  size := (Array.size_modify ..).trans h.size
  untouched := by
    intro other hparents hgone
    have hne : other ≠ entry := by
      rintro rfl
      exact hentry.elim hparents hgone
    exact (entry_modifyEntry_of_ne hne change).trans (h.untouched hparents hgone)
  signed := by
    intro other found hfound
    obtain ⟨found', hmiddle, howner, hcreated, htimes⟩ := h.signed hfound
    by_cases hsame : other = entry
    · subst hsame
      obtain ⟨howner', hcreated', htimes'⟩ := hchange found'
      exact ⟨_, entry_modifyEntry_self hmiddle change, howner'.trans howner,
        hcreated'.trans hcreated, fun hparents => (htimes' hparents).trans (htimes hparents)⟩
    · exact ⟨found', (entry_modifyEntry_of_ne hsame change).trans hmiddle, howner, hcreated, htimes⟩

theorem setInode (h : world.Amends parents gone middle) (inode : InodeId) (change : Inode → Inode) :
    world.Amends parents gone (middle.modifyInode inode change) :=
  { h with }

end World.Amends

namespace Action

theorem unbind_amends (hparent : directory ∈ parents) (collation : Collation) (name : String) :
    Maintains (world.Amends parents gone) (Action.unbind directory collation name) :=
  (maintains_ask fun _ _ _ _ => trivial).bind fun _ _ =>
    maintains_modify fun _ h => h.setEntry (.inl hparent) fun _ => ⟨rfl, rfl, fun _ => rfl⟩

theorem touchModified_amends (hparent : entry ∈ parents) (now : Time) :
    Maintains (world.Amends parents gone) (Action.touchModified entry now) :=
  maintains_modify fun _ h => h.setEntry (.inl hparent) fun _ =>
    ⟨rfl, rfl, fun hother => absurd hparent hother⟩

theorem bind_amends (hparent : directory ∈ parents) (collation : Collation) (name : String)
    (kind : Kind) (entry : EntryId) (now : Time) :
    Maintains (world.Amends parents gone) (Action.bind directory collation name kind entry now) :=
  (maintains_ask fun _ _ _ _ => trivial).bind fun _ _ =>
    (maintains_lift fun _ _ => trivial).bind fun _ _ =>
      maintains_modify fun _ h => h.setEntry (.inl hparent) fun _ =>
        ⟨rfl, rfl, fun hother => absurd hparent hother⟩

theorem markDeleted_amends (hgone : gone = some entry) :
    Maintains (world.Amends parents gone) (Action.markDeleted entry) := by
  refine (maintains_ask fun _ _ _ _ => trivial).bind fun found _ => ?_
  split
  · refine (maintains_lift fun _ _ => trivial).bind fun _ _ => ?_
    refine (maintains_modify fun _ h => ?_).bind fun _ _ => maintains_modify fun _ h => h.setInode _ _
    exact h.setEntry (.inr hgone) fun _ => ⟨rfl, rfl, fun _ => rfl⟩
  · exact maintains_pure trivial

end Action

namespace Relocation

/-- Clearing a slot changes its directory and takes out of use what is replaced. -/
theorem clear_amends {replaced : Option Binding} (hparent : dst.directory ∈ parents)
    (collation : Collation) : Maintains (world.Amends parents (replaced.map Binding.entry))
      (clear dst collation replaced) := by
  cases replaced with
  | none => exact maintains_pure trivial
  | some replaced =>
      exact (markDeleted_amends rfl).bind fun _ _ => unbind_amends hparent _ _

theorem settle_amends (hparent : dst.directory ∈ parents) (volume : Volume) (kind : Kind)
    (entry : EntryId) :
    Maintains (world.Amends parents gone) (settle volume dst kind entry) :=
  maintains_get_bind fun _ => bind_amends hparent _ _ _ _ _

/-- A move within a volume changes the two directories and what it replaces. -/
theorem commit_amends {options : CopyOptions} {plan : Plan} (hvolume : src.volume = dst.volume) :
    Maintains (world.Amends [src.directory, dst.directory] (plan.replaced.map Binding.entry))
      ((Relocation.move options).commit volume volume src dst plan) := by
  have harrival : Maintains
      (world.Amends [src.directory, dst.directory] (plan.replaced.map Binding.entry))
      ((Relocation.move options).arrival true volume plan.source.entry) := maintains_pure trivial
  have hvacate : Maintains
      (world.Amends [src.directory, dst.directory] (plan.replaced.map Binding.entry))
      ((Relocation.move options).vacate true volume src plan.source) :=
    (unbind_amends (by simp) _ _).bind fun _ _ => maintains_get_bind fun _ =>
      (touchModified_amends (by simp) _).bind fun _ _ => maintains_pure trivial
  rw [commit_eq, decide_eq_true hvolume]
  exact harrival.bind fun _ _ => (clear_amends (by simp) _).bind fun _ _ =>
    hvacate.bind fun _ _ => settle_amends (by simp) _ _ _

end Relocation

/-! ### Inodes -/

/-- The inode that has one name less once what is replaced has gone. -/
def World.unlinked? (world : World) (existing : Option Binding) : Option InodeId :=
  existing.bind fun replaced => world.inodeOf? replaced.entry

/-- The inodes once what is replaced has gone. -/
def World.inodesWithout (world : World) (existing : Option Binding) : Array Inode :=
  match world.unlinked? existing with
  | some inode => world.inodes.modify inode.index Inode.removeLink
  | none => world.inodes

theorem Action.markDeleted_inodes {replaced : Binding} {node : Node}
    (hnode : world.namespace.node? replaced.entry = some node) (hidle : node.IsIdle) :
    (Action.markDeleted replaced.entry world).2.inodes = world.inodesWithout (some replaced) := by
  obtain ⟨found, hfound, rfl⟩ := World.entry_of_node? hnode
  have hunlinked : world.unlinked? (some replaced) = _ := World.inodeOf?_of_entry hfound
  unfold Action.markDeleted World.inodesWithout
  rw [bind_ask_ok hfound, hunlinked]
  cases hkind : found.node with
  | file file =>
      rw [hkind] at hidle
      have hstate : file.state = .live 0 := hidle
      have hmark : file.markDeleted = .ok { file with state := .pendingDeletion } := by
        simp [FileNode.markDeleted, hstate]
      dsimp only
      rw [bind_lift_ok hmark, bind_ok (modify_apply ..), modify_apply]
      rfl
  | directory names => rfl
  | symlink target => rfl

namespace Relocation

variable {plan : Plan}

theorem clear_inodes {collation : Collation}
    (hidle : ∀ replaced, existing = some replaced →
      ∃ node, world.namespace.node? replaced.entry = some node ∧ node.IsIdle)
    (hrun : clear dst collation existing world = (.ok (), after)) :
    after.inodes = world.inodesWithout existing := by
  cases existing with
  | none =>
      cases hrun
      rfl
  | some replaced =>
      obtain ⟨node, hnode, hclosed⟩ := hidle replaced rfl
      obtain ⟨_, marked, hmark, hunbind⟩ := ran_of_bind_ok hrun
      have hkept : Keeps World.inodes (Action.unbind dst.directory collation dst.name) :=
        (keeps_ask _).bind fun _ => keeps_modify fun _ => rfl
      have hsame := hkept marked
      rw [hunbind] at hsame
      rw [hsame, ← Action.markDeleted_inodes hnode hclosed, hmark]

theorem settle_inodes (volume : Volume) (dst : Slot) (kind : Kind) (entry : EntryId) :
    Keeps World.inodes (settle volume dst kind entry) :=
  keeps_get.bind fun _ => (keeps_ask _).bind fun _ => (keeps_lift _).bind fun _ =>
    keeps_modify fun _ => rfl

theorem commit_inodes {options : CopyOptions} (hvolume : src.volume = dst.volume)
    (hidle : ∀ replaced, plan.replaced = some replaced →
      ∃ node, world.namespace.node? replaced.entry = some node ∧ node.IsIdle)
    (hrun : (Relocation.move options).commit volume volume src dst plan world = (.ok (), after)) :
    after.inodes = world.inodesWithout plan.replaced := by
  have htouch : ∀ now, Keeps World.inodes (Action.touchModified src.directory now) :=
    fun _ => keeps_modify fun _ => rfl
  have hvacate : Keeps World.inodes
      ((Relocation.move options).vacate true volume src plan.source) :=
    Keeps.bind ((keeps_ask _).bind fun _ => keeps_modify fun _ => rfl) fun _ =>
      keeps_get.bind fun _ => (htouch _).bind fun _ => keeps_pure _
  have harrival : (Relocation.move options).arrival true volume plan.source.entry world =
      (.ok plan.source.entry, world) := rfl
  rw [commit_eq, decide_eq_true hvolume, bind_ok harrival] at hrun
  obtain ⟨_, cleared, hclear, hrest⟩ := ran_of_bind_ok hrun
  have hsettle := settle_inodes volume dst plan.source.kind plan.source.entry
  have hsame := (hvacate.bind fun _ => hsettle) cleared
  rw [hrest] at hsame
  rw [hsame, clear_inodes hidle hclear]

end Relocation

/-! ### What a move does -/

/-- The binding with another name for the same entry. -/
def Binding.renamed (binding : Binding) (collation : Collation) (name : String) : Binding :=
  { binding with key := collation.key name, name }

namespace Relocation

variable {n n' : Namespace} {other : Binding}

/-- The names after a move: those of the moved and of the replaced entry have gone, and there is a
new one. -/
theorem Shifts.binds (h : Shifts n volume src dst moving existing n') :
    n'.Binds directory other ↔
      (n.Binds directory other ∧ other.entry ≠ moving.entry ∧
        ∀ replaced, existing = some replaced → other.entry ≠ replaced.entry) ∨
      directory = dst.directory ∧
        other = moving.renamed volume.collation dst.name := by
  obtain ⟨cleared, names, names', bound, hclears, hsrc, hfind, hdst, hinsert, rfl⟩ := h
  rw [Namespace.binds_attach hdst hinsert,
    Namespace.binds_detach hclears.evolves.sound.toWellFormed hsrc hfind, hclears.binds,
    and_assoc, and_comm (a := ∀ _, _)]
  rfl

end Relocation

/-- From one world to another in which an entry has moved from one slot to another, and nothing
else has happened. -/
structure World.Moved (world : World) (volume : Volume) (src dst : Slot) (moving : Binding)
    (existing : Option Binding) (after : World) : Prop where
  /-- The name of the source is free. -/
  vacated : ∃ names, after.directory src.directory = .ok names ∧
    names.find? volume.collation src.name = none
  /-- The name of the target, spelled as it was given, belongs to the entry. -/
  arrived : after.bound? volume dst = some (moving.renamed volume.collation dst.name)
  /-- On every volume all other names are as they were, but for that of the replaced entry. -/
  names : ∀ directory other, after.namespace.Binds directory other ↔
    (world.namespace.Binds directory other ∧ other.entry ≠ moving.entry ∧
      ∀ replaced, existing = some replaced → other.entry ≠ replaced.entry) ∨
    directory = dst.directory ∧
      other = moving.renamed volume.collation dst.name
  /-- The entry itself is unchanged and has the attributes that it had, except that its inode may
  have lost a name to the replacement. -/
  carried : ∃ found before later, world.entry moving.entry = .ok found ∧
    after.entry moving.entry = .ok found ∧ world.attributes found = .ok before ∧
    after.attributes found = .ok later ∧ later = { before with links := later.links } ∧
    before.links = later.links +
      if before.inode.isSome ∧ before.inode = world.unlinked? existing then 1 else 0
  /-- So is every other entry except the two directories and the one that is replaced. -/
  others : ∀ entry, entry ≠ src.directory → entry ≠ dst.directory →
    (∀ replaced, existing = some replaced → entry ≠ replaced.entry) →
    after.entry entry = world.entry entry
  /-- What is replaced is out of use. -/
  retired : ∀ replaced, existing = some replaced → after.namespace.node? replaced.entry =
    (world.namespace.retire replaced.entry).node? replaced.entry
  /-- Of all times, only those of last change and last access of the two directories are other. -/
  stamped : ∀ entry found, world.entry entry = .ok found → ∃ found',
    after.entry entry = .ok found' ∧ found'.owner = found.owner ∧
    found'.times.created = found.times.created ∧
    (entry ≠ src.directory → entry ≠ dst.directory → found'.times = found.times)
  /-- No entry is made. -/
  size : after.entries.size = world.entries.size
  /-- All contents are as they were, and so are the inodes but for the one that lost a name. -/
  stores : after.stores = world.stores
  inodes : ∀ inode, world.unlinked? existing ≠ some inode → after.inode inode = world.inode inode
  handles : after.handles = world.handles
  volumes : after.volumes = world.volumes
  clock : after.clock = world.clock

/-! ### Moves carried out -/

theorem World.inode_without (hinodes : after.inodes = world.inodesWithout existing)
    (id : InodeId) : after.inode id = (world.inode id).map fun stored =>
      if world.unlinked? existing = some id then stored.removeLink else stored := by
  unfold World.inode
  rw [hinodes]
  unfold World.inodesWithout
  cases hgone : world.unlinked? existing with
  | none => cases world.inodes[id.index]? <;> simp [Except.map]
  | some inode =>
      dsimp only
      rw [Array.getElem?_modify]
      by_cases hsame : inode = id
      · subst hsame
        cases world.inodes[inode.index]? <;> simp [Except.map]
      · rw [if_neg fun hindex => hsame (congrArg InodeId.mk hindex)]
        cases world.inodes[id.index]? <;> simp [Except.map, hsame]

/-- An inode that loses a name had one. -/
theorem World.links_pos {id : InodeId} {stored : Inode} (hn : world.namespace.Sound)
    (hb : world.Booked) (hbound : ∀ replaced, existing = some replaced →
      world.namespace.Bound replaced.entry)
    (hgone : world.unlinked? existing = some id) (hstored : world.inode id = .ok stored) :
    0 < stored.links := by
  obtain ⟨replaced, rfl, hinode⟩ := Option.bind_eq_some_iff.1 hgone
  obtain ⟨file, hfile, rfl⟩ := World.inodeOf?_eq_some.1 hinode
  have huser : replaced.entry ∈ world.namespace.users file.inode :=
    ⟨file, hfile, rfl, hn.bound_live (hbound replaced rfl) hfile⟩
  exact Namespace.Booked.counted_pos hb huser (World.tally_of_inode hstored)

/-- An entry that stays shows what it showed, but for a name that its inode has lost. -/
theorem World.attributes_without {found : Entry} (hn : world.namespace.Sound) (hb : world.Booked)
    (hbound : ∀ replaced, existing = some replaced → world.namespace.Bound replaced.entry)
    (hinode : ∀ {id stored}, world.inode id = .ok stored → after.inode id =
      .ok (if world.unlinked? existing = some id then stored.removeLink else stored))
    (hfound : world.entry entry = .ok found) :
    ∃ before later, world.attributes found = .ok before ∧ after.attributes found = .ok later ∧
      later = { before with links := later.links } ∧ before.links = later.links +
        if before.inode.isSome ∧ before.inode = world.unlinked? existing then 1 else 0 := by
  unfold World.attributes
  cases hkind : found.node with
  | directory names => exact ⟨_, _, rfl, rfl, rfl, rfl⟩
  | symlink target => exact ⟨_, _, rfl, rfl, rfl, rfl⟩
  | file file =>
      have hnode : world.namespace.node? entry = some (.file file) :=
        hkind ▸ World.node?_of_entry hfound
      obtain ⟨stored, hstored⟩ := World.inode_of_lt (hn.backed hnode)
      dsimp only
      rw [hstored, hinode hstored]
      refine ⟨_, _, rfl, rfl, ?_, ?_⟩
      · dsimp only
        split <;> rfl
      · dsimp only
        by_cases hgone : world.unlinked? existing = some file.inode
        · have hpos := World.links_pos hn hb hbound hgone hstored
          rw [if_pos hgone, if_pos ⟨rfl, hgone.symm⟩]
          exact (Nat.sub_add_cancel hpos).symm
        · rw [if_neg hgone, if_neg fun h => hgone h.2.symm, Nat.add_zero]

theorem World.stores_without (hinodes : after.inodes = world.inodesWithout existing) :
    after.stores = world.stores := by
  unfold World.stores
  rw [hinodes]
  unfold World.inodesWithout
  split
  case h_1 inode hgone =>
    have hsame : (world.modifyInode inode Inode.removeLink).stores = world.stores :=
      stores_modifyInode_same fun _ => rfl
    exact hsame
  case h_2 => rfl

namespace Relocation

variable {op : Relocation} {plan : Plan} {n : Namespace} {sourceVolume targetVolume : Volume}

/-- Neither of the two directories is what moves or lies below that. -/
theorem Prepared.below_ne {bindings : List Binding} (hn : n.Sound)
    (h : op.Prepared n sourceVolume targetVolume src dst moving existing) (hmove : op.isMove = true)
    (hvolume : src.volume = dst.volume) (hleads : n.Leads moving.entry bindings entry) :
    entry ≠ src.directory ∧ entry ≠ dst.directory := by
  constructor
  · rintro rfl
    have hloop : n.Leads src.directory ([moving] ++ bindings) src.directory :=
      (Namespace.Leads.step .top h.source_binds).append hleads
    have hempty := hn.acyclic h.source_in hloop
    cases hempty
  · rintro rfl
    obtain ⟨_, ⟨top, hroot, hroute, -⟩, hclear⟩ := h.target_route
    obtain ⟨_, top', before, hroot', hbefore⟩ := h.source_in
    obtain ⟨-, -, -, rfl⟩ := hn.route_unique hroot hroot' hroute
      ((hbefore.step h.source_binds).append hleads)
    exact hclear hmove hvolume moving (by simp) rfl

theorem Shifts.arrived {n' : Namespace} (h : Shifts n volume src dst moving existing n') :
    ∃ names, n'.node? dst.directory = some (.directory names) ∧
      names.find? volume.collation dst.name = some (moving.renamed volume.collation dst.name) := by
  obtain ⟨cleared, names, names', bound, _, _, _, _, hinsert, rfl⟩ := h
  exact ⟨bound, Namespace.node?_setNode_self, Directory.find?_inserted hinsert⟩

/-- The name of the source is free, for the name of the target is another one. -/
theorem Shifts.vacated {n' : Namespace} (hn : n.Sound)
    (hprepared : op.Prepared n volume volume src dst moving existing)
    (h : Shifts n volume src dst moving existing n') :
    ∃ names, n'.node? src.directory = some (.directory names) ∧
      names.find? volume.collation src.name = none := by
  obtain ⟨before, hbefore, hmoving⟩ := hprepared.source_names
  obtain ⟨names, hnames⟩ : ∃ names, n'.node? src.directory = some (.directory names) := by
    obtain ⟨cleared, names, names', bound, _, _, _, _, _, rfl⟩ := h
    by_cases hsame : src.directory = dst.directory
    · rw [hsame]
      exact ⟨bound, Namespace.node?_setNode_self⟩
    · rw [Namespace.node?_setNode_of_ne hsame]
      exact ⟨_, Namespace.node?_setNode_self⟩
  refine ⟨names, hnames, Directory.find?_eq_none.2 fun binding hmem hkey => ?_⟩
  rcases h.binds.1 ⟨names, hnames, hmem⟩ with ⟨⟨found, hfound, hold⟩, hother, -⟩ | ⟨hsame, rfl⟩
  · obtain rfl : before = found := by simpa [hbefore] using hfound
    apply hother
    rw [(hn.ordered hbefore).eq_of_key hold (Directory.find?_mem hmoving)
      (hkey.trans (Directory.find?_key hmoving).symm)]
  · -- then the source would be what is bound to the target
    obtain ⟨targetNames, htarget, hexisting⟩ := hprepared.target_names
    rw [← hsame, hbefore] at htarget
    obtain rfl := Node.directory.inj (Option.some.inj htarget)
    rw [(hn.ordered hbefore).find?_eq_some (Directory.find?_mem hmoving)
      ((Directory.find?_key hmoving).trans hkey.symm)] at hexisting
    exact hprepared.other moving hexisting.symm rfl

theorem Shifts.retired {n' : Namespace} {replaced : Binding}
    (hprepared : op.Prepared n sourceVolume targetVolume src dst moving existing)
    (h : Shifts n volume src dst moving existing n') (hreplaced : existing = some replaced) :
    n'.node? replaced.entry = (n.retire replaced.entry).node? replaced.entry := by
  obtain ⟨cleared, names, names', bound, hclears, _, _, _, _, rfl⟩ := h
  have hsource := hprepared.replaced_ne hreplaced hprepared.source_binds
  have htarget := hprepared.replaced_ne hreplaced (hprepared.target_binds hreplaced)
  rw [Namespace.node?_setNode_of_ne htarget.symm, Namespace.node?_setNode_of_ne hsource.symm,
    hclears.retired replaced hreplaced]

/-- A plan for a move within a volume does what a move does. -/
theorem commit_moved {options : CopyOptions} (plan : Plan) (hn : world.namespace.Sound)
    (hb : world.Booked)
    (h : (Relocation.move options).Prepared world.namespace volume volume src dst plan.source
      plan.replaced) (hvolume : src.volume = dst.volume) :
    ∃ after, (Relocation.move options).commit volume volume src dst plan world = (.ok (), after) ∧
      after.namespace.Sound ∧ world.Moved volume src dst plan.source plan.replaced after := by
  obtain ⟨after, hrun, hshifts, hadvances⟩ := commit_within hn h rfl hvolume
  have hamends := (commit_amends hvolume).after (World.Amends.refl) hrun
  have hinodes := commit_inodes hvolume h.replaceable hrun
  have hsound := hadvances.evolves.sound
  obtain ⟨hsource, htarget⟩ := h.below_ne hn rfl hvolume .top
  have hentry : after.entry plan.source.entry = world.entry plan.source.entry := by
    refine hamends.untouched (by simp [hsource, htarget]) fun hgone => ?_
    obtain ⟨replaced, hreplaced, hsame⟩ := Option.map_eq_some_iff.1 hgone
    exact h.other replaced hreplaced hsame
  refine ⟨after, hrun, hsound, ?_⟩
  constructor
  case names => exact fun directory other => hshifts.binds
  case stores => exact World.stores_without hinodes
  case handles => exact hamends.handles
  case volumes => exact hamends.volumes
  case clock => exact hamends.clock
  case size => exact hamends.size
  case inodes =>
    intro inode hkept
    rw [World.inode_without hinodes]
    simp only [if_neg hkept]
    cases world.inode inode <;> rfl
  case others =>
    intro entry hsource htarget hreplaced
    refine hamends.untouched (by simp [hsource, htarget]) fun hgone => ?_
    obtain ⟨replaced, hsome, hsame⟩ := Option.map_eq_some_iff.1 hgone
    exact hreplaced replaced hsome hsame.symm
  case retired => exact fun replaced hreplaced => hshifts.retired h hreplaced
  case stamped =>
    intro entry found hfound
    obtain ⟨found', hfound', howner, hcreated, htimes⟩ := hamends.signed hfound
    exact ⟨found', hfound', howner, hcreated, fun hsource htarget =>
      htimes (by simp [hsource, htarget])⟩
  case carried =>
    obtain ⟨node, hnode, -⟩ := hn.bound_kind h.source_binds
    obtain ⟨found, hfound, -⟩ := World.entry_of_node? hnode
    obtain ⟨before, later, hbefore, hlater, hsame, hlinks⟩ := World.attributes_without hn hb
      (fun replaced hreplaced => (h.target_binds hreplaced).bound)
      (fun hstored => by rw [World.inode_without hinodes, hstored]; rfl) hfound
    exact ⟨found, before, later, hfound, hentry.trans hfound, hbefore, hlater, hsame, hlinks⟩
  case vacated =>
    obtain ⟨names, hnode, hfree⟩ := hshifts.vacated hn h
    exact ⟨names, World.directory_eq_ok.2 hnode, hfree⟩
  case arrived =>
    obtain ⟨names, hnode, hfind⟩ := hshifts.arrived
    rw [World.bound?_of_directory (World.directory_eq_ok.2 hnode), hfind]

end Relocation

end RamFs
