import RamFs.Proofs.Relocations.Effects
import RamFs.Proofs.Sharing.Additions

/-!
What a copy does to a world. It makes one entry of the kind of its source, which holds what the
source holds at that moment but nothing that the source holds later, and binds one name to it. The
source stays where it is, and of all that was there before only the target's directory and what is
replaced are touched.
-/

namespace RamFs

open RamFs.Action

variable {world made after : World} {sourceVolume targetVolume : Volume} {src dst : Slot}
  {moving : Binding} {existing : Option Binding} {options : CopyOptions} {new : EntryId}
  {found copy : Entry} {s t : String} {id targetId : VolumeId}

/-! ### What a copy does -/

/-- The binding that a copy leaves at its target: the name as it was given, for a new entry. -/
def Slot.binding (slot : Slot) (volume : Volume) (kind : Kind) (entry : EntryId) : Binding :=
  ⟨volume.collation.key slot.name, slot.name, kind, entry⟩

/-- From one world to another in which one slot is bound to a copy of what another is bound to, and
nothing else has happened. -/
structure World.Copied (world : World) (sourceVolume targetVolume : Volume) (src dst : Slot)
    (moving : Binding) (existing : Option Binding) (options : CopyOptions) (new : EntryId)
    (after : World) : Prop where
  /-- The copy is an entry that was not there before, and the only one. -/
  fresh : world.entry new = .error .notFound
  size : after.entries.size = world.entries.size + 1
  duplicates : ∃ found copy, world.entry moving.entry = .ok found ∧ after.entry new = .ok copy ∧
    world.Duplicates targetVolume options.copyAttributes found copy after
  /-- The name of the target, spelled as it was given, belongs to the copy. -/
  arrived : after.bound? targetVolume dst = some (dst.binding targetVolume moving.kind new)
  /-- On every volume all other names are as they were. -/
  names : ∀ directory other,
    ¬(directory = dst.directory ∧ other.key = targetVolume.collation.key dst.name) →
      (after.namespace.Binds directory other ↔ world.namespace.Binds directory other)
  /-- The name of the source belongs to the source. -/
  stays : after.bound? sourceVolume src = some moving
  /-- Unless the source is the directory of the target, it has the attributes that it had, except
  that its inode may have lost a name to the replacement. -/
  unchanged : moving.entry ≠ dst.directory → ∃ found before later,
    world.entry moving.entry = .ok found ∧ after.entry moving.entry = .ok found ∧
    world.attributes found = .ok before ∧ after.attributes found = .ok later ∧
    later = { before with links := later.links } ∧ before.links = later.links +
      if before.inode.isSome ∧ before.inode = world.unlinked? existing then 1 else 0
  /-- Something was replaced only if that was asked for, and it is out of use. -/
  replaces : existing.isSome = true → options.replaceExisting = true
  retired : ∀ replaced, existing = some replaced → after.namespace.node? replaced.entry =
    (world.namespace.retire replaced.entry).node? replaced.entry
  /-- All other entries but the directory of the target are unchanged, and so are their times. -/
  others : ∀ {entry found}, world.entry entry = .ok found → entry ≠ dst.directory →
    (∀ replaced, existing = some replaced → entry ≠ replaced.entry) →
    after.entry entry = .ok found
  stamped : ∀ {entry found}, world.entry entry = .ok found → ∃ found',
    after.entry entry = .ok found' ∧ found'.owner = found.owner ∧
    found'.times.created = found.times.created ∧
    (entry ≠ dst.directory → found'.times = found.times)
  /-- All inodes are as they were, but for the one that lost a name. -/
  inodes : ∀ {inode stored}, world.inode inode = .ok stored → after.inode inode =
    .ok (if world.unlinked? existing = some inode then stored.removeLink else stored)
  handles : after.handles = world.handles
  volumes : after.volumes = world.volumes
  clock : after.clock = world.clock

/-! ### The stages of a copy -/

namespace World

/-- A binding of a slot's directory is what the slot is bound to if it has the key of its name. -/
theorem bound?_of_binds {slot : Slot} {binding : Binding} (hn : world.namespace.Sound)
    (hbinds : world.namespace.Binds slot.directory binding)
    (hkey : binding.key = targetVolume.collation.key slot.name) :
    world.bound? targetVolume slot = some binding := by
  obtain ⟨names, hnode, hmem⟩ := hbinds
  rw [bound?_of_directory (directory_eq_ok.2 hnode), (hn.ordered hnode).find?_eq_some hmem hkey]

/-- Worlds that enlarge another have the same inode to unlink. -/
theorem Enlarges.unlinked?_eq (h : world.Enlarges made)
    (hthere : ∀ replaced, existing = some replaced → ∃ found, world.entry replaced.entry = .ok found) :
    made.unlinked? existing = world.unlinked? existing := by
  cases existing with
  | none => rfl
  | some replaced =>
      obtain ⟨found, hfound⟩ := hthere replaced rfl
      exact (inodeOf?_of_entry (h.entry hfound)).trans (inodeOf?_of_entry hfound).symm

end World

namespace Relocation

variable {op : Relocation} {plan : Plan} {cleared : World}

/-- The worlds that a copy goes through: first the copy is made, then its name is freed, then the
name is bound. -/
structure Stages (world : World) (targetVolume : Volume) (dst : Slot) (moving : Binding)
    (existing : Option Binding) (options : CopyOptions) (new : EntryId)
    (made cleared after : World) : Prop where
  makes : Action.duplicate targetVolume moving.entry options.copyAttributes world = (.ok new, made)
  gains : world.namespace.Gains new moving.kind made.namespace
  clears : clear dst targetVolume.collation existing made = (.ok (), cleared)
  freed : Clears made.namespace dst.directory targetVolume.collation dst.name existing
    cleared.namespace
  settles : settle targetVolume dst moving.kind new cleared = (.ok (), after)
  settled : ∃ names names', cleared.namespace.node? dst.directory = some (.directory names) ∧
    names.insert targetVolume.collation dst.name moving.kind new = .ok names' ∧
    after.namespace = cleared.namespace.setNode dst.directory (.directory names')
  sound : after.namespace.Sound

theorem commit_stages (hn : world.namespace.Sound)
    (h : (Relocation.copy options).Prepared world.namespace sourceVolume targetVolume src dst
      plan.source plan.replaced) :
    ∃ new made cleared after,
      Stages world targetVolume dst plan.source plan.replaced options new made cleared after ∧
      (Relocation.copy options).commit sourceVolume targetVolume src dst plan world =
        (.ok (), after) := by
  obtain ⟨targetNames, hdst, hexisting⟩ := h.target_names
  obtain ⟨node, hnode, hkind⟩ := hn.bound_kind h.source_binds
  obtain ⟨new, made, hmakes, hgains, -⟩ := duplicate_gains hn hnode targetVolume options.copyAttributes
  rw [hkind] at hgains
  obtain ⟨cleared, hclears, hfreed, -⟩ := clear_clears hgains.grows.sound (hgains.kept hdst)
    hexisting fun binding hbinding => by
      obtain ⟨node, hnode, hidle⟩ := h.replaceable binding hbinding
      exact ⟨node, hgains.kept hnode, hidle⟩
  have hvacant := (h.ready hn hnode nofun hgains hfreed).toVacant
  obtain ⟨names, hnames, hfree⟩ := hvacant.free
  obtain ⟨after, names', hsettles, hinsert, hafter, hgrows, -⟩ :=
    bind_loose (cleared.now targetVolume) hfreed.evolves.sound hvacant.ground hvacant.inTree hnames
      hfree hvacant.loose
  refine ⟨new, made, cleared, after, ⟨hmakes, hgains, hclears, hfreed, hsettles,
    ⟨names, names', hnames, hinsert, hafter⟩, hgrows.sound⟩, ?_⟩
  have harrival : (Relocation.copy options).arrival (src.volume = dst.volume) targetVolume
      plan.source.entry world = (.ok new, made) := hmakes
  have hvacate : (Relocation.copy options).vacate (src.volume = dst.volume) sourceVolume src
      plan.source cleared = (.ok (), cleared) := rfl
  rw [commit_eq, bind_ok harrival, bind_ok hclears, bind_ok hvacate]
  exact hsettles

namespace Stages

variable {directory : EntryId} {other : Binding}

theorem binds
    (h : Stages world targetVolume dst moving existing options new made cleared after) :
    after.namespace.Binds directory other ↔
      (world.namespace.Binds directory other ∧
        ∀ replaced, existing = some replaced → other.entry ≠ replaced.entry) ∨
      directory = dst.directory ∧ other = dst.binding targetVolume moving.kind new := by
  obtain ⟨names, names', hnames, hinsert, hafter⟩ := h.settled
  rw [hafter, Namespace.binds_attach hnames hinsert, h.freed.binds, h.gains.binds]
  rfl

/-- The name of the target is the only one that is not bound as before. -/
theorem names (hn : world.namespace.Sound)
    (hprepared : op.Prepared world.namespace sourceVolume targetVolume src dst moving existing)
    (h : Stages world targetVolume dst moving existing options new made cleared after)
    (hname : ¬(directory = dst.directory ∧ other.key = targetVolume.collation.key dst.name)) :
    after.namespace.Binds directory other ↔ world.namespace.Binds directory other := by
  rw [h.binds]
  constructor
  · rintro (⟨hold, -⟩ | ⟨rfl, rfl⟩)
    · exact hold
    · exact absurd ⟨rfl, rfl⟩ hname
  · refine fun hold => .inl ⟨hold, fun replaced hreplaced hsame => hname ?_⟩
    obtain ⟨rfl, rfl⟩ := hn.bound_once hold (hprepared.target_binds hreplaced) hsame
    obtain ⟨_, -, hfind⟩ := hprepared.target_names
    exact ⟨rfl, Directory.find?_key (hfind.trans hreplaced)⟩

/-- The source has a name that is not the target's, and keeps it. -/
theorem stays (hn : world.namespace.Sound)
    (hprepared : op.Prepared world.namespace sourceVolume targetVolume src dst moving existing)
    (h : Stages world targetVolume dst moving existing options new made cleared after) :
    after.bound? sourceVolume src = some moving := by
  obtain ⟨_, -, hfind⟩ := hprepared.source_names
  refine World.bound?_of_binds h.sound ((h.names hn hprepared ?_).2 hprepared.source_binds)
    (Directory.find?_key hfind)
  rintro ⟨hsame, hkey⟩
  obtain ⟨names, hnames, hexisting⟩ := hprepared.target_names
  obtain ⟨names', hnames', hmem⟩ := hprepared.source_binds
  rw [hsame, hnames] at hnames'
  obtain rfl := Node.directory.inj (Option.some.inj hnames')
  rw [(hn.ordered hnames).find?_eq_some hmem hkey] at hexisting
  exact hprepared.other moving hexisting.symm rfl

theorem retired {replaced : Binding}
    (hprepared : op.Prepared world.namespace sourceVolume targetVolume src dst moving existing)
    (h : Stages world targetVolume dst moving existing options new made cleared after)
    (hreplaced : existing = some replaced) : after.namespace.node? replaced.entry =
      (world.namespace.retire replaced.entry).node? replaced.entry := by
  obtain ⟨names, names', -, -, hafter⟩ := h.settled
  obtain ⟨node, hnode, -⟩ := hprepared.replaceable replaced hreplaced
  have htarget := hprepared.replaced_ne hreplaced (hprepared.target_binds hreplaced)
  rw [hafter, Namespace.node?_setNode_of_ne htarget.symm, h.freed.retired replaced hreplaced]
  have hsame : made.namespace.node? replaced.entry = world.namespace.node? replaced.entry :=
    (h.gains.kept hnode).trans hnode.symm
  unfold Namespace.retire
  rw [hsame, hnode]
  cases node with
  | file file => simp
  | directory names => exact hsame
  | symlink target => exact hsame

theorem amends (h : Stages world targetVolume dst moving existing options new made cleared after) :
    made.Amends [dst.directory] (existing.map Binding.entry) after := by
  have hparent : dst.directory ∈ [dst.directory] := List.mem_singleton_self _
  have hcleared := (clear_amends hparent targetVolume.collation).after World.Amends.refl h.clears
  exact (settle_amends hparent targetVolume moving.kind new).after hcleared h.settles

theorem inodes
    (hprepared : op.Prepared world.namespace sourceVolume targetVolume src dst moving existing)
    (h : Stages world targetVolume dst moving existing options new made cleared after) :
    after.inodes = made.inodesWithout existing := by
  have hcleared := clear_inodes (fun replaced hreplaced => by
    obtain ⟨node, hnode, hidle⟩ := hprepared.replaceable replaced hreplaced
    exact ⟨node, h.gains.kept hnode, hidle⟩) h.clears
  have hsettled := settle_inodes targetVolume dst moving.kind new cleared
  rw [h.settles] at hsettled
  exact hsettled.trans hcleared

/-- Entries that stay, the copy among them, are as they were when the copy was made. -/
theorem kept {entry : EntryId} {found : Entry}
    (h : Stages world targetVolume dst moving existing options new made cleared after)
    (hfound : made.entry entry = .ok found) (hdirectory : entry ≠ dst.directory)
    (hreplaced : ∀ replaced, existing = some replaced → entry ≠ replaced.entry) :
    after.entry entry = .ok found := by
  refine (h.amends.untouched (by simpa using hdirectory) fun hgone => ?_).trans hfound
  obtain ⟨replaced, hsome, hsame⟩ := Option.map_eq_some_iff.1 hgone
  exact hreplaced replaced hsome hsame.symm

/-- Inodes that were there when the copy was made are there, and one may have a name less. -/
theorem inode {inode : InodeId} {stored : Inode}
    (hprepared : op.Prepared world.namespace sourceVolume targetVolume src dst moving existing)
    (henlarges : world.Enlarges made)
    (h : Stages world targetVolume dst moving existing options new made cleared after)
    (hstored : made.inode inode = .ok stored) : after.inode inode =
      .ok (if world.unlinked? existing = some inode then stored.removeLink else stored) := by
  have hthere : ∀ replaced, existing = some replaced →
      ∃ found, world.entry replaced.entry = .ok found := by
    intro replaced hreplaced
    obtain ⟨node, hnode, -⟩ := hprepared.replaceable replaced hreplaced
    obtain ⟨found, hfound, -⟩ := World.entry_of_node? hnode
    exact ⟨found, hfound⟩
  rw [World.inode_without (h.inodes hprepared), hstored, henlarges.unlinked?_eq hthere]
  rfl

end Stages

/-- Carrying out a plan for a copy does what a copy does. -/
theorem commit_copied (plan : Plan) (hn : world.namespace.Sound) (hb : world.Booked)
    (h : (Relocation.copy options).Prepared world.namespace sourceVolume targetVolume src dst
      plan.source plan.replaced)
    (hreplaces : plan.replaced.isSome = true → options.replaceExisting = true) :
    ∃ new after, (Relocation.copy options).commit sourceVolume targetVolume src dst plan world =
        (.ok (), after) ∧
      world.Copied sourceVolume targetVolume src dst plan.source plan.replaced options new after := by
  obtain ⟨new, made, cleared, after, hstages, hrun⟩ := commit_stages hn h
  obtain ⟨node, hnode, hkind⟩ := hn.bound_kind h.source_binds
  obtain ⟨found, hfound, rfl⟩ := World.entry_of_node? hnode
  obtain ⟨copy, _, hmakes, henlarges, hsize, hcopy, hduplicates⟩ :=
    duplicate_duplicates hn hfound targetVolume options.copyAttributes
  cases hmakes.symm.trans hstages.makes
  have hnew : ∀ {entry node}, world.namespace.node? entry = some node →
      (⟨world.entries.size⟩ : EntryId) ≠ entry := by
    rintro entry node hnode rfl
    rw [hstages.gains.fresh] at hnode
    cases hnode
  have hreplaced : ∀ replaced, plan.replaced = some replaced →
      (⟨world.entries.size⟩ : EntryId) ≠ replaced.entry := by
    intro replaced hsome
    obtain ⟨node, hnode, -⟩ := h.replaceable replaced hsome
    exact hnew hnode
  obtain ⟨_, hdirectory, -⟩ := h.target_names
  refine ⟨⟨world.entries.size⟩, after, hrun, ?_⟩
  constructor
  case fresh => exact World.entry_next
  case size => exact hstages.amends.size.trans hsize
  case duplicates =>
    refine ⟨found, copy, hfound, hstages.kept hcopy (hnew hdirectory) hreplaced,
      hduplicates.later fun {inode stored} hfresh hstored => ?_⟩
    have hkept : world.unlinked? plan.replaced ≠ some inode := by
      intro hgone
      obtain ⟨replaced, -, hinode⟩ := Option.bind_eq_some_iff.1 hgone
      exact hfresh replaced.entry hinode
    rw [hstages.inode h henlarges hstored, if_neg hkept]
  case arrived => exact World.bound?_of_binds hstages.sound (hstages.binds.2 (.inr ⟨rfl, rfl⟩)) rfl
  case names => exact fun directory other hname => hstages.names hn h hname
  case stays => exact hstages.stays hn h
  case unchanged =>
    intro hne
    obtain ⟨before, later, hbefore, hlater, hsame, hlinks⟩ := World.attributes_without hn hb
      (fun replaced hsome => (h.target_binds hsome).bound)
      (fun hstored => hstages.inode h henlarges (henlarges.inode hstored)) hfound
    exact ⟨found, before, later, hfound, hstages.kept (henlarges.entry hfound) hne
      fun replaced hsome => (h.other replaced hsome).symm, hbefore, hlater, hsame, hlinks⟩
  case replaces => exact hreplaces
  case retired => exact fun replaced hsome => hstages.retired h hsome
  case others => exact fun hfound => hstages.kept (henlarges.entry hfound)
  case stamped =>
    intro entry found hfound
    obtain ⟨found', hfound', howner, hcreated, htimes⟩ :=
      hstages.amends.signed (henlarges.entry hfound)
    exact ⟨found', hfound', howner, hcreated, fun hother => htimes (by simpa using hother)⟩
  case inodes => exact fun hstored => hstages.inode h henlarges (henlarges.inode hstored)
  case handles => exact hstages.amends.handles.trans henlarges.handles
  case volumes => exact hstages.amends.volumes.trans henlarges.volumes
  case clock => exact hstages.amends.clock.trans henlarges.clock

end Relocation

/-- A copy that succeeds reproduces one entry. Where the paths name different entries, the name of
the target belongs to a new entry that holds what the source holds, with the attributes of the
source or those of a new entry; the source stays as it is, what was bound to the target goes only
if it may be replaced, and every other name is bound as before. -/
theorem copy_reproduces_one_entry (h : Reachable world) :
    ∀ id s targetId t options after,
      VolumeId.copy id s targetId t options world = (.ok (), after) →
      ∃ sourceVolume targetVolume src dst moving,
        world.slotOf id s = .ok (sourceVolume, src) ∧
        world.slotOf targetId t = .ok (targetVolume, dst) ∧
        world.bound? sourceVolume src = some moving ∧
        ((∀ existing, world.bound? targetVolume dst = some existing →
            existing.entry ≠ moving.entry) →
          ∃ new, world.Copied sourceVolume targetVolume src dst moving
            (world.bound? targetVolume dst) options new after) := by
  have hn := h.sound
  intro id s targetId t options after hrun
  unfold VolumeId.copy at hrun
  obtain ⟨sourceVolume, hvolume, hrun⟩ := asked_of_bind_ok hrun
  obtain ⟨source, hparse, hrun⟩ := lifted_of_bind_ok hrun
  obtain ⟨targetVolume, hvolume', hrun⟩ := asked_of_bind_ok hrun
  obtain ⟨target, hparse', hrun⟩ := lifted_of_bind_ok hrun
  obtain ⟨src, dst, moving, hsrc, hdst, hmoving, hcommits⟩ :=
    Relocation.run_commits hn hvolume hvolume' hrun
  refine ⟨sourceVolume, targetVolume, src, dst, moving, World.slotOf_of_slot hvolume hparse hsrc,
    World.slotOf_of_slot hvolume' hparse' hdst, hmoving, fun hdifferent => ?_⟩
  obtain ⟨hprepared, hreplaces, hcarry⟩ := hcommits hdifferent
  obtain ⟨new, made, hcommit, hcopied⟩ := Relocation.commit_copied
    ⟨moving, world.bound? targetVolume dst⟩ hn h.booked hprepared hreplaces
  obtain rfl : made = after := congrArg Prod.snd (hcommit.symm.trans hcarry)
  exact ⟨new, hcopied⟩

/-- A volume with two names for a file. -/
def World.coupled : World :=
  List.foldl Call.perform {} [.newVolume { collation := .insensitivePreserving },
    .writeAll ⟨0⟩ "/a" [1, 2, 3], .onPath ⟨0⟩ (.createHardLink "/b" "/a")]

def Volume.coupled : Volume :=
  { config := { collation := .insensitivePreserving }, roots := [⟨0⟩] }

/-- The slot of a name in the root directory. -/
def World.coupledTop (name : String) : Slot :=
  ⟨⟨0⟩, ⟨0⟩, [⟨0⟩], ⟨0, "/", [], true⟩, name⟩

/-- A copy over the other name of its source takes a name from the inode of the source, and is found
under the name that was given for it. -/
theorem coupled_copy_reproduces :
    Reachable World.coupled ∧ ∃ new after,
      VolumeId.copy ⟨0⟩ "/a" ⟨0⟩ "/B" { replaceExisting := true } World.coupled = (.ok (), after) ∧
      World.coupled.unlinked? (some ⟨"b", "b", .file, ⟨2⟩⟩) = some ⟨0⟩ ∧
      after.readDirectory ⟨0⟩ "/" = .ok [("a", .file), ("B", .file)] ∧
      World.coupled.Copied Volume.coupled Volume.coupled (World.coupledTop "a")
        (World.coupledTop "B") ⟨"a", "a", .file, ⟨1⟩⟩ (some ⟨"b", "b", .file, ⟨2⟩⟩)
        { replaceExisting := true } new after := by
  have hreach : Reachable World.coupled := Reachable.start.run _
  have hok : (VolumeId.copy ⟨0⟩ "/a" ⟨0⟩ "/B" { replaceExisting := true } World.coupled).1 =
      .ok () := by decide +kernel
  have hsrc : World.coupled.slotOf ⟨0⟩ "/a" = .ok (Volume.coupled, World.coupledTop "a") := by
    decide +kernel
  have hdst : World.coupled.slotOf ⟨0⟩ "/B" = .ok (Volume.coupled, World.coupledTop "B") := by
    decide +kernel
  have hmoving : World.coupled.bound? Volume.coupled (World.coupledTop "a") =
      some ⟨"a", "a", .file, ⟨1⟩⟩ := by decide +kernel
  have hexisting : World.coupled.bound? Volume.coupled (World.coupledTop "B") =
      some ⟨"b", "b", .file, ⟨2⟩⟩ := by decide +kernel
  obtain ⟨_, _, src, dst, moving, hsource, htarget, hbound, hcopied⟩ :=
    copy_reproduces_one_entry hreach ⟨0⟩ "/a" ⟨0⟩ "/B" _ _ (Prod.ext hok rfl)
  cases hsrc.symm.trans hsource
  cases hdst.symm.trans htarget
  cases hmoving.symm.trans hbound
  rw [hexisting] at hcopied
  obtain ⟨new, hcopied⟩ := hcopied (by decide)
  exact ⟨hreach, new, _, Prod.ext hok rfl, by decide +kernel, by decide +kernel, hcopied⟩

end RamFs
