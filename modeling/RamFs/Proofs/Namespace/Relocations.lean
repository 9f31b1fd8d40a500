import RamFs.Proofs.Namespace.Decisions

/-!
Copies, moves and links carried out. A plan makes an entry and binds it in place of what is
replaced, or it moves an entry within its volume; once the decision is there, neither can fail.
What goes is the entry that was replaced and, on a move to another volume, the source, both of
which were found to be removable in the world as it was at first.
-/

namespace RamFs

open RamFs.Action

variable {world : World} {op : Relocation} {sourceId targetId : VolumeId} {source target : Path}
  {sourceVolume targetVolume volume : Volume} {src dst : Slot} {plan : Relocation.Plan}
  {sameVolume : Bool} {moving : Binding} {existing : Option Binding}

namespace Relocation

/-! ### Stages -/

/-- Takes away what is bound to the target name. -/
def clear (dst : Slot) (collation : Collation) (replaced : Option Binding) : Action Unit :=
  match replaced with
  | some replaced => do
    Action.markDeleted replaced.entry
    Action.unbind dst.directory collation dst.name
  | none => pure ()

/-- What a relocation does to its source. -/
def vacate (op : Relocation) (sameVolume : Bool) (volume : Volume) (src : Slot)
    (moving : Binding) : Action Unit := do
  match op with
  | .copy _ => pure ()
  | .move _ =>
    Action.unbind src.directory volume.collation src.name
    Action.touchModified src.directory ((← get).now volume)
    if !sameVolume then Action.markDeleted moving.entry
  | .link =>
    let file ← (← Action.ask (·.entry moving.entry)).file
    modify (·.modifyInode file.inode Inode.addLink)

/-- Binds the target name. -/
def settle (volume : Volume) (dst : Slot) (kind : Kind) (entry : EntryId) : Action Unit := do
  Action.bind dst.directory volume.collation dst.name kind entry ((← get).now volume)

theorem commit_eq : op.commit sourceVolume targetVolume src dst plan = (do
    let entry ← op.arrival (src.volume = dst.volume) targetVolume plan.source.entry
    clear dst targetVolume.collation plan.replaced
    op.vacate (src.volume = dst.volume) sourceVolume src plan.source
    settle targetVolume dst plan.source.kind entry) := by
  unfold Relocation.commit clear vacate settle
  dsimp only
  congr 1
  funext entry
  cases plan.replaced <;> cases op <;> cases decide (src.volume = dst.volume) <;>
    simp only [bind_assoc, pure_bind, Bool.not_true, Bool.not_false, Bool.false_eq_true, if_false,
      if_true]

/-! ### Arrivals -/

theorem duplicateNode_supplies {entry : EntryId} {node : Node} (hn : world.namespace.Sound)
    (hnode : world.namespace.node? entry = some node) :
    Supplies (Action.duplicateNode node) world node.kind none := by
  unfold Action.duplicateNode
  cases node with
  | directory names => exact supplies_pure (.directory {}) rfl nofun
  | symlink target => exact supplies_pure (.symlink target) trivial nofun
  | file file =>
      obtain ⟨inode, hinode⟩ := World.inode_of_lt (hn.backed hnode)
      unfold Supplies
      dsimp only
      rw [bind_ask_ok hinode]
      exact supplies_inode _ rfl

theorem duplicate_gains {entry : EntryId} {node : Node} (hn : world.namespace.Sound)
    (hnode : world.namespace.node? entry = some node) (volume : Volume) (keepAttributes : Bool) :
    ∃ new after, Action.duplicate volume entry keepAttributes world = (.ok new, after) ∧
      world.namespace.Gains new node.kind after.namespace ∧
      ∀ id, world.Booked → after.Booked (some ⟨id, new⟩) := by
  obtain ⟨found, hfound, rfl⟩ := World.entry_of_node? hnode
  obtain ⟨node, middle, hrun, hsupply⟩ := duplicateNode_supplies hn hnode
  unfold Action.duplicate
  rw [bind_ask_ok hfound, bind_ok hrun, bind_ok (get_apply _), add_apply]
  have hmade : ∀ times owner, ∃ new after,
      (Except.ok (ε := Failure) (middle.addEntry ⟨times, owner, node⟩).1,
        (middle.addEntry ⟨times, owner, node⟩).2) = (.ok new, after) ∧
      world.namespace.Gains new found.node.kind after.namespace ∧
      ∀ id, world.Booked → after.Booked (some ⟨id, new⟩) :=
    fun times owner => ⟨_, _, rfl, (hsupply.gains hn times owner).2, fun id hb =>
      hsupply.booked hn hb nofun times owner⟩
  cases keepAttributes with
  | true => exact hmade found.times found.owner
  | false => exact hmade (.at (middle.now volume)) (volume.ownership {} found.kind)

/-- The relocation binds its target name to an entry that was not there before. -/
def MakesEntry (op : Relocation) (sameVolume : Bool) : Prop :=
  op.isMove = true → sameVolume = false

/-- The inode that a link makes another name of, and that does not count it at once. -/
def owed (op : Relocation) (node : Node) : Option InodeId :=
  match op, node with
  | .link, .file file => some file.inode
  | _, _ => none

theorem arrival_gains {entry : EntryId} {node : Node} (hn : world.namespace.Sound)
    (hnode : world.namespace.node? entry = some node) (hmakes : op.MakesEntry sameVolume)
    (hfile : op = .link → node.kind = .file) (volume : Volume) :
    ∃ new after, op.arrival sameVolume volume entry world = (.ok new, after) ∧
      world.namespace.Gains new node.kind after.namespace ∧
      ∀ id, (op = .link → world.namespace.Names id entry) → world.Booked →
        after.Booked (some ⟨id, new⟩) (op.owed node) := by
  unfold Relocation.arrival
  cases op with
  | copy options =>
      obtain ⟨new, after, hrun, hgains, hbooked⟩ :=
        duplicate_gains hn hnode volume options.copyAttributes
      exact ⟨new, after, hrun, hgains, fun id _ => hbooked id⟩
  | move options =>
      rw [hmakes rfl]
      obtain ⟨new, after, hrun, hgains, hbooked⟩ := duplicate_gains hn hnode volume true
      exact ⟨new, after, hrun, hgains, fun id _ => hbooked id⟩
  | link =>
      cases node with
      | directory names => cases hfile rfl
      | symlink target => cases hfile rfl
      | file file =>
          obtain ⟨found, hfound, hkind⟩ := World.entry_of_node? hnode
          obtain ⟨node, middle, hrun, hsupply⟩ := supplies_shared (hn.backed hnode)
          cases hrun
          dsimp only
          rw [bind_ask_ok hfound, bind_lift_ok (Entry.file_eq_ok.2 hkind), bind_ok (get_apply _), add_apply]
          refine ⟨_, _, rfl, (hsupply.gains hn (.at (world.now volume)) found.owner).2, ?_⟩
          intro id hnames hb
          refine hsupply.booked hn hb ?_ (.at (world.now volume)) found.owner
          rintro inode hinode
          rw [← Option.some.inj hinode]
          exact ⟨entry, hn.live_of_names (hnames rfl) hnode, hnames rfl⟩

/-! ### Targets cleared -/

/-- From one namespace to another in which a name of a directory is free, because what was bound
to it is gone. -/
structure Clears (n : Namespace) (directory : EntryId) (collation : Collation) (name : String)
    (replaced : Option Binding) (n' : Namespace) : Prop where
  evolves : n.Evolves (fun entry => ∃ binding, replaced = some binding ∧ entry = binding.entry) n'
  binds : ∀ {parent other}, n'.Binds parent other ↔
    n.Binds parent other ∧ ∀ binding, replaced = some binding → other.entry ≠ binding.entry
  free : ∃ names, n'.node? directory = some (.directory names) ∧
    names.find? collation name = none
  kept : ∀ {entry}, entry ≠ directory →
    (∀ binding, replaced = some binding → entry ≠ binding.entry) →
    n'.node? entry = n.node? entry
  retired : ∀ binding, replaced = some binding →
    n'.node? binding.entry = (n.retire binding.entry).node? binding.entry
  ground : n'.ground? = n.ground?
  leases : n'.leases = n.leases

/-- An entry on which nothing depends leaves its name free. -/
theorem Clears.of_removed {n : Namespace} {directory : EntryId} {collation : Collation}
    {name : String} {names : Directory} {binding : Binding} {node : Node} (hn : n.Sound)
    (hnode : n.node? directory = some (.directory names))
    (hfind : names.find? collation name = some binding)
    (hentry : n.node? binding.entry = some node) (hidle : node.IsIdle) :
    Clears n directory collation name (some binding)
      ((n.setNode directory (.directory (names.erase collation name))).retire binding.entry) := by
  have hne : directory ≠ binding.entry := by
    rintro rfl
    exact Namespace.not_binds_of_idle hentry hidle ⟨names, hnode, Directory.find?_mem hfind⟩
  constructor
  case evolves =>
    exact (hn.remove hnode hfind hentry hidle).weaken fun entry h => ⟨binding, rfl, h⟩
  case binds =>
    intro parent other
    rw [Namespace.binds_retire, Namespace.binds_detach hn.toWellFormed hnode hfind]
    simp
  case free =>
    refine ⟨names.erase collation name, ?_, Directory.find?_erase⟩
    rw [Namespace.node?_retire_of_ne hne, Namespace.node?_setNode_self]
  case kept =>
    intro entry hdirectory hreplaced
    rw [Namespace.node?_retire_of_ne (hreplaced binding rfl),
      Namespace.node?_setNode_of_ne hdirectory]
  case retired =>
    rintro _ ⟨⟩
    rw [← Namespace.retire_setNode hne, Namespace.node?_setNode_of_ne hne.symm]
  case ground => rw [Namespace.ground?_retire, Namespace.ground?_setNode]
  case leases => rw [Namespace.leases_retire, Namespace.leases_setNode]

theorem clear_clears {collation : Collation} {names : Directory} (hn : world.namespace.Sound)
    (hnode : world.namespace.node? dst.directory = some (.directory names))
    (hfind : names.find? collation dst.name = existing)
    (hidle : ∀ binding, existing = some binding →
      ∃ node, world.namespace.node? binding.entry = some node ∧ node.IsIdle) :
    ∃ after, clear dst collation existing world = (.ok (), after) ∧
      Clears world.namespace dst.directory collation dst.name existing after.namespace ∧
      ∀ coming owed, (owed = none ∨ existing = none) → world.Booked coming owed →
        after.Booked coming owed := by
  cases existing with
  | none =>
      refine ⟨world, rfl, ⟨hn.grows.weaken nofun, ?_, ⟨names, hnode, hfind⟩, fun _ _ => rfl, nofun,
        rfl, rfl⟩, fun _ _ _ hb => hb⟩
      exact ⟨fun h => ⟨h, nofun⟩, And.left⟩
  | some binding =>
      obtain ⟨node, hentry, hnode'⟩ := hidle binding rfl
      obtain ⟨middle, after, hmark, hunbind, hafter, _, _, hbooked⟩ :=
        mark_unbind hn hnode hfind hentry hnode'
      have hclear : clear dst collation (some binding) world = (.ok (), after) := by
        unfold clear
        dsimp only
        rw [bind_ok hmark, hunbind]
      refine ⟨after, hclear, hafter ▸ Clears.of_removed hn hnode hfind hentry hnode', ?_⟩
      rintro coming owed (rfl | hnone) hb
      · exact hbooked coming hb
      · cases hnone

theorem Clears.loose {n n' : Namespace} {directory entry : EntryId} {collation : Collation}
    {name : String} {replaced : Option Binding} {kind : Kind}
    (h : Clears n directory collation name replaced n') (hloose : n.Loose entry kind)
    (hdirectory : entry ≠ directory)
    (hreplaced : ∀ binding, replaced = some binding → n.Bound binding.entry) :
    n'.Loose entry kind := by
  have hne : ∀ binding, replaced = some binding → entry ≠ binding.entry := by
    rintro binding hbinding rfl
    exact hloose.unbound (hreplaced binding hbinding)
  constructor
  case unbound =>
    rintro ⟨parent, other, hother, hentry⟩
    exact hloose.unbound ⟨parent, other, (h.binds.1 hother).1, hentry⟩
  case rootless =>
    intro id ordinal hroot
    unfold Namespace.IsRoot at hroot
    rw [h.ground] at hroot
    exact hloose.rootless hroot
  case node =>
    rw [h.kept hdirectory hne]
    exact hloose.node
  case live =>
    intro file hfile
    rw [h.kept hdirectory hne] at hfile
    exact hloose.live hfile

/-! ### Targets bound -/

/-- The target name is free, and the entry can be bound to it. -/
structure Vacant (n : Namespace) (targetVolume : Volume) (dst : Slot) (kind : Kind)
    (entry : EntryId) : Prop where
  ground : n.ground? dst.volume = some targetVolume.ground
  inTree : n.InTree dst.volume dst.directory
  free : ∃ names, n.node? dst.directory = some (.directory names) ∧
    names.find? targetVolume.collation dst.name = none
  loose : n.Loose entry kind

theorem settle_vacant {entry : EntryId} {kind : Kind} (hn : world.namespace.Sound)
    (h : Vacant world.namespace targetVolume dst kind entry) :
    ∃ after, settle targetVolume dst kind entry world = (.ok (), after) ∧
      world.namespace.Grows after.namespace ∧
      after.namespace.leases = world.namespace.leases ∧
      ∀ owed, world.Booked (some ⟨dst.volume, entry⟩) owed → after.Booked none owed := by
  obtain ⟨names, hnode, hfree⟩ := h.free
  obtain ⟨after, names', hrun, _, hafter, hgrows, _, hbooked⟩ :=
    bind_loose (world.now targetVolume) hn h.ground h.inTree hnode hfree h.loose
  refine ⟨after, hrun, hgrows, ?_, hbooked⟩
  rw [hafter, Namespace.leases_setNode]

/-! ### Plans that make an entry -/

/-- The new entry and its place are there, and the source is as the relocation needs it. -/
structure Ready (op : Relocation) (n : Namespace) (sourceVolume targetVolume : Volume)
    (src dst : Slot) (moving : Binding) (node : Node) (entry : EntryId) : Prop
    extends Vacant n targetVolume dst moving.kind entry where
  linkable : op = .link → node.kind = .file ∧ n.node? moving.entry = some node
  source_names : op.isMove = true → ∃ names, n.node? src.directory = some (.directory names) ∧
    names.find? sourceVolume.collation src.name = some moving
  movable : op.isMove = true → n.node? moving.entry = some node ∧ node.IsIdle
  apart : op.isMove = true → entry ≠ src.directory ∧ dst.directory ≠ src.directory ∧
    dst.directory ≠ moving.entry

/-- Making the new entry and freeing its name leave the source as it was. -/
theorem Prepared.ready {n n' n'' : Namespace} {node : Node} {entry : EntryId} (hn : n.Sound)
    (h : op.Prepared n sourceVolume targetVolume src dst moving existing)
    (hnode : n.node? moving.entry = some node)
    (hmakes : op.MakesEntry (src.volume = dst.volume)) (hgains : n.Gains entry moving.kind n')
    (hclears : Clears n' dst.directory targetVolume.collation dst.name existing n'') :
    op.Ready n'' sourceVolume targetVolume src dst moving node entry := by
  obtain ⟨targetNames, hdst, _⟩ := h.target_names
  obtain ⟨targetBindings, hstands, _⟩ := h.target_route
  have hmoving := h.source_binds
  have hnew : ∀ {other node}, n.node? other = some node → entry ≠ other := by
    rintro other node hnode rfl
    rw [hgains.fresh] at hnode
    cases hnode
  have hkept : ∀ {other node}, n.node? other = some node → other ≠ dst.directory →
      (∀ binding, existing = some binding → other ≠ binding.entry) →
      n''.node? other = some node := by
    intro other node hnode hdirectory hreplaced
    rw [hclears.kept hdirectory hreplaced, hgains.kept hnode]
  -- a move that makes an entry goes to another volume, away from all it reads
  have hacross : op.isMove = true → src.volume ≠ dst.volume :=
    fun hmove => of_decide_eq_false (hmakes hmove)
  have hapart : ∀ {other}, op.isMove = true → n.InTree src.volume other →
      other ≠ dst.directory := by
    rintro other hmove htree rfl
    exact hacross hmove (hn.inTree_unique htree hstands.inTree)
  constructor
  case toVacant =>
    constructor
    case ground => rw [hclears.ground, hgains.ground, h.target_ground]
    case inTree =>
      have hgained := (hgains.grows.inTree hstands.inTree).resolve_right not_false
      apply (hclears.evolves.inTree hgained).resolve_right
      rintro ⟨binding, hbinding, hsame⟩
      exact h.replaced_ne hbinding (h.target_binds hbinding) hsame
    case free => exact hclears.free
    case loose =>
      exact hclears.loose hgains.loose (hnew hdst) fun binding hbinding =>
        ⟨dst.directory, binding, hgains.binds.2 (h.target_binds hbinding), rfl⟩
  case linkable =>
    intro hop
    obtain ⟨found, hfound, hkind⟩ := hn.bound_kind hmoving
    obtain rfl : node = found := Option.some.inj (hnode.symm.trans hfound)
    have hfile : node.kind = .file := hkind.trans (h.linkable hop).1
    refine ⟨hfile, hkept hnode ?_ fun binding hbinding => (h.other binding hbinding).symm⟩
    intro hsame
    rw [hsame, hdst] at hnode
    rw [← Option.some.inj hnode] at hfile
    cases hfile
  case source_names =>
    intro hop
    obtain ⟨names, hsrc, hfind⟩ := h.source_names
    refine ⟨names, ?_, hfind⟩
    exact hkept hsrc (hapart hop h.source_in) fun binding hbinding =>
      h.replaced_ne hbinding hmoving
  case movable =>
    intro hop
    obtain ⟨found, hfound, hidle⟩ := h.movable hop (hacross hop)
    obtain rfl : node = found := Option.some.inj (hnode.symm.trans hfound)
    refine ⟨?_, hidle⟩
    exact hkept hnode (hapart hop (h.source_in.step hmoving)) fun binding hbinding =>
      (h.other binding hbinding).symm
  case apart =>
    intro hop
    obtain ⟨names, hsrc, _⟩ := h.source_names
    exact ⟨hnew hsrc, (hapart hop h.source_in).symm,
      (hapart hop (h.source_in.step hmoving)).symm⟩

/-- A relocation that makes an entry leaves its source alone or, on a move, takes it out. -/
theorem vacate_ready {node : Node} {entry : EntryId} (hn : world.namespace.Sound)
    (hmakes : op.MakesEntry sameVolume)
    (h : op.Ready world.namespace sourceVolume targetVolume src dst moving node entry) :
    ∃ after, op.vacate sameVolume sourceVolume src moving world = (.ok (), after) ∧
      world.namespace.Evolves (fun entry => op.isMove = true ∧ entry = moving.entry)
        after.namespace ∧
      Vacant after.namespace targetVolume dst moving.kind entry ∧
      after.namespace.leases = world.namespace.leases ∧
      ∀ coming, world.Booked coming (op.owed node) → after.Booked coming := by
  unfold Relocation.vacate
  cases op with
  | copy options => exact ⟨world, rfl, hn.grows.weaken nofun, h.toVacant, rfl, fun _ hb => hb⟩
  | link =>
      obtain ⟨hkind, hnode⟩ := h.linkable rfl
      cases node with
      | directory names => cases hkind
      | symlink target => cases hkind
      | file file =>
          obtain ⟨found, hfound, hkind⟩ := World.entry_of_node? hnode
          dsimp only
          rw [bind_ask_ok hfound, bind_lift_ok (Entry.file_eq_ok.2 hkind), modify_apply]
          refine ⟨_, rfl, ?_⟩
          unfold World.Booked
          rw [World.namespace_modifyInode, World.tally_modifyInode (· + 1) fun _ => rfl]
          exact ⟨hn.grows.weaken nofun, h.toVacant, rfl, fun _ hb => Namespace.Booked.settle hb⟩
  | move options =>
      obtain ⟨names, hnode, hfind⟩ := h.source_names rfl
      obtain ⟨hentry, hidle⟩ := h.movable rfl
      obtain ⟨hnew, hdirectory, hsource⟩ := h.apart rfl
      rw [hmakes rfl]
      have hbinds : world.namespace.Binds src.directory moving :=
        ⟨names, hnode, Directory.find?_mem hfind⟩
      have hne : moving.entry ≠ src.directory := by
        intro h
        rw [← h] at hbinds
        exact Namespace.not_binds_of_idle hentry hidle hbinds
      obtain ⟨second, hunbind, hsecond, htally⟩ :=
        unbind_names sourceVolume.collation src.name hnode
      obtain ⟨third, htouch, hthird, htally'⟩ := touchModified_names second src.directory
        (second.now sourceVolume)
      rw [hsecond] at hthird
      rw [htally] at htally'
      have hentry' : third.namespace.node? moving.entry = some node := by
        rw [hthird, Namespace.node?_setNode_of_ne hne, hentry]
      obtain ⟨after, hmark, hafter, hforgotten⟩ := markDeleted_names hentry' hidle
      have hsame : third.namespace.forget third.tally moving.entry =
          world.namespace.forget world.tally moving.entry := by
        unfold Namespace.forget
        rw [hentry', hentry, htally']
      rw [hthird] at hafter
      have hclears := Clears.of_removed hn hnode hfind hentry hidle
      rw [← hafter] at hclears
      dsimp only
      rw [bind_ok hunbind, bind_ok (get_apply _), bind_ok htouch]
      refine ⟨after, hmark, ?_, ?_, hclears.leases, ?_⟩
      · apply hclears.evolves.weaken
        rintro lost ⟨binding, hbinding, rfl⟩
        exact ⟨rfl, by rw [Option.some.inj hbinding]⟩
      · constructor
        case ground => rw [hclears.ground, h.ground]
        case inTree =>
          apply (hclears.evolves.inTree h.inTree).resolve_right
          rintro ⟨binding, hbinding, hsame⟩
          exact hsource (hsame.trans (by rw [Option.some.inj hbinding]))
        case free =>
          obtain ⟨freed, hfreed, hfree⟩ := h.free
          refine ⟨freed, (hclears.kept hdirectory ?_).trans hfreed, hfree⟩
          rintro binding hbinding
          rw [← Option.some.inj hbinding]
          exact hsource
        case loose =>
          apply hclears.loose h.loose hnew
          rintro binding hbinding
          rw [← Option.some.inj hbinding]
          exact hbinds.bound
      · intro coming hb
        unfold World.Booked
        rw [hafter, hforgotten, hsame]
        exact Namespace.Booked.remove hb hn hnode hfind hentry hidle

/-- Carrying out a plan that makes an entry. -/
theorem commit_makes (hn : world.namespace.Sound)
    (h : op.Prepared world.namespace sourceVolume targetVolume src dst plan.source plan.replaced)
    (hmakes : op.MakesEntry (src.volume = dst.volume)) :
    ∃ after, op.commit sourceVolume targetVolume src dst plan world = (.ok (), after) ∧
      world.Advances (world.namespace.Spent after.namespace) after := by
  obtain ⟨targetNames, hdst, hexisting⟩ := h.target_names
  obtain ⟨node, hnode, hkind⟩ := hn.bound_kind h.source_binds
  obtain ⟨new, first, harrival, hgains, hbooked⟩ := arrival_gains hn hnode hmakes
    (fun hlink => hkind.trans (h.linkable hlink).1) targetVolume
  rw [hkind] at hgains
  obtain ⟨second, hclear, hclears, hbooked'⟩ := clear_clears hgains.grows.sound (hgains.kept hdst)
    hexisting fun binding hbinding => by
      obtain ⟨node, hnode, hidle⟩ := h.replaceable binding hbinding
      exact ⟨node, hgains.kept hnode, hidle⟩
  obtain ⟨third, hvacate, hevolves, hvacant, hleases, hbooked''⟩ :=
    vacate_ready hclears.evolves.sound hmakes (h.ready hn hnode hmakes hgains hclears)
  obtain ⟨after, hsettle, hgrows, hleases', hsettled⟩ := settle_vacant hevolves.sound hvacant
  refine ⟨after, ?_, ?_, fun hb => ?_⟩
  · rw [commit_eq, bind_ok harrival, bind_ok hclear, bind_ok hvacate, hsettle]
  · have hsame : after.namespace.leases = world.namespace.leases := by
      rw [hleases', hleases, hclears.leases, hgains.leases]
    have hfirst := Namespace.Evolves.trans hgains.grows hclears.evolves
    apply ((hfirst.trans hevolves).trans hgrows).weaken
    rintro entry (((hlost | ⟨binding, hbinding, rfl⟩) | ⟨hop, rfl⟩) | hlost)
    · exact absurd hlost not_false
    · obtain ⟨node, hnode, hidle⟩ := h.replaceable binding hbinding
      exact hn.spent_of_idle hnode hidle hsame
    · obtain ⟨node, hnode, hidle⟩ := h.movable hop (of_decide_eq_false (hmakes hop))
      exact hn.spent_of_idle hnode hidle hsame
    · exact absurd hlost not_false
  · refine hsettled none (hbooked'' _ (hbooked' _ _ ?_ (hbooked dst.volume ?_ hb)))
    · -- only a link owes a name, and it replaces nothing
      cases op with
      | link => exact .inr (h.linkable rfl).2.1
      | copy options => exact .inl rfl
      | move options => exact .inl rfl
    · intro hlink
      rw [← (h.linkable hlink).2.2]
      exact ⟨h.source_binds.bound, h.source_in.step h.source_binds⟩

/-! ### Plans that move an entry within its volume -/

theorem vacate_within {options : CopyOptions} {names : Directory} (moving : Binding)
    (hnode : world.namespace.node? src.directory = some (.directory names)) :
    ∃ after, (Relocation.move options).vacate true volume src moving world = (.ok (), after) ∧
      after.namespace = world.namespace.setNode src.directory
        (.directory (names.erase volume.collation src.name)) ∧ after.tally = world.tally := by
  obtain ⟨middle, hunbind, hmiddle, htally⟩ := unbind_names volume.collation src.name hnode
  obtain ⟨after, htouch, hafter, htally'⟩ :=
    touchModified_names middle src.directory (middle.now volume)
  refine ⟨after, ?_, hafter.trans hmiddle, htally'.trans htally⟩
  unfold Relocation.vacate
  dsimp only
  rw [bind_ok hunbind, bind_ok (get_apply _), bind_ok htouch]
  rfl

/-- A name that is free stays free when another one is given up. -/
theorem free_erase {n : Namespace} {directory source : EntryId} {names freed : Directory}
    {collation collation' : Collation} {name name' : String}
    (hsource : n.node? source = some (.directory names))
    (hfreed : n.node? directory = some (.directory freed))
    (hfree : freed.find? collation name = none) :
    ∃ names', (n.setNode source (.directory (names.erase collation' name'))).node? directory =
      some (.directory names') ∧ names'.find? collation name = none := by
  by_cases hsame : directory = source
  · subst hsame
    obtain rfl : names = freed := by simpa [hsource] using hfreed
    refine ⟨_, Namespace.node?_setNode_self, ?_⟩
    rw [Directory.find?_eq_none] at hfree ⊢
    exact fun binding hbinding => hfree binding (Directory.mem_erase.1 hbinding).1
  · exact ⟨freed, (Namespace.node?_setNode_of_ne hsame).trans hfreed, hfree⟩

/-- Freeing the target name leaves the way to it as it was, clear of the source. -/
theorem Prepared.route {n n' : Namespace} (hn : n.Sound)
    (h : op.Prepared n sourceVolume targetVolume src dst moving existing)
    (hclears : Clears n dst.directory targetVolume.collation dst.name existing n')
    (hmove : op.isMove = true) (hvolume : src.volume = dst.volume) :
    ∃ ordinal top bindings, n'.IsRoot src.volume ordinal top ∧
      n'.Leads top bindings dst.directory ∧ ∀ passed ∈ bindings, passed.entry ≠ moving.entry := by
  obtain ⟨targetBindings, hstands, hclear⟩ := h.target_route
  obtain ⟨ordinal, top, bindings, hroot, hleads⟩ : n'.InTree dst.volume dst.directory := by
    apply (hclears.evolves.inTree hstands.inTree).resolve_right
    rintro ⟨binding, hbinding, hsame⟩
    exact h.replaced_ne hbinding (h.target_binds hbinding) hsame
  obtain rfl : targetBindings = bindings := by
    obtain ⟨top', hroot', hleads', _⟩ := hstands
    have hroot'' : n.IsRoot dst.volume ordinal top := by
      unfold Namespace.IsRoot at hroot ⊢
      rwa [← hclears.ground]
    exact (hn.route_unique hroot' hroot'' hleads'
      (hleads.mono fun hbinds => (hclears.binds.1 hbinds).1)).2.2.2
  rw [← hvolume] at hroot
  exact ⟨ordinal, top, targetBindings, hroot, hleads, hclear hmove hvolume⟩

/-- From one namespace to another in which the entry at one slot has gone to the other, in place of
what was bound there. -/
def Shifts (n : Namespace) (volume : Volume) (src dst : Slot) (moving : Binding)
    (existing : Option Binding) (n' : Namespace) : Prop :=
  ∃ cleared names names' bound,
    Clears n dst.directory volume.collation dst.name existing cleared ∧
    cleared.node? src.directory = some (.directory names) ∧
    names.find? volume.collation src.name = some moving ∧
    (cleared.setNode src.directory (.directory (names.erase volume.collation src.name))).node?
      dst.directory = some (.directory names') ∧
    names'.insert volume.collation dst.name moving.kind moving.entry = .ok bound ∧
    n' = (cleared.setNode src.directory (.directory (names.erase volume.collation src.name))).setNode
      dst.directory (.directory bound)

/-- Carrying out a plan that moves an entry within its volume. -/
theorem commit_within (hn : world.namespace.Sound)
    (h : op.Prepared world.namespace sourceVolume targetVolume src dst plan.source plan.replaced)
    (hmove : op.isMove = true) (hvolume : src.volume = dst.volume) :
    ∃ after, op.commit sourceVolume targetVolume src dst plan world = (.ok (), after) ∧
      Shifts world.namespace sourceVolume src dst plan.source plan.replaced after.namespace ∧
      world.Advances (world.namespace.Spent after.namespace) after := by
  obtain rfl := h.same_volume hvolume
  obtain ⟨targetNames, hdst, hexisting⟩ := h.target_names
  obtain ⟨second, hrun, hclears, hbooked⟩ := clear_clears hn hdst hexisting h.replaceable
  have hsecond := hclears.evolves.sound
  obtain ⟨ordinal, top, bindings, hroot, hleads, hroute⟩ := h.route hn hclears hmove hvolume
  -- the source still has its name, now among names that may be fewer
  obtain ⟨names, hsrc, hmem⟩ : second.namespace.Binds src.directory plan.source :=
    hclears.binds.2 ⟨h.source_binds, fun binding hbinding => (h.other binding hbinding).symm⟩
  have hfind : names.find? sourceVolume.collation src.name = some plan.source := by
    obtain ⟨_, _, hold⟩ := h.source_names
    exact (hsecond.ordered hsrc).find?_eq_some hmem (Directory.find?_key hold)
  have hin : second.namespace.InTree src.volume src.directory := by
    apply (hclears.evolves.inTree h.source_in).resolve_right
    rintro ⟨binding, hbinding, hsame⟩
    exact h.replaced_ne hbinding h.source_binds hsame
  obtain ⟨options, rfl⟩ : ∃ options, op = .move options := by
    cases op with
    | move options => exact ⟨options, rfl⟩
    | copy options => cases hmove
    | link => cases hmove
  obtain ⟨third, hvacate, hthird, htally⟩ := vacate_within plan.source hsrc
  obtain ⟨freed, hfreed, hfree⟩ := hclears.free
  obtain ⟨names', hdst', hfree'⟩ := free_erase hsrc hfreed hfree
  obtain ⟨bound, hinsert⟩ : ∃ bound, names'.insert sourceVolume.collation dst.name
      plan.source.kind plan.source.entry = .ok bound :=
    ⟨_, Directory.insert_eq_ok.2 ⟨hfree', rfl⟩⟩
  obtain ⟨after, hsettle, hafter, htally'⟩ :=
    bind_names (third.now sourceVolume) (hthird ▸ hdst') hinsert
  rw [hthird] at hafter
  rw [htally] at htally'
  have hground : second.namespace.ground? src.volume = some sourceVolume.ground := by
    rw [hclears.ground, h.source_ground]
  have hgrows : second.namespace.Grows after.namespace := by
    rw [hafter]
    exact hsecond.transplant hground hsrc hin hfind hroot hleads hroute hdst' hinsert
  refine ⟨after, ?_, ?_, ?_, fun hb => ?_⟩
  · have harrival : (Relocation.move options).arrival (src.volume = dst.volume) sourceVolume
        plan.source.entry world = (.ok plan.source.entry, world) := by
      unfold Relocation.arrival
      rw [decide_eq_true hvolume]
      rfl
    rw [← decide_eq_true hvolume] at hvacate
    rw [commit_eq, bind_ok harrival, bind_ok hrun, bind_ok hvacate]
    exact hsettle
  · exact ⟨_, names, names', bound, hclears, hsrc, hfind, hdst', hinsert, hafter⟩
  · have hsame : after.namespace.leases = world.namespace.leases := by
      rw [hafter, Namespace.leases_setNode, Namespace.leases_setNode, hclears.leases]
    apply (hclears.evolves.trans hgrows).weaken
    rintro entry (⟨binding, hbinding, rfl⟩ | hlost)
    · obtain ⟨node, hnode, hidle⟩ := h.replaceable binding hbinding
      exact hn.spent_of_idle hnode hidle hsame
    · exact absurd hlost not_false
  · unfold World.Booked
    rw [hafter, htally']
    rw [hafter] at hgrows
    exact Namespace.Booked.transplant (hbooked none none (.inl rfl) hb) hsecond hsrc hfind hdst'
      hinsert hgrows

/-! ### Decisions carried out -/

/-- Once everything is decided, nothing can be refused any more. -/
theorem commit_of_decided (hn : world.namespace.Sound)
    (h : op.Decided sourceId source targetId target world sourceVolume targetVolume src dst plan) :
    ∃ after, op.commit sourceVolume targetVolume src dst plan world = (.ok (), after) ∧
      world.Advances (world.namespace.Spent after.namespace) after := by
  have hprepared := h.prepared hn
  by_cases hmakes : op.MakesEntry (src.volume = dst.volume)
  · exact commit_makes hn hprepared hmakes
  · unfold MakesEntry at hmakes
    push Not at hmakes
    obtain ⟨after, hrun, -, hadvances⟩ :=
      commit_within hn hprepared hmakes.1 (by simpa using hmakes.2)
    exact ⟨after, hrun, hadvances⟩

/-- Giving a bound name another spelling binds the same entry again. -/
theorem respell_expands {names : Directory} {bindings : List Binding} (hn : world.namespace.Sound)
    (hground : world.namespace.ground? dst.volume = some targetVolume.ground)
    (hstands : dst.Stands world.namespace bindings)
    (hnode : world.namespace.node? dst.directory = some (.directory names))
    (hfind : names.find? targetVolume.collation dst.name = some moving) :
    ∃ after, respell dst targetVolume.collation moving world = (.ok (), after) ∧
      world.Expands after := by
  obtain ⟨bound, hinsert⟩ : ∃ bound, (names.erase targetVolume.collation dst.name).insert
      targetVolume.collation dst.name moving.kind moving.entry = .ok bound :=
    ⟨_, Directory.insert_eq_ok.2 ⟨Directory.find?_erase, rfl⟩⟩
  obtain ⟨entry, hentry, _⟩ := World.entry_of_node? hnode
  refine ⟨world.modifyEntry dst.directory (·.withDirectory bound), ?_, ?_⟩
  · unfold respell
    rw [bind_ask_ok (World.directory_eq_ok.2 hnode), bind_lift_ok hinsert, modify_apply]
  have hafter : (world.modifyEntry dst.directory (·.withDirectory bound)).namespace =
      (world.namespace.setNode dst.directory (.directory (names.erase targetVolume.collation
        dst.name))).setNode dst.directory (.directory bound) := by
    rw [World.namespace_modifyEntry _ hentry, Namespace.setNode_setNode]
    rfl
  obtain ⟨top, hroot, hleads, _⟩ := hstands
  have hbinds : world.namespace.Binds dst.directory moving :=
    ⟨names, hnode, Directory.find?_mem hfind⟩
  have hgrows := hn.transplant hground hnode ⟨_, top, bindings, hroot, hleads⟩ hfind hroot hleads
    (hn.clear_of_binds hroot hleads hbinds) Namespace.node?_setNode_self hinsert
  refine ⟨hafter ▸ hgrows, fun hb => ?_⟩
  unfold World.Booked
  rw [hafter]
  exact Namespace.Booked.transplant hb hn hnode hfind Namespace.node?_setNode_self hinsert hgrows

/-- Once the decision is there, carrying it out cannot fail. -/
theorem carryOut_of_decision {decision : Decision} (hn : world.namespace.Sound)
    (h : op.decision sourceId source targetId target world = .ok decision) :
    ∃ after, op.carryOut decision world = (.ok (), after) ∧
      world.Advances (world.namespace.Spent after.namespace) after := by
  rcases decision_cases h with
    rfl | ⟨volume, dst, same, rfl, hrespelled⟩ | ⟨_, _, src, dst, plan, rfl, hdecided⟩
  · exact ⟨world, rfl, (World.Advances.refl hn).weaken nofun⟩
  · have hvolume := hrespelled.target_volume
    obtain ⟨names, hnames, hfind⟩ := hrespelled.target_names
    obtain ⟨rfl, bindings, hstands⟩ := World.slot_stands hvolume hrespelled.target_slot
    obtain ⟨after, hrun, hexpands⟩ := respell_expands hn (World.ground?_of_volume hvolume)
      hstands (World.directory_eq_ok.1 hnames) hfind
    exact ⟨after, hrun, hexpands.weaken nofun⟩
  · exact commit_of_decided hn hdecided

theorem run_transacts (hn : world.namespace.Sound) (op : Relocation) (sourceId : VolumeId)
    (source : Path) (targetId : VolumeId) (target : Path) :
    Transacts (op.run sourceId source targetId target) world fun _ after =>
      world.Advances (world.namespace.Spent after.namespace) after := by
  rw [run_eq]
  refine transacts_ask_bind fun decision hdecision => ?_
  obtain ⟨after, hrun, hadvances⟩ := carryOut_of_decision hn hdecision
  exact .of_ok hrun hadvances

/-! ### What relocations leave alone -/

section Keeps

variable {δ : Type} {view : World → δ} [Aloof view]

theorem duplicate_keeps (volume : Volume) (source : EntryId) (keepAttributes : Bool) :
    Keeps view (Action.duplicate volume source keepAttributes) := by
  refine (keeps_ask _).bind fun entry => .bind ?_ fun node => keeps_get.bind fun _ =>
    keeps_add fun _ => Aloof.new_entry
  unfold Action.duplicateNode
  split
  · exact keeps_pure _
  · exact keeps_pure _
  · exact (keeps_ask _).bind fun _ => .bind (keeps_add fun _ => Aloof.new_inode rfl) fun _ =>
      keeps_pure _

theorem arrival_keeps (op : Relocation) (sameVolume : Bool) (volume : Volume) (source : EntryId) :
    Keeps view (op.arrival sameVolume volume source) := by
  unfold Relocation.arrival
  cases op with
  | copy options => exact duplicate_keeps _ _ _
  | move options => exact .ite (keeps_pure _) (duplicate_keeps _ _ _)
  | link =>
      exact (keeps_ask _).bind fun _ => (keeps_lift _).bind fun _ => keeps_get.bind fun _ =>
        keeps_add fun _ => Aloof.new_entry

theorem clear_keeps (dst : Slot) (collation : Collation) (replaced : Option Binding) :
    Keeps view (clear dst collation replaced) := by
  cases replaced with
  | none => exact keeps_pure _
  | some binding => exact (markDeleted_keeps _).bind fun _ => unbind_keeps _ _ _

theorem vacate_keeps (op : Relocation) (sameVolume : Bool) (volume : Volume) (src : Slot)
    (moving : Binding) : Keeps view (op.vacate sameVolume volume src moving) := by
  unfold Relocation.vacate
  cases op with
  | copy options => exact keeps_pure _
  | move options =>
      exact (unbind_keeps _ _ _).bind fun _ => keeps_get.bind fun _ =>
        (touchModified_keeps _ _).bind fun _ => .ite (markDeleted_keeps _) (keeps_pure _)
  | link =>
      exact (keeps_ask _).bind fun _ => (keeps_lift _).bind fun _ =>
        keeps_modify fun _ => Aloof.inodes fun _ => rfl

/-- A relocation opens and closes nothing. -/
theorem run_keeps (op : Relocation) (sourceId : VolumeId) (source : Path) (targetId : VolumeId)
    (target : Path) : Keeps view (op.run sourceId source targetId target) := by
  rw [run_eq]
  refine (keeps_ask _).bind fun decision => ?_
  cases decision with
  | keep => exact keeps_pure _
  | respell slot volume binding =>
      exact (keeps_ask _).bind fun _ => (keeps_lift _).bind fun _ =>
        keeps_modify fun _ => Aloof.entries
  | commit sourceVolume targetVolume src dst plan =>
      unfold carryOut
      dsimp only
      rw [commit_eq]
      exact (arrival_keeps _ _ _ _).bind fun _ => (clear_keeps _ _ _).bind fun _ =>
        (vacate_keeps _ _ _ _ _).bind fun _ => keeps_get.bind fun _ => bind_keeps _ _ _ _ _ _

end Keeps

end Relocation

namespace VolumeId

theorem copy_transacts (hn : world.namespace.Sound) (id : VolumeId) (source : String)
    (targetId : VolumeId) (target : String) (options : CopyOptions) :
    Transacts (id.copy source targetId target options) world fun _ after =>
      world.Advances (world.namespace.Spent after.namespace) after :=
  transacts_ask_bind fun _ _ => transacts_lift_bind fun _ _ => transacts_ask_bind fun _ _ =>
    transacts_lift_bind fun _ _ => Relocation.run_transacts hn ..

theorem move_transacts (hn : world.namespace.Sound) (id : VolumeId) (source : String)
    (targetId : VolumeId) (target : String) (options : CopyOptions) :
    Transacts (id.move source targetId target options) world fun _ after =>
      world.Advances (world.namespace.Spent after.namespace) after :=
  transacts_ask_bind fun _ _ => transacts_lift_bind fun _ _ => transacts_ask_bind fun _ _ =>
    transacts_lift_bind fun _ _ => Relocation.run_transacts hn ..

theorem createHardLink_transacts (hn : world.namespace.Sound) (id : VolumeId)
    (link existing : String) :
    Transacts (id.createHardLink link existing) world fun _ after =>
      world.Advances (world.namespace.Spent after.namespace) after :=
  transacts_ask_bind fun _ _ => transacts_lift_bind fun _ _ => transacts_lift_bind fun _ _ =>
    Relocation.run_transacts hn ..

end VolumeId

end RamFs
