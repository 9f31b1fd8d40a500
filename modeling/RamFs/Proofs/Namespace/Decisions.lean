import RamFs.Relocation
import RamFs.Proofs.Namespace.Steps

/-!
What a relocation finds out before it changes anything: the two slots with the routes to their
directories, what is bound in them, and every check. `decision` puts all these questions in front
of what is done with the answers; `Prepared` is what the answers say about the namespace. The
check that a move does not go below its own source compares spellings; here it is shown to keep
the source off the way to the target.
-/

namespace RamFs

open RamFs.Action

variable {world : World} {id : VolumeId} {volume : Volume} {path : Path} {slot : Slot}
  {collation : Collation}

/-- The directory of the slot stands at the end of the slot's route, whose names its parent path
spells. -/
structure Slot.Stays (slot : Slot) (n : Namespace) (top : EntryId) (bindings : List Binding) :
    Prop where
  root : n.IsRoot slot.volume slot.parent.root top
  leads : n.Leads top bindings slot.directory
  elements : slot.parent.elements = bindings.map Binding.name
  route : slot.route = top :: bindings.map Binding.entry

theorem Slot.Stays.inTree {n : Namespace} {top : EntryId} {bindings : List Binding}
    (h : slot.Stays n top bindings) : n.InTree slot.volume slot.directory :=
  ⟨_, top, bindings, h.root, h.leads⟩

theorem World.slot_stays (hvolume : world.volume id = .ok volume)
    (h : world.slot id volume path = .ok slot) :
    slot.volume = id ∧ ∃ top bindings, slot.Stays world.namespace top bindings := by
  obtain ⟨_, _, found, _, _, _, hfound, _, rfl⟩ := World.slot_found h
  obtain ⟨top, bindings, hroot, hleads, hroute, helements⟩ :=
    World.walk_entry_arrives (World.ground?_of_volume hvolume) hfound
  exact ⟨rfl, top, bindings, hroot, hleads, by simpa using helements, hroute⟩

theorem World.slot_directory (h : world.slot id volume path = .ok slot) :
    ∃ names, world.directory slot.directory = .ok names := by
  obtain ⟨_, _, _, names, _, _, _, hnames, rfl⟩ := World.slot_found h
  exact ⟨names, hnames⟩

/-- The directory of the slot stands at the end of the route that the slot's parent path
spells. -/
def Slot.Stands (slot : Slot) (n : Namespace) (bindings : List Binding) : Prop :=
  ∃ top, n.IsRoot slot.volume slot.parent.root top ∧ n.Leads top bindings slot.directory ∧
    slot.parent.elements = bindings.map Binding.name

theorem Slot.Stands.inTree {n : Namespace} {bindings : List Binding}
    (h : slot.Stands n bindings) : n.InTree slot.volume slot.directory := by
  obtain ⟨top, hroot, hleads, _⟩ := h
  exact ⟨_, top, bindings, hroot, hleads⟩

theorem World.slot_stands (hvolume : world.volume id = .ok volume)
    (h : world.slot id volume path = .ok slot) :
    slot.volume = id ∧ ∃ bindings, slot.Stands world.namespace bindings := by
  obtain ⟨hid, top, bindings, hstays⟩ := World.slot_stays hvolume h
  exact ⟨hid, bindings, top, hstays.root, hstays.leads, hstays.elements⟩

/-! ### A move below its own source -/

theorem Collation.keys_prefix_iff (names names' : List String) :
    names'.length ≤ names.length ∧
      (names.zip names').all (fun (a, b) => collation.sameName a b) = true ↔
    names'.map collation.key <+: names.map collation.key := by
  induction names' generalizing names with
  | nil => simp
  | cons name' names' ih =>
      cases names with
      | nil => simp
      | cons name names =>
          rw [List.zip_cons_cons, List.all_cons, Bool.and_eq_true, List.map_cons, List.map_cons,
            List.cons_prefix_cons, ← ih names, List.length_cons, List.length_cons,
            Nat.add_le_add_iff_right, Collation.sameName_iff, eq_comm]
          exact and_left_comm

/-- A path begins with another when its keys begin with those of the other. -/
theorem Path.startsWith_iff {other : Path} :
    path.startsWith collation other = true ↔ path.root = other.root ∧
      other.elements.map collation.key <+: path.elements.map collation.key := by
  unfold Path.startsWith
  rw [Bool.and_eq_true, Bool.and_eq_true, beq_iff_eq, decide_eq_true_iff, and_assoc,
    Collation.keys_prefix_iff]

/-- When the directory of the target does not lie below the source in spelling, the route to it
does not pass the source. -/
theorem Slot.clear_of_not_startsWith {src dst : Slot} {names : Directory} {moving : Binding}
    {srcBindings dstBindings : List Binding} {ground : Ground} (hn : world.namespace.Sound)
    (hground : world.namespace.ground? src.volume = some ground)
    (hsrc : src.Stands world.namespace srcBindings) (hdst : dst.Stands world.namespace dstBindings)
    (hnames : world.namespace.node? src.directory = some (.directory names))
    (hfind : names.find? ground.collation src.name = some moving)
    (houtside : dst.parent.startsWith ground.collation src.path = false) :
    ∀ passed ∈ dstBindings, passed.entry ≠ moving.entry := by
  intro passed hpassed hentry
  have hmoving : world.namespace.Binds src.directory moving :=
    ⟨names, hnames, Directory.find?_mem hfind⟩
  obtain ⟨top, hroot, hleads, helements⟩ := hsrc
  obtain ⟨top', hroot', hleads', helements'⟩ := hdst
  obtain ⟨before, after, rfl, hbefore⟩ := hleads'.prefix_of_mem hpassed
  -- there is only one route to the source, so the target's begins with it
  obtain ⟨_, hordinal, rfl, hsame⟩ := hn.route_unique hroot hroot' (hleads.step hmoving)
    (hentry ▸ hbefore)
  obtain ⟨rfl, hlast⟩ := List.append_inj' hsame rfl
  obtain rfl : moving = passed := by simpa using hlast
  have hkey : ground.collation.key moving.name = ground.collation.key src.name := by
    obtain ⟨id', ground', hid', htree, hkey⟩ := hn.keyed hmoving
    obtain rfl := hn.inTree_unique htree ⟨_, top, _, hroot, hleads⟩
    obtain rfl : ground = ground' := Option.some.inj (hground.symm.trans hid')
    rw [← hkey, Directory.find?_key hfind]
  rw [List.map_append, List.map_cons] at helements'
  have hsource : src.path.elements = srcBindings.map Binding.name ++ [src.name] :=
    congrArg (· ++ [src.name]) helements
  have hstarts : dst.parent.startsWith ground.collation src.path = true := by
    refine Path.startsWith_iff.2
      ⟨hordinal.symm, after.map (ground.collation.key ∘ Binding.name), ?_⟩
    rw [hsource, helements']
    simp [hkey]
  rw [hstarts] at houtside
  cases houtside

namespace Relocation

variable {op : Relocation} {sourceId targetId : VolumeId} {source target : Path}
  {sourceVolume targetVolume : Volume} {src dst : Slot} {plan : Relocation.Plan}
  {sameVolume : Bool} {holds : Holds} {moving : Binding} {existing : Option Binding}

/-! ### Decisions -/

/-- What a relocation does once every question is answered. -/
inductive Decision where
  /-- Both names belong to one entry and nothing is to be done. -/
  | keep
  | respell (slot : Slot) (volume : Volume) (binding : Binding)
  | commit (sourceVolume targetVolume : Volume) (src dst : Slot) (plan : Plan)

/-- The questions that a relocation asks, in their order. -/
def decision (op : Relocation) (sourceId : VolumeId) (source : Path) (targetId : VolumeId)
    (target : Path) (world : World) : Except Failure Decision := do
  let sameVolume : Bool := sourceId = targetId
  if op = .link && !sameVolume then throw .crossDevice
  let sourceVolume ← world.volume sourceId
  let targetVolume ← world.volume targetId
  let src ← world.slot sourceId sourceVolume source
  let dst ← world.slot targetId targetVolume target
  if sameVolume && op.isMove && dst.parent.startsWith sourceVolume.collation src.path then
    throw .invalidArgument
  let holds ← Slot.holdBoth sourceVolume.collation src dst
  let sourceNames ← world.directory src.directory
  let targetNames ← world.directory dst.directory
  let some moving := sourceNames.find? sourceVolume.collation src.name | throw .notFound
  let existing := targetNames.find? targetVolume.collation dst.name
  match existing.filter (·.entry = moving.entry) with
  | some same =>
    if op.isMove && same.name ≠ dst.name then return .respell dst targetVolume same
    else return .keep
  | none =>
    let plan ← op.plan sameVolume holds moving existing world
    return .commit sourceVolume targetVolume src dst plan

/-- What a relocation does with a decision. -/
def carryOut (op : Relocation) : Decision → Action Unit
  | .keep => pure ()
  | .respell slot volume binding => Relocation.respell slot volume.collation binding
  | .commit sourceVolume targetVolume src dst plan =>
    op.commit sourceVolume targetVolume src dst plan

theorem run_eq (op : Relocation) (sourceId : VolumeId) (source : Path) (targetId : VolumeId)
    (target : Path) : op.run sourceId source targetId target =
      Action.ask (op.decision sourceId source targetId target) >>= op.carryOut := by
  unfold Relocation.run decision
  dsimp only
  split
  · rfl
  rw [ask_bind_bind]
  refine congrArg _ (funext fun sourceVolume => ?_)
  rw [ask_bind_bind]
  refine congrArg _ (funext fun targetVolume => ?_)
  rw [ask_bind_bind]
  refine congrArg _ (funext fun src => ?_)
  rw [ask_bind_bind]
  refine congrArg _ (funext fun dst => ?_)
  split
  · rfl
  rw [ask_bind_bind, ask_const]
  refine congrArg _ (funext fun holds => ?_)
  rw [ask_bind_bind]
  refine congrArg _ (funext fun sourceNames => ?_)
  rw [ask_bind_bind]
  refine congrArg _ (funext fun targetNames => ?_)
  cases sourceNames.find? sourceVolume.collation src.name with
  | none => rfl
  | some moving =>
      dsimp only
      cases (targetNames.find? targetVolume.collation dst.name).filter (·.entry = moving.entry) with
      | none =>
          dsimp only
          rw [ask_bind_bind]
          rfl
      | some same =>
          dsimp only
          split <;> rfl

/-- The source may be used as the relocation uses it, and what is bound to the target name may
go. -/
structure Permitted (op : Relocation) (sameVolume : Bool) (world : World) (moving : Binding)
    (existing : Option Binding) : Prop where
  linkable : op = .link → moving.kind = .file ∧ existing = none
  replaceable : ∀ binding, existing = some binding →
    ∃ found, world.entry binding.entry = .ok found ∧ found.checkRemovable = .ok ()
  movable : op.isMove = true → sameVolume = false →
    ∃ found, world.entry moving.entry = .ok found ∧ found.checkRemovable = .ok ()

theorem plan_eq_ok (h : op.plan sameVolume holds moving existing world = .ok plan) :
    plan = ⟨moving, existing⟩ ∧ op.Permitted sameVolume world moving existing := by
  unfold Relocation.plan at h
  dsimp only at h
  by_cases hlink : op = link
  · subst hlink
    rw [if_pos rfl] at h
    cases hkind : moving.kind with
    | directory =>
        rw [hkind] at h
        cases h
    | symlink =>
        rw [hkind] at h
        cases h
    | file =>
        rw [hkind] at h
        cases existing with
        | some binding => cases h
        | none =>
            obtain ⟨_, _, h⟩ := exists_of_bind_ok h
            obtain ⟨_, _, h⟩ := exists_of_bind_ok h
            cases h
            exact ⟨rfl, fun _ => ⟨hkind, rfl⟩, nofun, nofun⟩
  · rw [if_neg hlink] at h
    -- the last checks are the same whether or not something is replaced
    have hfinish : ∀ {holds : Holds}, (do
        let _ ← holds.acquire moving.entry (if op.isMove = true then Access.write else Access.read)
        if (op.isMove && !sameVolume) = true then do
          (← world.entry moving.entry).checkRemovable
          pure (Plan.mk moving existing)
        else pure (Plan.mk moving existing)) = Except.ok plan →
          plan = ⟨moving, existing⟩ ∧ (op.isMove = true → sameVolume = false →
            ∃ found, world.entry moving.entry = .ok found ∧ found.checkRemovable = .ok ()) := by
      intro holds h
      obtain ⟨_, _, h⟩ := exists_of_bind_ok h
      split at h
      case isTrue =>
        obtain ⟨found, hfound, h⟩ := exists_of_bind_ok h
        obtain ⟨_, hcheck, h⟩ := exists_of_bind_ok h
        cases h
        exact ⟨rfl, fun _ _ => ⟨found, hfound, hcheck⟩⟩
      case isFalse hsame =>
        cases h
        refine ⟨rfl, fun hmove hother => absurd ?_ hsame⟩
        rw [hmove, hother]
        rfl
    cases existing with
    | none =>
        obtain ⟨_, _, h⟩ := exists_of_bind_ok h
        obtain ⟨hplan, hmovable⟩ := hfinish h
        exact ⟨hplan, fun h => absurd h hlink, nofun, hmovable⟩
    | some binding =>
        dsimp only at h
        split at h
        · cases h
        split at h
        · cases h
        obtain ⟨_, _, h⟩ := exists_of_bind_ok h
        obtain ⟨found, hfound, h⟩ := exists_of_bind_ok h
        obtain ⟨_, hcheck, h⟩ := exists_of_bind_ok h
        obtain ⟨_, _, h⟩ := exists_of_bind_ok h
        obtain ⟨hplan, hmovable⟩ := hfinish h
        refine ⟨hplan, fun h => absurd h hlink, ?_, hmovable⟩
        intro replaced hreplaced
        obtain rfl : binding = replaced := Option.some.inj hreplaced
        exact ⟨found, hfound, hcheck⟩

/-- All that a relocation between different entries has found out when it begins to change the
world. -/
structure Decided (op : Relocation) (sourceId : VolumeId) (source : Path) (targetId : VolumeId)
    (target : Path) (world : World) (sourceVolume targetVolume : Volume) (src dst : Slot)
    (plan : Plan) : Prop where
  same_device : (op = .link && !decide (sourceId = targetId)) = false
  source_volume : world.volume sourceId = .ok sourceVolume
  target_volume : world.volume targetId = .ok targetVolume
  source_slot : world.slot sourceId sourceVolume source = .ok src
  target_slot : world.slot targetId targetVolume target = .ok dst
  not_below : (decide (sourceId = targetId) && op.isMove &&
    dst.parent.startsWith sourceVolume.collation src.path) = false
  planned : ∃ holds sourceNames targetNames moving,
    Slot.holdBoth sourceVolume.collation src dst = .ok holds ∧
    world.directory src.directory = .ok sourceNames ∧
    world.directory dst.directory = .ok targetNames ∧
    sourceNames.find? sourceVolume.collation src.name = some moving ∧
    ((targetNames.find? targetVolume.collation dst.name).filter (·.entry = moving.entry)) = none ∧
    op.plan (sourceId = targetId) holds moving
      (targetNames.find? targetVolume.collation dst.name) world = .ok plan

/-- A decision to give a bound name another spelling. -/
structure Respelled (targetId : VolumeId) (target : Path) (world : World) (volume : Volume)
    (dst : Slot) (same : Binding) : Prop where
  target_volume : world.volume targetId = .ok volume
  target_slot : world.slot targetId volume target = .ok dst
  target_names : ∃ names, world.directory dst.directory = .ok names ∧
    names.find? volume.collation dst.name = some same

/-- The answers to the questions that every relocation asks. -/
structure Asked (op : Relocation) (sourceId : VolumeId) (source : Path) (targetId : VolumeId)
    (target : Path) (world : World) (sourceVolume targetVolume : Volume) (src dst : Slot)
    (holds : Holds) (sourceNames targetNames : Directory) (moving : Binding) : Prop where
  same_device : (op = .link && !decide (sourceId = targetId)) = false
  source_volume : world.volume sourceId = .ok sourceVolume
  target_volume : world.volume targetId = .ok targetVolume
  source_slot : world.slot sourceId sourceVolume source = .ok src
  target_slot : world.slot targetId targetVolume target = .ok dst
  not_below : (decide (sourceId = targetId) && op.isMove &&
    dst.parent.startsWith sourceVolume.collation src.path) = false
  held : Slot.holdBoth sourceVolume.collation src dst = .ok holds
  source_names : world.directory src.directory = .ok sourceNames
  target_names : world.directory dst.directory = .ok targetNames
  source_found : sourceNames.find? sourceVolume.collation src.name = some moving

/-- A decision is what the answers come to. -/
theorem decision_asked {decision : Decision}
    (h : op.decision sourceId source targetId target world = .ok decision) :
    ∃ sourceVolume targetVolume src dst holds sourceNames targetNames moving,
      op.Asked sourceId source targetId target world sourceVolume targetVolume src dst holds
        sourceNames targetNames moving ∧
      (match (targetNames.find? targetVolume.collation dst.name).filter (·.entry = moving.entry) with
        | some same =>
          if op.isMove && same.name ≠ dst.name then .ok (.respell dst targetVolume same)
          else .ok .keep
        | none => do
          let plan ← op.plan (sourceId = targetId) holds moving
            (targetNames.find? targetVolume.collation dst.name) world
          return .commit sourceVolume targetVolume src dst plan) = Except.ok decision := by
  unfold Relocation.decision at h
  dsimp only at h
  split at h
  · cases h
  case isFalse hdevice =>
  obtain ⟨sourceVolume, hsourceVolume, h⟩ := exists_of_bind_ok h
  obtain ⟨targetVolume, htargetVolume, h⟩ := exists_of_bind_ok h
  obtain ⟨src, hsrc, h⟩ := exists_of_bind_ok h
  obtain ⟨dst, hdst, h⟩ := exists_of_bind_ok h
  split at h
  · cases h
  case isFalse hbelow =>
  obtain ⟨holds, hholds, h⟩ := exists_of_bind_ok h
  obtain ⟨sourceNames, hsourceNames, h⟩ := exists_of_bind_ok h
  obtain ⟨targetNames, htargetNames, h⟩ := exists_of_bind_ok h
  cases hmoving : sourceNames.find? sourceVolume.collation src.name with
  | none =>
      rw [hmoving] at h
      cases h
  | some moving =>
      rw [hmoving] at h
      exact ⟨sourceVolume, targetVolume, src, dst, holds, sourceNames, targetNames, moving,
        ⟨by simpa using hdevice, hsourceVolume, htargetVolume, hsrc, hdst, by simpa using hbelow,
          hholds, hsourceNames, htargetNames, hmoving⟩, h⟩

/-- Names of different entries are decided once there is a plan. -/
theorem Asked.decided {sourceNames targetNames : Directory}
    (h : op.Asked sourceId source targetId target world sourceVolume targetVolume src dst holds
      sourceNames targetNames moving)
    (hother : ((targetNames.find? targetVolume.collation dst.name).filter
      (·.entry = moving.entry)) = none)
    (hplan : op.plan (sourceId = targetId) holds moving
      (targetNames.find? targetVolume.collation dst.name) world = .ok plan) :
    op.Decided sourceId source targetId target world sourceVolume targetVolume src dst plan :=
  ⟨h.same_device, h.source_volume, h.target_volume, h.source_slot, h.target_slot, h.not_below,
    holds, sourceNames, targetNames, moving, h.held, h.source_names, h.target_names,
    h.source_found, hother, hplan⟩

theorem decision_cases {decision : Decision}
    (h : op.decision sourceId source targetId target world = .ok decision) :
    decision = .keep ∨
    (∃ volume dst same, decision = .respell dst volume same ∧
      Respelled targetId target world volume dst same) ∨
    ∃ sourceVolume targetVolume src dst plan,
      decision = .commit sourceVolume targetVolume src dst plan ∧
      op.Decided sourceId source targetId target world sourceVolume targetVolume src dst plan := by
  obtain ⟨sourceVolume, targetVolume, src, dst, holds, sourceNames, targetNames, moving, hasked, h⟩ :=
    decision_asked h
  cases hother : (targetNames.find? targetVolume.collation dst.name).filter
      (·.entry = moving.entry) with
  | none =>
      rw [hother] at h
      obtain ⟨plan, hplan, h⟩ := exists_of_bind_ok h
      obtain rfl := Except.ok.inj h
      exact .inr (.inr ⟨_, _, _, _, _, rfl, hasked.decided hother hplan⟩)
  | some same =>
      rw [hother] at h
      dsimp only at h
      obtain ⟨hfind, _⟩ := Option.filter_eq_some_iff.1 hother
      by_cases hspelling : (op.isMove && decide (same.name ≠ dst.name)) = true
      · rw [if_pos hspelling] at h
        obtain rfl := Except.ok.inj h
        exact .inr (.inl ⟨_, _, _, rfl, hasked.target_volume, hasked.target_slot, targetNames,
          hasked.target_names, hfind⟩)
      · rw [if_neg hspelling] at h
        exact .inl (Except.ok.inj h).symm

/-! ### What the answers say -/

/-- What the decisions of a relocation say about the namespace. -/
structure Prepared (op : Relocation) (n : Namespace) (sourceVolume targetVolume : Volume)
    (src dst : Slot) (moving : Binding) (existing : Option Binding) : Prop where
  source_ground : n.ground? src.volume = some sourceVolume.ground
  target_ground : n.ground? dst.volume = some targetVolume.ground
  same_volume : src.volume = dst.volume → sourceVolume = targetVolume
  source_in : n.InTree src.volume src.directory
  source_names : ∃ names, n.node? src.directory = some (.directory names) ∧
    names.find? sourceVolume.collation src.name = some moving
  target_names : ∃ names, n.node? dst.directory = some (.directory names) ∧
    names.find? targetVolume.collation dst.name = existing
  target_route : ∃ bindings, dst.Stands n bindings ∧
    (op.isMove = true → src.volume = dst.volume →
      ∀ passed ∈ bindings, passed.entry ≠ moving.entry)
  other : ∀ binding, existing = some binding → binding.entry ≠ moving.entry
  replaceable : ∀ binding, existing = some binding →
    ∃ node, n.node? binding.entry = some node ∧ node.IsIdle
  movable : op.isMove = true → src.volume ≠ dst.volume →
    ∃ node, n.node? moving.entry = some node ∧ node.IsIdle
  linkable : op = .link → moving.kind = .file ∧ existing = none ∧ src.volume = dst.volume

theorem Decided.prepared (hn : world.namespace.Sound)
    (h : op.Decided sourceId source targetId target world sourceVolume targetVolume src dst plan) :
    op.Prepared world.namespace sourceVolume targetVolume src dst plan.source plan.replaced := by
  obtain ⟨rfl, srcBindings, hsrc⟩ := World.slot_stands h.source_volume h.source_slot
  obtain ⟨rfl, dstBindings, hdst⟩ := World.slot_stands h.target_volume h.target_slot
  obtain ⟨holds, sourceNames, targetNames, moving, _, hsource, htarget, hmoving, hother, hplan⟩ :=
    h.planned
  obtain ⟨rfl, hpermitted⟩ := plan_eq_ok hplan
  have hground := World.ground?_of_volume h.source_volume
  have hnames := World.directory_eq_ok.1 hsource
  have hnames' := World.directory_eq_ok.1 htarget
  have hbinds : world.namespace.Binds src.directory moving :=
    ⟨sourceNames, hnames, Directory.find?_mem hmoving⟩
  constructor
  case source_ground => exact hground
  case target_ground => exact World.ground?_of_volume h.target_volume
  case same_volume =>
    intro hvolume
    have htargetVolume := h.target_volume
    rw [← hvolume, h.source_volume] at htargetVolume
    exact Except.ok.inj htargetVolume
  case source_in => exact hsrc.inTree
  case source_names => exact ⟨sourceNames, hnames, hmoving⟩
  case target_names => exact ⟨targetNames, hnames', rfl⟩
  case target_route =>
    refine ⟨dstBindings, hdst, fun hmove hvolume => ?_⟩
    apply Slot.clear_of_not_startsWith hn hground hsrc hdst hnames hmoving
    have hbelow := h.not_below
    rw [decide_eq_true hvolume, hmove] at hbelow
    exact hbelow
  case other =>
    intro binding hexisting hsame
    change targetNames.find? targetVolume.collation dst.name = some binding at hexisting
    rw [hexisting] at hother
    simp [Option.filter, hsame] at hother
  case replaceable =>
    intro binding hexisting
    obtain ⟨found, hfound, hcheck⟩ := hpermitted.replaceable binding hexisting
    have hbound : world.namespace.Binds dst.directory binding :=
      ⟨targetNames, hnames', Directory.find?_mem hexisting⟩
    exact ⟨_, World.idle_of_checkRemovable hn hbound.bound hfound hcheck⟩
  case movable =>
    intro hmove hvolume
    obtain ⟨found, hfound, hcheck⟩ := hpermitted.movable hmove (decide_eq_false hvolume)
    exact ⟨_, World.idle_of_checkRemovable hn hbinds.bound hfound hcheck⟩
  case linkable =>
    intro hlink
    obtain ⟨hkind, hfree⟩ := hpermitted.linkable hlink
    have hdevice := h.same_device
    rw [decide_eq_true hlink] at hdevice
    exact ⟨hkind, hfree, by simpa using hdevice⟩

theorem Prepared.source_binds {n : Namespace}
    (h : op.Prepared n sourceVolume targetVolume src dst moving existing) :
    n.Binds src.directory moving := by
  obtain ⟨names, hnames, hfind⟩ := h.source_names
  exact ⟨names, hnames, Directory.find?_mem hfind⟩

theorem Prepared.target_binds {n : Namespace} {binding : Binding}
    (h : op.Prepared n sourceVolume targetVolume src dst moving existing)
    (hexisting : existing = some binding) : n.Binds dst.directory binding := by
  obtain ⟨names, hnames, hfind⟩ := h.target_names
  exact ⟨names, hnames, Directory.find?_mem (hfind.trans hexisting)⟩

/-- What is replaced has nothing below it and so is neither of the two directories. -/
theorem Prepared.replaced_ne {n : Namespace} {binding other : Binding} {directory : EntryId}
    (h : op.Prepared n sourceVolume targetVolume src dst moving existing)
    (hexisting : existing = some binding) (hbinds : n.Binds directory other) :
    directory ≠ binding.entry := by
  rintro rfl
  obtain ⟨node, hnode, hidle⟩ := h.replaceable binding hexisting
  exact Namespace.not_binds_of_idle hnode hidle hbinds

end Relocation

end RamFs
