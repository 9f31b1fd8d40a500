import RamFs.Proofs.Namespace.Relocations
import RamFs.Proofs.Standards.Paths

/-!
Copies, moves and links keep a world in compliance with its registry, as long as what they carry
over to another volume conforms there. That depends on the kind of what is bound to the source
path, which only the world knows that the call is made in: contents are carried over with a file
only, and times with a move or a copy that keeps attributes.
-/

namespace RamFs

open RamFs.Action

/-- Whether an entry that the relocation makes for another volume has the times of its source. -/
def Relocation.keepsTimes : Relocation → Bool
  | .copy options => options.copyAttributes
  | .move _ => true
  | .link => false

/-- What conforms in the first volume conforms in the second, as far as the relocation carries it
over: contents with a file, and times where it keeps them. -/
structure Standard.Carries (s : Standard) (op : Relocation) (kind : Kind)
    (source target : Config) : Prop where
  store : kind = .file → ∀ contents, s.store source contents → s.store target contents
  time : op.keepsTimes = true → ∀ time, s.time source time → s.time target time

theorem Standard.Carries.refl (s : Standard) (op : Relocation) (kind : Kind) (config : Config) :
    s.Carries op kind config config :=
  ⟨fun _ _ h => h, fun _ _ h => h⟩

/-- What is bound to the last name of the path. -/
def World.binding (world : World) (id : VolumeId) (text : String) : Except Failure Binding := do
  let volume ← world.volume id
  let path ← volume.parse text
  let slot ← world.slot id volume path
  let names ← world.directory slot.directory
  match names.find? volume.collation slot.name with
  | some binding => return binding
  | none => throw .notFound

variable {s : Standard} {r : Registry} {world : World} {id : VolumeId} {volume : Volume}
  {source : EntryId} {found : Entry}

theorem Complies.slot {path : Path} {slot : Slot} (h : Complies s r world)
    (hvolume : r.Grounds id volume) (hslot : world.slot id volume path = .ok slot) :
    slot.volume = id ∧ r.entry slot.directory = r.volume id := by
  obtain ⟨_, _, _, _, _, _, hvisit, _, rfl⟩ := World.slot_found hslot
  exact ⟨rfl, h.trail hvolume hvisit⟩

/-! ### Duplicates -/

theorem duplicateNode_complies {node : Node} (hnode : r.Holds (r.entry source) node)
    (hstore : node.kind = .file →
      ∀ contents, s.store (r.entry source) contents → s.store r.made contents) :
    Maintains (Complies s r) (Action.duplicateNode node) (r.Holds r.made) := by
  unfold Action.duplicateNode
  cases node with
  | directory names => exact maintains_pure fun _ hmem => nomatch hmem
  | symlink target => exact maintains_pure trivial
  | file file =>
      have hinode : r.inode file.inode = r.entry source := hnode
      refine (inode_complies file.inode).bind fun inode hcontents => ?_
      refine (maintains_add fun _ h => h.addInode ?_).bind fun _ hcopied => maintains_pure hcopied
      exact hstore rfl _ (hinode ▸ hcontents)

theorem duplicate_complies {keepAttributes : Bool} (h : Complies s r world)
    (hfound : world.entry source = .ok found) (hvolume : r.Grounds id volume)
    (hmade : r.made = r.volume id)
    (hstore : found.kind = .file →
      ∀ contents, s.store (r.entry source) contents → s.store r.made contents)
    (htime : keepAttributes = true → ∀ time, s.time (r.entry source) time → s.time r.made time) :
    Complies s r (Action.duplicate volume source keepAttributes world).2 ∧
      ∀ entry, (Action.duplicate volume source keepAttributes world).1 = .ok entry →
        r.entry entry = r.made := by
  have hadmits := h.admits hfound
  unfold Action.duplicate
  rw [bind_ask_ok hfound]
  refine Maintains.bind (duplicateNode_complies hadmits.node hstore) (fun node hnode => ?_) world h
  refine maintains_get_bind fun world => maintains_add fun after h => h.addEntry ?_
  have hnow : s.time r.made (world.now volume) := hmade ▸ hvolume.now s world
  split
  case isTrue hkeep =>
    obtain ⟨hcreated, hmodified, haccessed⟩ := hadmits.times
    exact ⟨⟨htime hkeep _ hcreated, htime hkeep _ hmodified, htime hkeep _ haccessed⟩, hnode⟩
  case isFalse => exact ⟨⟨hnow, hnow, hnow⟩, hnode⟩

namespace Relocation

variable {op : Relocation} {sourceId targetId : VolumeId} {sourcePath targetPath : Path}
  {sourceVolume targetVolume : Volume} {src dst : Slot} {plan : Plan}

theorem arrival_complies {sameVolume : Bool} (h : Complies s r world)
    (hfound : world.entry source = .ok found) (hvolume : r.Grounds id volume)
    (hmade : r.made = r.volume id) (hcarries : s.Carries op found.kind (r.entry source) r.made)
    (hsame : sameVolume = true ∨ op = .link → r.entry source = r.made) :
    Complies s r (op.arrival sameVolume volume source world).2 ∧
      ∀ entry, (op.arrival sameVolume volume source world).1 = .ok entry →
        r.entry entry = r.made := by
  unfold arrival
  cases op with
  | copy options => exact duplicate_complies h hfound hvolume hmade hcarries.store hcarries.time
  | move options =>
      cases sameVolume with
      | true => exact ⟨h, fun _ hentry => Except.ok.inj hentry ▸ hsame (.inl rfl)⟩
      | false =>
          exact duplicate_complies h hfound hvolume hmade hcarries.store fun _ => hcarries.time rfl
  | link =>
      refine Maintains.bind (entry_complies source) (fun entry hentry => ?_) world h
      refine (maintains_lift fun file => hentry.file).bind fun file hfile => ?_
      refine maintains_get_bind fun world => VolumeId.addEntry_complies ?_ ?_
      · exact hfile.trans (hsame (.inr rfl))
      · exact hmade ▸ hvolume.now s world

/-! ### Stages -/

theorem clear_complies {collation : Collation} {replaced : Option Binding} :
    Maintains (Complies s r) (clear dst collation replaced) := by
  unfold clear
  cases replaced with
  | none => exact maintains_pure trivial
  | some binding => exact (markDeleted_complies binding.entry).bind fun _ _ => unbind_complies

theorem vacate_complies {sameVolume : Bool} {moving : Binding}
    (hvolume : r.Grounds src.volume sourceVolume)
    (hsrc : r.entry src.directory = r.volume src.volume) :
    Maintains (Complies s r) (op.vacate sameVolume sourceVolume src moving) := by
  unfold vacate
  cases op with
  | copy options => exact maintains_pure trivial
  | move options =>
      refine unbind_complies.bind fun _ _ => maintains_get_bind fun world => ?_
      have hnow := hvolume.now s world
      refine (touchModified_complies (hsrc.symm ▸ hnow)).bind fun _ _ => ?_
      cases sameVolume with
      | true => exact maintains_pure trivial
      | false => exact markDeleted_complies moving.entry
  | link =>
      refine (entry_complies moving.entry).bind fun entry _ => ?_
      refine (maintains_lift fun _ _ => trivial).bind fun file _ => maintains_modify fun world h => ?_
      exact h.modifyInode fun _ hinode => hinode

theorem commit_complies (h : Complies s r world) (hfound : world.entry plan.source.entry = .ok found)
    (hsource : r.Grounds src.volume sourceVolume) (htarget : r.Grounds dst.volume targetVolume)
    (hmade : r.made = r.volume dst.volume) (hsrc : r.entry src.directory = r.volume src.volume)
    (hdst : r.entry dst.directory = r.volume dst.volume)
    (hmoving : r.entry plan.source.entry = r.volume src.volume)
    (hcarries : s.Carries op found.kind (r.volume src.volume) (r.volume dst.volume))
    (hlink : op = .link → src.volume = dst.volume) :
    Complies s r (op.commit sourceVolume targetVolume src dst plan world).2 := by
  have hsame : decide (src.volume = dst.volume) = true ∨ op = .link →
      r.entry plan.source.entry = r.made := by
    intro hwithin
    have hvolumes : src.volume = dst.volume := hwithin.elim of_decide_eq_true hlink
    rw [hmoving, hmade, hvolumes]
  have harrival := arrival_complies h hfound htarget hmade (by rwa [hmoving, hmade]) hsame
  have hrest : ∀ entry, r.entry entry = r.made → Maintains (Complies s r) (do
      clear dst targetVolume.collation plan.replaced
      op.vacate (src.volume = dst.volume) sourceVolume src plan.source
      settle targetVolume dst plan.source.kind entry) := by
    intro entry hentry
    refine clear_complies.bind fun _ _ => (vacate_complies hsource hsrc).bind fun _ _ => ?_
    unfold settle
    refine maintains_get_bind fun world => bind_complies (hentry.trans (hmade.trans hdst.symm)) ?_
    exact hdst.symm ▸ htarget.now s world
  rw [commit_eq]
  exact (Maintains.bind_at harrival hrest).1

theorem respell_complies {collation : Collation} {slot : Slot} {binding : Binding}
    (hbound : r.entry binding.entry = r.entry slot.directory) :
    Maintains (Complies s r) (respell slot collation binding) := by
  unfold respell
  refine (directory_complies slot.directory).bind fun names hnames => ?_
  have hrespelled : ∀ respelled,
      (names.erase collation slot.name).insert collation slot.name binding.kind binding.entry =
        .ok respelled → r.Holds (r.entry slot.directory) (.directory respelled) := by
    intro respelled hinsert other hmem
    obtain ⟨_, rfl⟩ := Directory.insert_eq_ok.1 hinsert
    rcases Directory.mem_insertOrdered.1 hmem with rfl | hold
    · exact hbound
    · exact hnames other (Directory.mem_erase.1 hold).1
  refine (maintains_lift hrespelled).bind fun respelled hnames => maintains_modify fun world h => ?_
  exact h.modifyEntry fun _ hentry => hentry.withDirectory hnames

/-! ### Decisions -/

theorem Decided.binding {text : String}
    (h : op.Decided sourceId sourcePath targetId targetPath world sourceVolume targetVolume src dst
      plan) (hparse : sourceVolume.parse text = .ok sourcePath) :
    world.binding sourceId text = .ok plan.source := by
  obtain ⟨_, names, _, moving, _, hnames, _, hfind, _, hplan⟩ := h.planned
  obtain ⟨rfl, _⟩ := plan_eq_ok hplan
  unfold World.binding
  rw [h.source_volume, ok_bind, hparse, ok_bind, h.source_slot, ok_bind, hnames, ok_bind, hfind]
  rfl

theorem run_complies (h : Complies s r world) (hn : world.namespace.Sound)
    (hmade : r.made = r.volume targetId)
    (hcarries : ∀ sourceVolume targetVolume src dst plan,
      op.Decided sourceId sourcePath targetId targetPath world sourceVolume targetVolume src dst
        plan → s.Carries op plan.source.kind (r.volume sourceId) (r.volume targetId)) :
    Complies s r (op.run sourceId sourcePath targetId targetPath world).2 := by
  rw [run_eq]
  refine ask_bind_invariant h fun decision hdecision => ?_
  rcases decision_cases hdecision with
    rfl | ⟨volume, dst, same, rfl, hrespelled⟩ | ⟨_, _, src, dst, plan, rfl, hdecided⟩
  · exact h
  · obtain ⟨names, hnames, hfind⟩ := hrespelled.target_names
    have hbound := h.bound hnames same (Directory.find?_mem hfind)
    exact (respell_complies hbound world h).1
  · -- the kind that the binding tells is the kind of the entry that is duplicated
    have hprepared := hdecided.prepared hn
    have hsource := h.grounds hdecided.source_volume
    have htarget := h.grounds hdecided.target_volume
    have hcarries := hcarries _ _ _ _ _ hdecided
    obtain ⟨rfl, hsrc⟩ := h.slot hsource hdecided.source_slot
    obtain ⟨rfl, hdst⟩ := h.slot htarget hdecided.target_slot
    obtain ⟨node, hnode, hsame⟩ := hn.bound_kind hprepared.source_binds
    obtain ⟨found, hfound, rfl⟩ := World.entry_of_node? hnode
    have hkind : found.kind = plan.source.kind := hsame
    obtain ⟨names, hnames, hmem⟩ := hprepared.source_binds
    have hmoving := h.bound (World.directory_eq_ok.2 hnames) _ hmem
    refine commit_complies h hfound hsource htarget hmade hsrc hdst (hmoving.trans hsrc) ?_
      fun hlink => (hprepared.linkable hlink).2.2
    exact hkind ▸ hcarries

end Relocation

namespace VolumeId

/-- A copy or a move finds the binding of its source path, unless it is refused before. -/
theorem relocate_complies {op : Relocation} {targetId : VolumeId} {sourceText targetText : String}
    (h : Complies s r world) (hn : world.namespace.Sound) (hmade : r.made = r.volume targetId)
    (hcarries : ∀ binding, world.binding id sourceText = .ok binding →
      s.Carries op binding.kind (r.volume id) (r.volume targetId)) :
    Complies s r ((do
      let sourcePath ← (← Action.ask (·.volume id)).parse sourceText
      let targetPath ← (← Action.ask (·.volume targetId)).parse targetText
      op.run id sourcePath targetId targetPath : Action Unit) world).2 := by
  refine ask_bind_invariant h fun sourceVolume hsource => ?_
  refine lift_bind_invariant h fun sourcePath hparse => ?_
  refine ask_bind_invariant h fun targetVolume _ => lift_bind_invariant h fun targetPath _ => ?_
  refine Relocation.run_complies h hn hmade fun _ _ src dst plan hdecided => ?_
  obtain rfl := Except.ok.inj (hsource.symm.trans hdecided.source_volume)
  exact hcarries plan.source (hdecided.binding hparse)

theorem createHardLink_complies (h : Complies s r world) (hn : world.namespace.Sound)
    (hmade : r.made = r.volume id) (link existing : String) :
    Complies s r (id.createHardLink link existing world).2 := by
  unfold createHardLink
  refine ask_bind_invariant h fun volume _ => lift_bind_invariant h fun source _ => ?_
  refine lift_bind_invariant h fun target _ => Relocation.run_complies h hn hmade ?_
  exact fun _ _ _ _ plan _ => .refl s .link plan.source.kind _

end VolumeId

end RamFs
