import RamFs.Proofs.Namespace.Passes
import RamFs.Proofs.Sessions.Creating

/-!
Volumes without links. A new volume has empty directories and nothing else, and a file that is
placed somewhere is no link. Where there is no link, none can be met twice, so that a walk arrives
wherever its path leads.
-/

namespace RamFs

open RamFs.Action

variable {world after : World} {id : VolumeId} {volume : Volume} {config : Config}
  {directory entry other : EntryId} {names : Directory} {collation : Collation} {name : String}
  {kind : Kind} {node : Node} {text : String} {options : OpenOptions} {opening : Opening}
  {handle : HandleId} {opened : World}

/-! ### New volumes -/

/-- Nothing lies below what hangs loose. -/
theorem Namespace.Loose.not_binds {n : Namespace} (h : n.Loose entry kind) (hn : n.Sound)
    (binding : Binding) : ¬n.Binds entry binding := by
  intro hbinds
  obtain ⟨_, _, -, ⟨_, _, _, hroot, hleads⟩, -⟩ := hn.keyed hbinds
  rcases hleads.eq_or_bound with ⟨-, rfl⟩ | hbound
  · exact h.rootless hroot
  · exact h.unbound hbound

/-- The tree of a new volume consists of its roots. -/
theorem newVolume_plain (hn : world.namespace.Sound)
    (hrun : newVolume config world = (.ok id, after)) :
    ∃ volume, after.volume id = .ok volume ∧ volume.isLive = true ∧
      ∀ entry, after.namespace.InTree id entry →
        ∃ names, after.namespace.node? entry = some (.directory names) := by
  unfold newVolume at hrun
  obtain ⟨-, -, hrun⟩ := lifted_of_bind_ok hrun
  rw [bind_ok (get_apply _)] at hrun
  obtain ⟨tops, middle, hmap, hexpands, -, htops, -⟩ := mapM_addEntry
    ⟨.at (world.now ⟨config, [], 0, 1⟩), Volume.ownership ⟨config, [], 0, 1⟩ {} .directory,
      .directory {}⟩ rfl config.roots hn
  rw [bind_ok hmap, add_apply] at hrun
  obtain ⟨hid, rfl⟩ := Prod.mk.inj hrun
  obtain rfl : (⟨middle.volumes.size⟩ : VolumeId) = id := Except.ok.inj hid
  refine ⟨⟨config, tops, 0, 1⟩, ?_, rfl, ?_⟩
  · unfold World.volume World.addVolume
    rw [Array.getElem?_push_size]
  · rintro entry ⟨ordinal, top, bindings, ⟨ground, hground, htop⟩, hleads⟩
    rw [World.namespace_addVolume] at hground hleads ⊢
    rw [Namespace.ground?_setGround_self] at hground
    cases hground
    have hloose := (htops top (List.mem_of_getElem? htop)).2
    obtain ⟨node, hnode, hkind⟩ := hloose.node
    -- the root is all there is
    have hroot : entry = top := by
      induction hleads with
      | top => rfl
      | step _ hbinds ih => exact absurd (ih ▸ hbinds) (hloose.not_binds hexpands.evolves.sound _)
    subst hroot
    cases node with
    | directory names => exact ⟨names, hnode⟩
    | file file => cases hkind
    | symlink target => cases hkind

/-! ### Walks without links -/

/-- Where a path leads, a walk arrives. -/
theorem World.Resolves.walk {course : Nat × List String} (h : world.Resolves volume course entry)
    (hvolume : world.volume id = .ok volume) (hplain : world.namespace.linksIn id = ∅)
    (unseen : List EntryId) :
    ∃ visit, (world.trail volume (.entry true) true unseen course.1 course.2).outcome = .ok visit ∧
      visit.entry = entry := by
  obtain ⟨last, hfollows, route, walked, harrived⟩ := h
  obtain rfl | ⟨next, ⟨link, target, walked', rest, hpass, -⟩, -⟩ := hfollows.cases_head
  · unfold World.trail
    rw [harrived]
    exact ⟨_, rfl, rfl⟩
  · have hlink := World.passFrom_detour hvolume hpass
    rw [hplain] at hlink
    exact absurd hlink (Set.notMem_empty link)

namespace Action.Placed

variable (h : Placed world id directory names collation name kind entry node after)
  (hnames : world.namespace.node? directory = some (.directory names))
  (hground : after.namespace.ground? = world.namespace.ground?)

include h hnames hground

theorem inTree {id' : VolumeId} (htree : after.namespace.InTree id' other) :
    world.namespace.InTree id' other ∨ other = entry := by
  obtain ⟨ordinal, top, bindings, hroot, hleads⟩ := htree
  induction hleads with
  | top =>
      refine .inl ⟨ordinal, top, [], ?_, .top⟩
      unfold Namespace.IsRoot at hroot ⊢
      rwa [← hground]
  | step _ hbinds ih =>
      obtain hbinds | ⟨-, rfl⟩ := (h.binds hnames).1 hbinds
      case inr => exact .inr rfl
      case inl =>
        obtain hparent | rfl := ih
        case inl => exact .inl (hparent.step hbinds)
        case inr =>
          obtain ⟨_, hnode, -⟩ := hbinds
          rw [h.fresh] at hnode
          cases hnode

theorem linksIn_subset (hplain : ∀ target, node ≠ .symlink target) (id' : VolumeId) :
    after.namespace.linksIn id' ⊆ world.namespace.linksIn id' := by
  rintro other ⟨htree, target, htarget⟩
  have hentry : other ≠ entry := by
    rintro rfl
    rw [h.made] at htarget
    exact hplain _ (Option.some.inj htarget)
  have hdirectory : other ≠ directory := by
    rintro rfl
    obtain ⟨_, -, hnames'⟩ := h.bound
    rw [hnames'] at htarget
    cases htarget
  refine ⟨(h.inTree hnames hground htree).resolve_right hentry, target, ?_⟩
  rwa [← h.same hentry hdirectory]

end Action.Placed

theorem World.ground?_of_volumes (h : after.volumes = world.volumes) :
    after.namespace.ground? = world.namespace.ground? :=
  congrArg (fun volumes id => volumes[VolumeId.index id]?.map Volume.ground) h

theorem Namespace.linksIn_subset_of_same {n n' : Namespace} (hnodes : n'.node? = n.node?)
    (hground : n'.ground? = n.ground?) : n'.linksIn id ⊆ n.linksIn id := by
  rintro entry ⟨htree, target, htarget⟩
  refine ⟨htree.mono ?_ ?_, target, hnodes ▸ htarget⟩
  · intro id ordinal top hroot
    unfold Namespace.IsRoot at hroot ⊢
    rwa [← hground]
  · intro directory binding hbinds
    unfold Namespace.Binds at hbinds ⊢
    rwa [← hnodes]

theorem Opening.Takes.ground_made (h : opening.Takes world id text options handle opened) :
    opening.made.namespace.ground? = world.namespace.ground? := by
  have hvolumes : opening.made.volumes = (world.modifyVolume id Volume.takePlace).volumes :=
    congrArg Roster.volumes h.roster
  rw [World.ground?_of_volumes hvolumes, VolumeId.namespace_takePlace]

/-- Opening a file makes no link. -/
theorem Opening.Takes.linksIn_made (h : opening.Takes world id text options handle opened)
    (id' : VolumeId) : opening.made.namespace.linksIn id' ⊆ world.namespace.linksIn id' := by
  have hyields := h.yields
  rw [← VolumeId.namespace_takePlace id world]
  cases htarget : opening.target with
  | existing entry path =>
      rw [htarget] at hyields
      obtain ⟨-, -, hmade⟩ := hyields
      rw [hmade]
  | vacant directory path =>
      rw [htarget] at hyields
      obtain ⟨-, -, name, names, -, hnames, hplaced⟩ := hyields
      have hground := h.ground_made
      rw [← VolumeId.namespace_takePlace id world] at hground
      exact hplaced.linksIn_subset hnames hground (fun _ => nofun) id'

end RamFs
