import RamFs.Proofs.Relocations.Moves
import RamFs.Proofs.Relocations.Stretches

/-!
What a move does to walks. All names but those of the two slots are bound as before, so that a pass
that looks up neither of them goes the same way. No pass down from what moved looks one up, for the
two directories do not lie below it. A steady walk below a directory that moved therefore reaches
what it reached before.
-/

namespace RamFs

open RamFs.Action

variable {world after : World} {op : Relocation} {volume : Volume} {src dst : Slot}
  {moving : Binding} {existing : Option Binding} {collation : Collation}
  {followLast followLinks : Bool} {top top' directory entry : EntryId} {route : List EntryId}
  {walked names : List String} {name : String} {root : Nat} {bindings bindings' : List Binding}

/-! ### Names that stay -/

theorem Directory.find?_congr {names names' : Directory} (hnames' : names'.Ordered)
    (h : ∀ binding, binding.key = collation.key name →
      (binding ∈ names'.bindings ↔ binding ∈ names.bindings)) :
    names'.find? collation name = names.find? collation name := by
  cases hfind : names.find? collation name with
  | none =>
      rw [Directory.find?_eq_none] at hfind ⊢
      exact fun binding hmem hkey => hfind binding ((h binding hkey).1 hmem) hkey
  | some binding =>
      have hkey := Directory.find?_key hfind
      exact hnames'.find?_eq_some ((h binding hkey).2 (Directory.find?_mem hfind)) hkey

namespace World

theorem node?_of_entry_eq (h : after.entry entry = world.entry entry) :
    after.namespace.node? entry = world.namespace.node? entry := by
  change (after.entries[entry.index]?).map Entry.node = (world.entries[entry.index]?).map Entry.node
  unfold World.entry at h
  cases hbefore : world.entries[entry.index]? <;> cases hafter : after.entries[entry.index]? <;>
    simp_all

namespace Moved

/-- Away from the two directories no node changes, but that a file may go out of use. -/
theorem node?_cases (h : world.Moved volume src dst moving existing after)
    (hsource : entry ≠ src.directory) (htarget : entry ≠ dst.directory) :
    after.namespace.node? entry = world.namespace.node? entry ∨
      ∃ file file', world.namespace.node? entry = some (.file file) ∧
        after.namespace.node? entry = some (.file file') := by
  by_cases hreplaced : ∃ replaced, existing = some replaced ∧ entry = replaced.entry
  · obtain ⟨replaced, hexisting, rfl⟩ := hreplaced
    rw [h.retired replaced hexisting]
    unfold Namespace.retire
    split
    case h_1 file hfile => exact .inr ⟨file, _, hfile, Namespace.node?_setNode_self⟩
    case h_2 => exact .inl rfl
  · exact .inl (node?_of_entry_eq (h.others entry hsource htarget fun replaced hexisting hsame =>
      hreplaced ⟨replaced, hexisting, hsame⟩))

theorem directory_eq_of_ne (h : world.Moved volume src dst moving existing after)
    (hsource : entry ≠ src.directory) (htarget : entry ≠ dst.directory) :
    after.directory entry = world.directory entry := by
  rw [World.directory_eq, World.directory_eq]
  rcases h.node?_cases hsource htarget with hsame | ⟨file, file', hbefore, hafter⟩
  · rw [hsame]
  · rw [hbefore, hafter]

/-- The two directories are directories before and after the move. -/
theorem directories (hp : op.Prepared world.namespace volume volume src dst moving existing)
    (h : world.Moved volume src dst moving existing after)
    (hentry : entry = src.directory ∨ entry = dst.directory) :
    ∃ names names', world.namespace.node? entry = some (.directory names) ∧
      after.namespace.node? entry = some (.directory names') := by
  rcases hentry with rfl | rfl
  · obtain ⟨names, hnames, -⟩ := hp.source_names
    obtain ⟨names', hnames', -⟩ := h.vacated
    exact ⟨names, names', hnames, directory_eq_ok.1 hnames'⟩
  · obtain ⟨names, hnames, -⟩ := hp.target_names
    obtain ⟨names', hnames', -⟩ := bound?_eq_some h.arrived
    exact ⟨names, names', hnames, directory_eq_ok.1 hnames'⟩

theorem linkTarget?_eq (hp : op.Prepared world.namespace volume volume src dst moving existing)
    (h : world.Moved volume src dst moving existing after) (entry : EntryId) :
    after.linkTarget? entry = world.linkTarget? entry := by
  by_cases hentry : entry = src.directory ∨ entry = dst.directory
  · obtain ⟨names, names', hbefore, hafter⟩ := h.directories hp hentry
    rw [linkTarget?_of_directory hbefore, linkTarget?_of_directory hafter]
  · rw [not_or] at hentry
    rw [World.linkTarget?_eq, World.linkTarget?_eq]
    rcases h.node?_cases hentry.1 hentry.2 with hsame | ⟨file, file', hbefore, hafter⟩
    · rw [hsame]
    · rw [hbefore, hafter]

theorem links_eq (hp : op.Prepared world.namespace volume volume src dst moving existing)
    (h : world.Moved volume src dst moving existing after) : after.links = world.links := by
  unfold World.links
  rw [h.size]
  simp only [h.linkTarget?_eq hp]

/-- Every name but those of the two slots is bound as before. -/
theorem find?_eq (hn : world.namespace.Sound) (hn' : after.namespace.Sound)
    (hp : op.Prepared world.namespace volume volume src dst moving existing)
    (h : world.Moved volume src dst moving existing after)
    (hsource : ¬src.Is volume.collation directory name)
    (htarget : ¬dst.Is volume.collation directory name) :
    (after.directory directory).map (·.find? volume.collation name) =
      (world.directory directory).map (·.find? volume.collation name) := by
  by_cases hentry : directory = src.directory ∨ directory = dst.directory
  · obtain ⟨names, names', hbefore, hafter⟩ := h.directories hp hentry
    rw [directory_eq_ok.2 hbefore, directory_eq_ok.2 hafter]
    refine congrArg Except.ok (Directory.find?_congr (hn'.ordered hafter) ?_)
    intro binding hkey
    constructor
    · intro hmem
      rcases (h.names _ _).1 ⟨names', hafter, hmem⟩ with ⟨⟨found, hfound, hold⟩, -⟩ | ⟨hsame, rfl⟩
      · obtain rfl : names = found := by simpa [hbefore] using hfound
        exact hold
      · exact absurd ⟨hsame, hkey.symm⟩ htarget
    · intro hmem
      have hbinds : world.namespace.Binds directory binding := ⟨names, hbefore, hmem⟩
      obtain ⟨found, hfound, hnew⟩ := (h.names _ _).2 (.inl ⟨hbinds, fun hsame => by
        obtain ⟨hdirectory, rfl⟩ := hn.bound_once hbinds hp.source_binds hsame
        obtain ⟨_, _, hmoving⟩ := hp.source_names
        exact hsource ⟨hdirectory, hkey.symm.trans (Directory.find?_key hmoving)⟩,
        fun replaced hreplaced hsame => by
        obtain ⟨hdirectory, rfl⟩ := hn.bound_once hbinds (hp.target_binds hreplaced) hsame
        obtain ⟨_, _, hexisting⟩ := hp.target_names
        exact htarget ⟨hdirectory,
          hkey.symm.trans (Directory.find?_key (hexisting.trans hreplaced))⟩⟩)
      obtain rfl : names' = found := by simpa [hafter] using hfound
      exact hnew
  · rw [not_or] at hentry
    rw [h.directory_eq_of_ne hentry.1 hentry.2]

/-! ### Walks below what moved -/

/-- A pass down from what moved meets neither of the names that changed. -/
theorem pass_below (hn : world.namespace.Sound) (hn' : after.namespace.Sound)
    (hp : op.Prepared world.namespace volume volume src dst moving existing)
    (hmove : op.isMove = true) (hvolume : src.volume = dst.volume)
    (h : world.Moved volume src dst moving existing after) :
    after.pass volume.collation (.entry followLast) followLinks moving.entry route walked names =
      world.pass volume.collation (.entry followLast) followLinks moving.entry route walked
        names := by
  refine pass_eq_of_lookups (h.linkTarget?_eq hp) fun directory name hlookup => ?_
  obtain ⟨bindings, hleads⟩ := hlookup.leads
  obtain ⟨hsource, htarget⟩ := hp.below_ne hn hmove hvolume hleads
  exact h.find?_eq hn hn' hp (fun his => hsource his.1) fun his => htarget his.1

/-- A pass from a root that looks up neither of the names that change is the same afterwards. -/
theorem passFrom_steady (hn : world.namespace.Sound)
    (hn' : after.namespace.Sound)
    (hp : op.Prepared world.namespace volume volume src dst moving existing)
    (h : world.Moved volume src dst moving existing after)
    (hsteady : world.Steady volume src dst moving followLast followLinks (.elsewhere root names)) :
    after.passFrom volume (.entry followLast) followLinks root names =
      world.passFrom volume (.entry followLast) followLinks root names := by
  rw [passFrom_of_names ne_nil_of_entry_eq_parent, passFrom_of_names ne_nil_of_entry_eq_parent]
  cases htop : volume.roots[root]? with
  | none => rfl
  | some top =>
      refine pass_eq_of_lookups (h.linkTarget?_eq hp) fun directory name hlookup => ?_
      obtain ⟨hclear, -⟩ := steady_iff_calm.1 hsteady
      obtain ⟨hsource, htarget⟩ := hclear top directory name htop hlookup
      exact h.find?_eq hn hn' hp hsource htarget

/-- After the move the route to what moved is that to the target's directory and one name more. -/
theorem leads_target (hn : world.namespace.Sound)
    (hp : op.Prepared world.namespace volume volume src dst moving existing)
    (hmove : op.isMove = true) (hvolume : src.volume = dst.volume)
    (h : world.Moved volume src dst moving existing after)
    (hdst : dst.Stays world.namespace top bindings) :
    after.namespace.Leads top (bindings ++ [moving.renamed volume.collation dst.name])
      moving.entry := by
  have hkept : after.namespace.Leads top bindings dst.directory := by
    refine hdst.leads.keep fun {directory passed} hmem hbinds => ?_
    refine (h.names _ _).2 (.inl ⟨hbinds, ?_, fun replaced hreplaced => ?_⟩)
    · obtain ⟨_, ⟨top', hroot, hroute, -⟩, hclear⟩ := hp.target_route
      obtain ⟨-, -, -, rfl⟩ := hn.route_unique hroot hdst.root hroute hdst.leads
      exact hclear hmove hvolume passed hmem
    · exact hn.clear_of_binds hdst.root hdst.leads (hp.target_binds hreplaced) passed hmem
  have hbinds : after.namespace.Binds dst.directory
      (moving.renamed volume.collation dst.name) :=
    (h.names _ _).2 (.inr ⟨rfl, rfl⟩)
  exact hkept.step hbinds

/-- A steady walk below a directory that moved reaches what it reached before. -/
theorem walk_below (hn : world.namespace.Sound)
    (hn' : after.namespace.Sound)
    (hp : op.Prepared world.namespace volume volume src dst moving existing)
    (hmove : op.isMove = true) (hvolume : src.volume = dst.volume)
    (h : world.Moved volume src dst moving existing after)
    (hsrc : src.Stays world.namespace top bindings)
    (hdst : dst.Stays world.namespace top' bindings') (hkind : moving.kind = .directory)
    (hsteady : world.Steady volume src dst moving followLast followLinks (.below names)) :
    (after.walk volume (dst.path.extend names) (.entry followLast) followLinks).map Visit.entry =
      (world.walk volume ((src.stored moving).extend names) (.entry followLast) followLinks).map
        Visit.entry := by
  have hground := hp.source_ground
  have htop : ∀ {ordinal top}, world.namespace.IsRoot src.volume ordinal top →
      volume.roots[ordinal]? = some top := by
    rintro ordinal top ⟨ground, hsome, htop⟩
    obtain rfl := Option.some.inj (hground.symm.trans hsome)
    exact htop
  have hlink : world.linkTarget? moving.entry = none := by
    obtain ⟨node, hnode, hsame⟩ := hn.bound_kind hp.source_binds
    rw [World.linkTarget?_eq, hnode]
    cases node with
    | directory names => rfl
    | file file => rfl
    | symlink target => cases hsame.trans hkind
  have hbefore : ∀ names, world.passFrom volume (.entry followLast) followLinks
      (src.stored moving).root ((src.stored moving).elements ++ names) =
        (world.pass volume.collation (.entry followLast) followLinks moving.entry [] [] names).map
          (Pass.prepend (top :: (bindings ++ [moving]).map Binding.entry)
            (src.stored moving).elements) := by
    intro names
    have hleads := hsrc.leads.step hp.source_binds
    have hnames : (src.stored moving).elements = (bindings ++ [moving]).map Binding.name := by
      rw [List.map_append, ← hsrc.elements]
      rfl
    refine passFrom_below hn (htop hsrc.root) hleads hnames ?_ hlink
    rw [hnames, keys_of_leads hn hground hsrc.root hleads]
  have hafter : ∀ names, after.passFrom volume (.entry followLast) followLinks dst.path.root
      (dst.path.elements ++ names) =
        (world.pass volume.collation (.entry followLast) followLinks moving.entry [] [] names).map
          (Pass.prepend
            (top' :: (bindings' ++ [moving.renamed volume.collation dst.name]).map Binding.entry)
            dst.path.elements) := by
    intro names
    have hroot := hdst.root
    rw [← hvolume] at hroot
    have helements : dst.path.elements = dst.parent.elements ++ [dst.name] := rfl
    rw [← h.pass_below hn hn' hp hmove hvolume]
    refine passFrom_below hn' (htop hroot) (h.leads_target hn hp hmove hvolume hdst) ?_ ?_
      ((h.linkTarget?_eq hp _).trans hlink)
    · rw [helements, List.map_append, ← hdst.elements]
      rfl
    · rw [helements, List.map_append, List.map_append, hdst.elements,
        keys_of_leads hn hground hroot hdst.leads]
      rfl
  unfold World.walk
  rw [h.links_eq hp]
  exact trail_steady hbefore hafter (fun root names => h.passFrom_steady hn hn' hp) hsteady

end Moved

end World

end RamFs
