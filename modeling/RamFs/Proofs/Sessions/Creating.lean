import Mathlib.Data.List.Perm.Subperm
import RamFs.Query
import RamFs.Proofs.Sessions.Writing

/-!
Opening with and without creating agree on what a path means. A walk that comes to a file has
seen every link at the end of the path that the search for a name to create follows, and every
link on the way to the directories where that search stops, so the search finds the same file.
The other way round, what was opened to be created is where a walk arrives, unless the walk meets
a link twice; the handle keeps the last name as it was given, the walk reports it as it is stored.
-/

namespace RamFs

open RamFs.Action

/-- The path of what there is to open, without links. -/
def World.OpenTarget.path : World.OpenTarget → Path
  | .existing _ path => path
  | .vacant _ path => path

/-- The paths are the same but for the spelling of the last name. -/
def Path.Respells (collation : Collation) (path other : Path) : Prop :=
  ∃ front name name', path = { other with elements := front ++ [name] } ∧
    other.elements = front ++ [name'] ∧ collation.key name = collation.key name'

namespace World

variable {world : World} {volume : Volume} {collation : Collation} {here : EntryId}
  {route unseen inner : List EntryId} {walked names : List String} {root : Nat} {path : Path}
  {visit parent : Visit} {last : Nat × List String} {name : String} {directory : Directory}
  {binding : Binding} {file : FileNode}

/-! ### The directory at the end of a walk -/

/-- A pass to a directory fails only where a pass through the directory fails. -/
theorem pass_of_parent_error {failure : Failure}
    (h : world.pass collation .parent true here route walked names = .error failure) :
    world.pass collation (.entry true) true here route walked names = .error failure := by
  induction names generalizing here route walked with
  | nil =>
      unfold World.pass at h
      cases h
  | cons name later ih =>
      rw [pass_cons ne_nil_of_entry_eq_parent]
      cases hdirectory : world.directory here with
      | error failure' =>
          by_cases hlater : later = []
          · rw [hlater, pass_last_of_parent, hdirectory] at h
            exact h
          · rw [pass_cons fun _ => hlater, hdirectory] at h
            exact h
      | ok directory =>
          by_cases hlater : later = []
          · rw [hlater, pass_last_of_parent, hdirectory] at h
            cases h
          · rw [pass_cons fun _ => hlater, hdirectory, ok_bind] at h
            rw [ok_bind]
            cases hfind : directory.find? collation name with
            | none =>
                rw [hfind] at h
                exact h
            | some binding =>
                rw [hfind] at h
                dsimp only at h ⊢
                cases hlink : world.linkTarget? binding.entry with
                | none =>
                    rw [hlink] at h
                    exact ih h
                | some target =>
                    rw [hlink] at h
                    cases h

/-- Where a pass through a directory succeeds, a pass to the directory takes the same detour or
comes to the name at the end. -/
theorem passFrom_parent (hnames : names ≠ []) {pass : Pass}
    (h : world.passFrom volume (.entry true) true root names = .ok pass) :
    (world.passFrom volume .parent true root names = .ok pass ∧
      ∃ link target walked rest, pass = .detour link target walked rest) ∨
    ∃ parent walked name directory binding,
      world.Nears volume (root, names) parent walked name directory ∧
      directory.find? volume.collation name = some binding := by
  obtain ⟨-, top, htop, hpass⟩ := passFrom_eq_ok.1 h
  cases hparent : world.pass volume.collation .parent true top [top] [] names with
  | error failure =>
      rw [pass_of_parent_error hparent] at hpass
      cases hpass
  | ok met =>
      have hfrom : world.passFrom volume .parent true root names = .ok met :=
        passFrom_eq_ok.2 ⟨fun _ => hnames, top, htop, hparent⟩
      cases met with
      | detour link target walked rest =>
          rw [pass_of_parent_detour hparent] at hpass
          obtain rfl := Except.ok.inj hpass
          exact .inl ⟨hfrom, link, target, walked, rest, rfl⟩
      | arrived entry route walked =>
          obtain ⟨front, name, rfl, hlast⟩ := pass_of_parent_arrived hparent hnames
          rw [hlast, pass_cons ne_nil_of_entry_eq_parent] at hpass
          obtain ⟨directory, hdirectory, hpass⟩ := exists_of_bind_ok hpass
          cases hfind : directory.find? volume.collation name with
          | none =>
              rw [hfind] at hpass
              cases hpass
          | some binding =>
              refine .inr ⟨⟨entry, route, volume.pathOf root (front ++ [name])⟩, _, name, directory,
                binding, ⟨hfrom, rfl, ?_, hdirectory⟩, hfind⟩
              exact List.getLast?_concat

theorem Nears.trail (h : world.Nears volume last parent walked name directory)
    (unseen : List EntryId) :
    (world.trail volume .parent true unseen last.1 last.2).outcome = .ok parent := by
  unfold World.trail
  rw [h.arrives]
  obtain ⟨entry, route, path⟩ := parent
  obtain rfl : path = volume.pathOf last.1 walked := h.path
  rfl

/-- On its way to a file a walk comes to a last name, and a walk to the directory of that name
follows no link that the first one did not follow. -/
theorem trail_nears (hroots : ∀ top ∈ volume.roots, ∃ names,
      world.namespace.node? top = some (.directory names))
    (hfile : world.namespace.node? visit.entry = some (.file file))
    (h : (world.trail volume (.entry true) true unseen root names).outcome = .ok visit)
    (hinner : unseen.Subperm inner) :
    ∃ parent last walked name directory binding unseen',
      (world.trail volume .parent true inner root names).outcome = .ok parent ∧
      world.Nears volume last parent walked name directory ∧
      directory.find? volume.collation name = some binding ∧ unseen'.Subperm unseen ∧
      (world.trail volume (.entry true) true unseen' last.1 last.2).outcome = .ok visit := by
  induction hlength : unseen.length using Nat.strongRecOn
    generalizing unseen inner root names with
  | _ length ih =>
  have hwhole := h
  unfold World.trail at h
  cases hpass : world.passFrom volume (.entry true) true root names with
  | error failure =>
      rw [hpass] at h
      cases h
  | ok pass =>
  have hnames : names ≠ [] := by
    -- without names the walk stays at a root, which is no file
    rintro rfl
    obtain ⟨-, top, htop, hstay⟩ := passFrom_eq_ok.1 hpass
    unfold World.pass at hstay
    cases hstay
    rw [hpass] at h
    cases h
    obtain ⟨names, hnode⟩ := hroots top (List.mem_of_getElem? htop)
    rw [hnode] at hfile
    cases hfile
  rcases passFrom_parent hnames hpass with
    ⟨hparent, link, target, walked, rest, rfl⟩ |
    ⟨parent, walked, name, directory, binding, hnears, hfind⟩
  case inr =>
    exact ⟨parent, (root, names), walked, name, directory, binding, unseen, hnears.trail inner,
      hnears, hfind, .refl _, hwhole⟩
  case inl =>
    rw [hpass] at h
    dsimp only at h
    split at h
    case isFalse => cases h
    case isTrue hlink =>
      cases hsplice : volume.spliceLink target root walked rest with
      | error failure =>
          rw [hsplice] at h
          cases h
      | ok next =>
          rw [hsplice] at h
          obtain ⟨parent, last, walked', name, directory, binding, unseen', htrail, hnears, hfind,
            hless, hlast⟩ := ih _ (hlength ▸ length_erase_lt hlink) h (hinner.erase link) rfl
          refine ⟨parent, last, walked', name, directory, binding, unseen', ?_, hnears, hfind,
            hless.trans (List.erase_subperm link unseen), hlast⟩
          unfold World.trail
          rw [hparent]
          dsimp only
          rw [dif_pos (hinner.subset hlink), hsplice]
          exact htrail

/-! ### The same file -/

/-- The search for a name to create finds the file that a walk finds. -/
theorem createTrail_of_trail (hroots : ∀ top ∈ volume.roots, ∃ names,
      world.namespace.node? top = some (.directory names))
    (hfile : world.namespace.node? visit.entry = some (.file file))
    (h : (world.trail volume (.entry true) true unseen path.root path.elements).outcome =
      .ok visit)
    (hlinks : unseen.Subperm world.links) (hinner : unseen.Subperm inner) :
    ∃ resolved, (world.createTrail volume false inner path).outcome =
      .ok (.existing visit.entry resolved) := by
  induction hlength : inner.length using Nat.strongRecOn generalizing unseen inner path with
  | _ length ih =>
  obtain ⟨parent, last, walked, name, directory, binding, unseen', htrail, hnears, hfind, hless,
    hlast⟩ := trail_nears hroots hfile h hlinks
  have hlookup : createTrail.lookup world volume path = .ok (parent, some binding) := by
    have hwalk : world.walk volume path .parent true = .ok parent := htrail
    unfold createTrail.lookup
    rw [hwalk, ok_bind, hnears.name]
    dsimp only
    rw [hnears.directory]
    exact congrArg (fun bound => Except.ok (parent, bound)) hfind
  unfold World.createTrail
  rw [hlookup]
  dsimp only
  rw [if_neg Bool.false_ne_true]
  unfold World.trail at hlast
  rw [hnears.passFrom hfind] at hlast
  cases hlink : world.linkTarget? binding.entry with
  | none =>
      rw [hlink] at hlast
      cases hlast
      exact ⟨parent.path, rfl⟩
  | some target =>
      rw [hlink] at hlast
      dsimp only at hlast ⊢
      split at hlast
      case isFalse => cases hlast
      case isTrue hseen =>
        cases hsplice : volume.spliceLink target last.1 walked.dropLast [] with
        | error failure =>
            rw [hsplice] at hlast
            cases hlast
        | ok next =>
            rw [hsplice] at hlast
            have hdestination : volume.linkDestination parent.path target =
                .ok (volume.pathOf next.1 next.2) := by
              unfold Volume.linkDestination
              rw [hnears.path]
              exact congrArg (· >>= fun next => Except.ok (volume.pathOf next.1 next.2)) hsplice
            have hmem : binding.entry ∈ inner := (hless.trans hinner).subset hseen
            have hlater : (world.trail volume (.entry true) true (unseen'.erase binding.entry)
                (volume.pathOf next.1 next.2).root (volume.pathOf next.1 next.2).elements).outcome =
                  .ok visit := hlast
            obtain ⟨resolved, hresolved⟩ := ih _ (hlength ▸ length_erase_lt hmem) hlater
              ((List.erase_subperm _ _).trans (hless.trans hlinks))
              ((hless.trans hinner).erase binding.entry) rfl
            rw [dif_pos hmem, hdestination]
            exact ⟨resolved, hresolved⟩

/-- What opening is to find where a walk comes to a file. -/
theorem openTrail_of_walk {id : VolumeId} {options : OpenOptions} (hn : world.namespace.Sound)
    (hvolume : world.volume id = .ok volume) (hcreate : options.create = true)
    (hnew : options.createNew = false)
    (hwalk : world.walk volume path (.entry true) true = .ok visit)
    (hfile : world.namespace.node? visit.entry = some (.file file)) :
    ∃ resolved, (world.openTrail volume path options).outcome =
      .ok (.existing visit.entry resolved) := by
  have hroots : ∀ top ∈ volume.roots, ∃ names,
      world.namespace.node? top = some (.directory names) := by
    intro top htop
    obtain ⟨ordinal, htop⟩ := List.getElem?_of_mem htop
    exact hn.root_directory ⟨volume.ground, ground?_of_volume hvolume, htop⟩
  have hcreates : options.creates = true := by
    unfold OpenOptions.creates
    rw [hcreate, Bool.true_or]
  unfold World.openTrail
  rw [if_pos hcreates, hnew]
  exact createTrail_of_trail hroots hfile hwalk (.refl _) (.refl _)

/-! ### How paths are spelled -/

/-- A walk reports an absolute path below the root where it ends. -/
theorem trail_pathOf {goal : Goal} {followLinks : Bool}
    (h : (world.trail volume goal followLinks unseen root names).outcome = .ok visit) :
    visit.path = volume.pathOf visit.path.root visit.path.elements := by
  fun_induction World.trail world volume goal followLinks unseen root names with
  | case1 => cases h
  | case2 =>
      cases h
      rfl
  | case3 => cases h
  | case4 _ _ _ _ _ _ _ _ _ _ _ _ _ ih => exact ih h
  | case5 => cases h

/-- The last name of the target's path was looked for in a directory of the tree, to which the
names before it lead as they are stored there. -/
theorem createTrail_spells {id : VolumeId} {createNew : Bool} {target : OpenTarget}
    (hground : world.namespace.ground? id = some volume.ground)
    (h : (world.createTrail volume createNew unseen path).outcome = .ok target) :
    ∃ top bindings directory names given, world.namespace.IsRoot id target.path.root top ∧
      world.namespace.Leads top bindings directory ∧
      world.namespace.node? directory = some (.directory names) ∧
      target.path = volume.pathOf target.path.root (bindings.map Binding.name ++ [given]) ∧
      match target with
      | .existing entry _ => ∃ binding, names.find? volume.collation given = some binding ∧
          binding.entry = entry
      | .vacant parent _ => parent = directory := by
  have hlookup : ∀ {path parent bound}, createTrail.lookup world volume path = .ok (parent, bound) →
      ∃ top bindings names given, world.namespace.IsRoot id parent.path.root top ∧
        world.namespace.Leads top bindings parent.entry ∧
        world.namespace.node? parent.entry = some (.directory names) ∧
        parent.path = volume.pathOf parent.path.root (bindings.map Binding.name ++ [given]) ∧
        names.find? volume.collation given = bound := by
    intro path parent bound hlookup
    unfold createTrail.lookup at hlookup
    obtain ⟨found, hfound, hlookup⟩ := exists_of_bind_ok hlookup
    obtain ⟨name, harrives, hname⟩ := walk_parent_arrives hground hfound
    rw [hname] at hlookup
    obtain ⟨names, hnames, hlookup⟩ := exists_of_bind_ok hlookup
    cases hlookup
    obtain ⟨top, bindings, hroot, hleads, _, helements⟩ := harrives
    exact ⟨top, bindings, names, name, hroot, hleads, directory_eq_ok.1 hnames,
      helements ▸ trail_pathOf hfound, rfl⟩
  fun_induction World.createTrail world volume createNew unseen path with
  | case1 => cases h
  | case2 unseen path parent hparent =>
      cases h
      obtain ⟨top, bindings, names, given, hroot, hleads, hnames, hpath, _⟩ := hlookup hparent
      exact ⟨top, bindings, _, names, given, hroot, hleads, hnames, hpath, rfl⟩
  | case3 => cases h
  | case4 unseen path parent binding hparent =>
      cases h
      obtain ⟨top, bindings, names, given, hroot, hleads, hnames, hpath, hfind⟩ := hlookup hparent
      exact ⟨top, bindings, _, names, given, hroot, hleads, hnames, hpath, binding, hfind, rfl⟩
  | case5 => cases h
  | case6 _ _ _ _ _ _ _ _ _ _ _ _ ih => exact ih h
  | case7 => cases h

end World

/-! ### What opening leaves as it was -/

/-- A new entry under a free name adds this name and no other. -/
theorem Action.Placed.binds {world after : World} {id : VolumeId} {directory parent entry : EntryId}
    {names : Directory} {collation : Collation} {name : String} {kind : Kind} {node : Node}
    {binding : Binding} (h : Placed world id directory names collation name kind entry node after)
    (hnames : world.namespace.node? directory = some (.directory names)) :
    after.namespace.Binds parent binding ↔ world.namespace.Binds parent binding ∨
      parent = directory ∧ binding = ⟨collation.key name, name, kind, entry⟩ := by
  obtain ⟨names', hinsert, hnames'⟩ := h.bound
  obtain ⟨_, rfl⟩ := Directory.insert_eq_ok.1 hinsert
  by_cases hdirectory : parent = directory
  · subst hdirectory
    simp [Namespace.Binds, hnames, hnames', Directory.mem_insertOrdered, or_comm]
  by_cases hentry : parent = entry
  · -- neither what is made nor what was not there has a name in it
    subst hentry
    refine iff_of_false (Namespace.not_binds_of_idle h.made h.node_idle) ?_
    simp [Namespace.Binds, h.fresh, hdirectory]
  · simp [Namespace.Binds, h.same hentry hdirectory, hdirectory]

namespace World.Opens

variable {world after : World} {id : VolumeId} {entry : EntryId} {file : FileNode}
  {options : OpenOptions} {resolved : Path} {handle : HandleId}

theorem binds (h : world.Opens id entry file options resolved handle after)
    (hnode : world.namespace.node? entry = some (.file file)) {directory : EntryId}
    {binding : Binding} :
    after.namespace.Binds directory binding ↔ world.namespace.Binds directory binding := by
  rw [h.names]
  exact Namespace.binds_setFile hnode

theorem retains (h : world.Opens id entry file options resolved handle after)
    (hnode : world.namespace.node? entry = some (.file file)) : world.Retains after where
  found := by
    intro other names hnames
    refine ⟨names, ?_, fun hfind => hfind⟩
    rw [World.directory_eq_ok] at hnames ⊢
    rw [h.names]
    exact (Namespace.node?_setNode_of_ne (by rintro rfl; simp [hnode] at hnames)).trans hnames
  links := by
    funext other
    rw [World.linkTarget?_eq, World.linkTarget?_eq, h.names]
    by_cases hother : other = entry
    · subst hother
      dsimp only
      rw [Namespace.node?_setNode_self, hnode]
    · dsimp only
      rw [Namespace.node?_setNode_of_ne hother]

end World.Opens

/-! ### Where the path leads afterwards -/

section Afterwards

variable {world opened : World} {id : VolumeId} {volume : Volume} {text : String}
  {options : OpenOptions} {opening : Opening} {handle : HandleId}

theorem World.canonicalize_eq {path : Path} (hvolume : world.volume id = .ok volume)
    (hparse : volume.parse text = .ok path) :
    world.canonicalize id text =
      (world.walk volume path (.entry true) true).map Visit.path := by
  unfold World.canonicalize
  rw [World.visit_eq hvolume hparse]
  cases world.walk volume path (.entry true) true <;> rfl

/-- What was opened to be created lies under a name of the directory that its path without links
names, and the path spells that name as it was given. -/
theorem Opening.Takes.spells (h : opening.Takes world id text options handle opened)
    (hn : world.namespace.Sound) (hcreates : options.creates = true) :
    ∃ top bindings binding given, opened.namespace.IsRoot id opening.resolved.root top ∧
      opened.namespace.Leads top (bindings ++ [binding]) opening.entry ∧
      opening.resolved = opening.volume.pathOf opening.resolved.root
        (bindings.map Binding.name ++ [given]) ∧
      opening.volume.collation.key binding.name = opening.volume.collation.key given ∧
      (world.namespace.node? opening.entry = none → binding.name = given) := by
  have hsame := VolumeId.namespace_takePlace id world
  have hground : (world.modifyVolume id Volume.takePlace).namespace.ground? id =
      some opening.volume.ground := by
    rw [hsame]
    exact World.ground?_of_volume h.volume
  have hfound := h.found
  unfold World.openTrail at hfound
  rw [if_pos hcreates] at hfound
  obtain ⟨top, bindings, directory, names, given, hroot, hleads, hnames, hpath, hlast⟩ :=
    World.createTrail_spells hground hfound
  have hroot' : opened.namespace.IsRoot id opening.target.path.root top := by
    rw [h.opens.names]
    exact h.expands.evolves.isRoot hroot
  have hyields := h.yields
  cases htarget : opening.target with
  | existing found path =>
      rw [htarget] at hyields hlast hpath hroot'
      obtain ⟨hentry, hresolved, hmade⟩ := hyields
      obtain ⟨binding, hfind, rfl⟩ := hlast
      have hbinds : ∀ {directory binding}, world.namespace.Binds directory binding →
          opened.namespace.Binds directory binding := by
        intro directory binding hbinds
        rw [h.opens.binds h.node, hmade, hsame]
        exact hbinds
      rw [hsame] at hleads hnames hroot
      have hbound : world.namespace.Binds directory binding :=
        ⟨names, hnames, Directory.find?_mem hfind⟩
      have hkey : binding.key = opening.volume.collation.key binding.name :=
        hn.keyed_in (World.ground?_of_volume h.volume) ⟨_, top, bindings, hroot, hleads⟩ hbound
      refine ⟨top, bindings, binding, given, hresolved ▸ hroot', ?_, hresolved ▸ hpath, ?_, ?_⟩
      · rw [hentry]
        exact (hleads.mono hbinds).step (hbinds hbound)
      · exact hkey.symm.trans (Directory.find?_key hfind)
      · intro hfresh
        have hnode := h.node
        rw [hmade, hsame, hfresh] at hnode
        cases hnode
  | vacant parent path =>
      rw [htarget] at hyields hlast hpath hroot'
      obtain ⟨hresolved, -, name, names', hname, hnode, hplaced⟩ := hyields
      obtain rfl : parent = directory := hlast
      obtain rfl : name = given := by
        have hlast : path.elements = bindings.map Binding.name ++ [given] :=
          congrArg Path.elements hpath
        rw [Path.fileName?, hlast, List.getLast?_concat] at hname
        exact (Option.some.inj hname).symm
      obtain ⟨_, names'', hnames'', hfind⟩ := hplaced.retains hnode
      have hbinds : ∀ {directory binding},
          (world.modifyVolume id Volume.takePlace).namespace.Binds directory binding →
          opened.namespace.Binds directory binding := by
        intro directory binding hbinds
        rw [h.opens.binds h.node]
        exact (hplaced.binds hnode).2 (.inl hbinds)
      have hbound : opened.namespace.Binds parent
          ⟨opening.volume.collation.key name, name, .file, opening.entry⟩ := by
        rw [h.opens.binds h.node]
        exact ⟨names'', World.directory_eq_ok.1 hnames'', Directory.find?_mem hfind⟩
      exact ⟨top, bindings, _, name, hresolved ▸ hroot', (hleads.mono hbinds).step hbound,
        hresolved ▸ hpath, rfl, fun _ => rfl⟩

/-- A walk of the path that was opened to be created comes to what was opened, or meets a link
twice. -/
theorem Opening.Takes.canonical (h : opening.Takes world id text options handle opened)
    (hn : world.namespace.Sound) (hcreates : options.creates = true) :
    opened.canonicalize id text = .error .linkLoop ∨
      ∃ canonical, opened.canonicalize id text = .ok canonical ∧
        canonical.Respells opening.volume.collation opening.resolved ∧
        (world.namespace.node? opening.entry = none → canonical = opening.resolved) := by
  have hvolume := h.volume_after
  have hfile : opened.linkTarget? opening.entry = none := by
    rw [World.linkTarget?_eq, h.opens.names]
    dsimp only
    rw [Namespace.node?_setNode_self]
  have hresolves : opened.Resolves opening.volume.takePlace
      (opening.path.root, opening.path.elements) opening.entry :=
    h.resolves_kept hcreates (h.opens.retains h.node) hfile
  have hcanonical : opened.canonicalize id text =
      (opened.walk opening.volume.takePlace opening.path (.entry true) true).map Visit.path :=
    World.canonicalize_eq hvolume h.parsed
  rcases hresolves.trail opened.links with hloop | ⟨visit, hvisit, hentry⟩
  · refine .inl (hcanonical.trans ?_)
    exact congrArg (Except.map Visit.path) hloop
  · refine .inr ⟨visit.path, hcanonical.trans (congrArg (Except.map Visit.path) hvisit), ?_⟩
    obtain ⟨top, bindings, binding, given, hroot, hleads, hresolved, hkey, hfresh⟩ :=
      h.spells hn hcreates
    obtain ⟨top', bindings', hroot', hleads', -, helements⟩ :=
      World.walk_entry_arrives (World.ground?_of_volume hvolume) hvisit
    rw [hentry] at hleads'
    obtain ⟨-, hordinal, -, rfl⟩ :=
      (h.expands_after hn).evolves.sound.route_unique hroot' hroot hleads' hleads
    -- the walk and the handle name one route, which has one path up to spelling
    have hpath : visit.path = opening.volume.pathOf opening.resolved.root
        (bindings.map Binding.name ++ [binding.name]) := by
      rw [World.trail_pathOf hvisit, hordinal, helements]
      simp [Volume.pathOf, Volume.takePlace]
    constructor
    · refine ⟨bindings.map Binding.name, binding.name, given, ?_, ?_, hkey⟩
      · rw [hpath, hresolved]
        rfl
      · rw [hresolved]
        rfl
    · intro hnew
      rw [hpath, hfresh hnew, ← hresolved]

/-- A file that a walk comes to is what is opened to be created at its path, and no name is added
or taken away. -/
theorem VolumeId.openFile_finds {visit : Visit} {file : FileNode} (hn : world.namespace.Sound)
    (hvolume : world.volume id = .ok volume) (hcreate : options.create = true)
    (hnew : options.createNew = false) (hwrite : options.write = true)
    (hkeeps : (options.append && options.truncate) = false)
    (hroom : volume.openHandles < volume.config.limits.maxOpenHandles.toNat)
    (hvisit : world.visit id text true = .ok (volume, visit))
    (hfile : world.namespace.node? visit.entry = some (.file file)) :
    ∃ handle opened held, id.openFile text options world = (.ok handle, opened) ∧
      opened.handle handle = .ok held ∧ held.entry = visit.entry ∧
      ∀ directory binding, opened.namespace.Binds directory binding ↔
        world.namespace.Binds directory binding := by
  obtain ⟨path, hparse, hwalk⟩ : ∃ path, volume.parse text = .ok path ∧
      world.walk volume path (.entry true) true = .ok visit := by
    unfold World.visit at hvisit
    obtain ⟨found, hfound, hvisit⟩ := exists_of_bind_ok hvisit
    obtain ⟨path, hparse, hvisit⟩ := exists_of_bind_ok hvisit
    obtain ⟨walked, hwalk, hvisit⟩ := exists_of_bind_ok hvisit
    cases hvisit
    exact ⟨path, hparse, hwalk⟩
  obtain ⟨resolved, htarget⟩ := World.openTrail_of_walk hn hvolume hcreate hnew hwalk hfile
  have htree := (World.walk_entry_arrives (World.ground?_of_volume hvolume) hwalk).inTree
  have hlive := hn.bound_live (hn.names_of_file htree hfile).1 hfile
  have hwrites : (options.creates && !options.write) = false := by
    rw [hwrite]
    exact Bool.and_false _
  obtain ⟨handle, opened, hopen, hopens⟩ :=
    openFile_existing hwrites hkeeps hvolume hparse hroom htarget hfile hlive
  have hsame := namespace_takePlace id world
  refine ⟨handle, opened, _, hopen, hopens.handle, rfl, fun directory binding => ?_⟩
  rw [hopens.binds (hsame ▸ hfile), hsame]

/-- Opening to create agrees with walking on what a path means. If a walk comes to a file, that
file is opened and names stay as they are. Of what was opened the path of the handle is the
canonical path, except that an existing file keeps its stored spelling of the last name, and
that a walk gives up where it meets a link twice. -/
theorem creating_agrees_with_walking (h : Reachable world) (hvolume : world.volume id = .ok volume)
    (hcreate : options.create = true) (hnew : options.createNew = false) :
    (∀ visit file, options.write = true → (options.append && options.truncate) = false →
      volume.openHandles < volume.config.limits.maxOpenHandles.toNat →
      world.visit id text true = .ok (volume, visit) →
      world.namespace.node? visit.entry = some (.file file) →
      ∃ handle opened held, id.openFile text options world = (.ok handle, opened) ∧
        opened.handle handle = .ok held ∧ held.entry = visit.entry ∧
        ∀ directory binding, opened.namespace.Binds directory binding ↔
          world.namespace.Binds directory binding) ∧
    (∀ handle opened, id.openFile text options world = (.ok handle, opened) →
      ∃ held, opened.handle handle = .ok held ∧
        (opened.canonicalize id text = .error .linkLoop ∨
          ∃ canonical, opened.canonicalize id text = .ok canonical ∧
            canonical.Respells volume.collation held.path ∧
            (volume.collation = .sensitive ∨ world.namespace.node? held.entry = none →
              canonical = held.path))) := by
  refine ⟨fun visit file hwrite hkeeps hroom hvisit hfile =>
    id.openFile_finds h.sound hvolume hcreate hnew hwrite hkeeps hroom hvisit hfile, ?_⟩
  intro handle opened hopen
  have htransacts := id.openFile_transacts h.sound text options
  unfold Transacts at htransacts
  rw [hopen] at htransacts
  obtain ⟨opening, htakes⟩ := htransacts
  obtain rfl : volume = opening.volume := Except.ok.inj (hvolume.symm.trans htakes.volume)
  have hcreates : options.creates = true := by
    unfold OpenOptions.creates
    rw [hcreate, Bool.true_or]
  refine ⟨_, htakes.opens.handle, ?_⟩
  rcases htakes.canonical h.sound hcreates with hloop | ⟨canonical, hcanonical, hspelled, hfresh⟩
  · exact .inl hloop
  · refine .inr ⟨canonical, hcanonical, hspelled, ?_⟩
    rintro (hsensitive | hnone)
    · obtain ⟨front, name, name', hpath, hheld, hkey⟩ := hspelled
      rw [hsensitive, Collation.key_sensitive, Collation.key_sensitive] at hkey
      rw [hpath, hkey, ← hheld]
    · exact hfresh hnone

end Afterwards

namespace World

/-- A volume with a file and two links that lead to it, one through the other. -/
def threaded : World :=
  List.foldl Call.perform {} [.newVolume {}, .onPath ⟨0⟩ (.createSymlink "/l" "/"),
    .onPath ⟨0⟩ (.createSymlink "/x" "l/y"), .writeAll ⟨0⟩ "/y" [100]]

theorem reachable_threaded : Reachable threaded := Reachable.start.run _

theorem threaded_volume : threaded.volume ⟨0⟩ = .ok { config := {}, roots := [⟨0⟩] } := by
  decide +kernel

theorem threaded_visit : threaded.visit ⟨0⟩ "/x" true =
    .ok ({ config := {}, roots := [⟨0⟩] }, ⟨⟨3⟩, [⟨0⟩, ⟨3⟩], ⟨0, "/", ["y"], true⟩⟩) := by
  decide +kernel

/-- A volume that tells names apart without regard to case. -/
def folded : World :=
  List.foldl Call.perform {} [.newVolume { collation := .insensitivePreserving },
    .writeAll ⟨0⟩ "/Foo" []]

end World

/-- Through both links the file is opened that a walk arrives at, under its own path. -/
theorem threaded_create_agrees :
    ∃ handle opened held,
      VolumeId.openFile ⟨0⟩ "/x" .creating World.threaded = (.ok handle, opened) ∧
      opened.handle handle = .ok held ∧ held.entry = ⟨3⟩ ∧
      opened.canonicalize ⟨0⟩ "/x" = .ok held.path := by
  obtain ⟨hfinds, hcanonical⟩ := @creating_agrees_with_walking _ _ _ "/x" .creating
    World.reachable_threaded World.threaded_volume rfl rfl
  have hnode : World.threaded.namespace.node? ⟨3⟩ = some (.file { inode := ⟨0⟩ }) := by
    decide +kernel
  obtain ⟨handle, opened, held, hopen, hheld, hentry, -⟩ :=
    hfinds _ _ rfl rfl (by decide) World.threaded_visit hnode
  obtain ⟨held', hheld', hpath⟩ := hcanonical handle opened hopen
  obtain rfl := Except.ok.inj (hheld.symm.trans hheld')
  refine ⟨handle, opened, held, hopen, hheld, hentry, ?_⟩
  rcases hpath with hloop | ⟨canonical, hok, -, hsame⟩
  · have hrun : (VolumeId.openFile ⟨0⟩ "/x" .creating World.threaded).2.canonicalize ⟨0⟩ "/x" ≠
        .error .linkLoop := by decide +kernel
    rw [hopen] at hrun
    exact absurd hloop hrun
  · rw [hok, hsame (.inl rfl)]

/-- What is opened to be created through both links of the volume has no canonical path, since a
walk meets the first link again behind the second. Without regard to case, the handle of a file
that is there spells its name as it was given, and the canonical path as it is stored. -/
theorem entwined_create_differs :
    (Reachable World.entwined ∧
      ((VolumeId.openFile ⟨0⟩ "/l/x" .creating World.entwined).2.handle ⟨0⟩).map Handle.path =
        .ok ⟨0, "/", ["y"], true⟩ ∧
      (VolumeId.openFile ⟨0⟩ "/l/x" .creating World.entwined).2.canonicalize ⟨0⟩ "/l/x" =
        .error .linkLoop) ∧
    Reachable World.folded ∧
      ((VolumeId.openFile ⟨0⟩ "/FOO" .creating World.folded).2.handle ⟨1⟩).map Handle.path =
        .ok ⟨0, "/", ["FOO"], true⟩ ∧
      (VolumeId.openFile ⟨0⟩ "/FOO" .creating World.folded).2.canonicalize ⟨0⟩ "/FOO" =
        .ok ⟨0, "/", ["Foo"], true⟩ :=
  ⟨⟨World.reachable_entwined, by decide +kernel, by decide +kernel⟩,
    Reachable.start.run _, by decide +kernel, by decide +kernel⟩

end RamFs
