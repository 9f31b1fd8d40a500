import RamFs.Relocation
import RamFs.Proofs.Action
import RamFs.Proofs.Namespace.Sound

/-!
Where walks arrive. Whatever links a walk followed, it arrives at the end of a route of names
below one root, and the route and the path that it reports are the entries and the stored names
along that route. Of a world they see nothing but its nodes.
-/

namespace RamFs

open RamFs.Action

/-- The names that a walk reports without having looked them up. -/
def Goal.unresolved : Goal → List String → List String
  | .entry _, _ => []
  | .parent, names => names.getLast?.toList

/-- The visit came to its entry along a route below a root of the volume. Its path spells the
names on the route and then `rest`. -/
def Visit.Arrives (visit : Visit) (n : Namespace) (id : VolumeId) (rest : List String) : Prop :=
  ∃ top bindings, n.IsRoot id visit.path.root top ∧ n.Leads top bindings visit.entry ∧
    visit.route = top :: bindings.map Binding.entry ∧
    visit.path.elements = bindings.map Binding.name ++ rest

theorem Visit.Arrives.inTree {visit : Visit} {n : Namespace} {id : VolumeId} {rest : List String}
    (h : visit.Arrives n id rest) : n.InTree id visit.entry := by
  obtain ⟨top, bindings, hroot, hleads, _⟩ := h
  exact ⟨_, top, bindings, hroot, hleads⟩

namespace World

variable {world : World} {id : VolumeId} {volume : Volume} {collation : Collation} {goal : Goal}
  {followLinks followLast : Bool} {here entry : EntryId} {route route' unseen : List EntryId}
  {walked walked' names rest : List String} {root : Nat} {path : Path} {visit : Visit}

/-! ### One pass -/

/-- Whether a pass for this goal follows a link that stands before the rest of the names. -/
def followsAt (goal : Goal) (followLinks : Bool) (rest : List String) : Bool :=
  match goal, rest with
  | .entry followLast, [] => followLast
  | _, _ => followLinks

theorem ne_nil_of_entry_eq_parent (h : Goal.entry followLast = .parent) : names ≠ [] :=
  nomatch h

theorem pass_last_of_parent {name : String} :
    world.pass collation .parent followLinks here route walked [name] =
      world.directory here >>= fun _ => .ok (.arrived here route (walked ++ [name])) := by
  unfold World.pass
  rfl

theorem pass_cons {name : String} (hgoal : goal = .parent → rest ≠ []) :
    world.pass collation goal followLinks here route walked (name :: rest) =
      world.directory here >>= fun directory =>
        match directory.find? collation name with
        | none => .error .notFound
        | some binding =>
          match world.linkTarget? binding.entry with
          | none => world.pass collation goal followLinks binding.entry
              (route ++ [binding.entry]) (walked ++ [binding.name]) rest
          | some target =>
            if followsAt goal followLinks rest then .ok (.detour binding.entry target walked rest)
            else if rest.isEmpty then
              .ok (.arrived binding.entry (route ++ [binding.entry]) (walked ++ [binding.name]))
            else .error .notADirectory := by
  conv_lhs => unfold World.pass
  congr 1
  funext directory
  split
  case h_1 => exact absurd rfl (hgoal rfl)
  case h_2 =>
    cases directory.find? collation name with
    | none => rfl
    | some binding =>
        cases world.linkTarget? binding.entry with
        | none => rfl
        | some target => rfl

theorem passFrom_of_names (hgoal : goal = .parent → names ≠ []) :
    world.passFrom volume goal followLinks root names =
      match volume.roots[root]? with
      | some top => world.pass volume.collation goal followLinks top [top] [] names
      | none => .error .notFound := by
  unfold World.passFrom
  split
  case h_1 => exact absurd rfl (hgoal rfl)
  case h_2 => rfl

theorem passFrom_eq_ok {pass : Pass} :
    world.passFrom volume goal followLinks root names = .ok pass ↔
      (goal = .parent → names ≠ []) ∧ ∃ top, volume.roots[root]? = some top ∧
        world.pass volume.collation goal followLinks top [top] [] names = .ok pass := by
  unfold World.passFrom
  split
  case h_1 => exact ⟨nofun, fun h => absurd rfl (h.1 rfl)⟩
  case h_2 hgoal =>
    cases volume.roots[root]? with
    | none => exact ⟨nofun, nofun⟩
    | some top =>
        refine ⟨fun h => ⟨fun hparent hnames => hgoal hparent hnames, top, rfl, h⟩, ?_⟩
        rintro ⟨_, _, htop, h⟩
        obtain rfl := Option.some.inj htop
        exact h

theorem pass_arrived (h : world.pass collation goal followLinks here route walked names =
    .ok (.arrived entry route' walked')) :
    ∃ bindings, world.namespace.Leads here bindings entry ∧
      route' = route ++ bindings.map Binding.entry ∧
      walked' = walked ++ bindings.map Binding.name ++ goal.unresolved names := by
  induction names generalizing here route walked with
  | nil =>
      unfold World.pass at h
      cases h
      refine ⟨[], .top, by simp, ?_⟩
      cases goal <;> simp [Goal.unresolved]
  | cons name rest ih =>
      by_cases hend : goal = .parent ∧ rest = []
      · obtain ⟨rfl, rfl⟩ := hend
        rw [pass_last_of_parent] at h
        obtain ⟨_, _, h⟩ := exists_of_bind_ok h
        cases h
        exact ⟨[], .top, by simp, by simp [Goal.unresolved]⟩
      have hgoal : goal = .parent → rest ≠ [] := fun hparent hrest => hend ⟨hparent, hrest⟩
      have hlast : goal.unresolved (name :: rest) = goal.unresolved rest := by
        cases goal with
        | entry followLast => rfl
        | parent =>
            obtain ⟨next, later, rfl⟩ := List.exists_cons_of_ne_nil (hgoal rfl)
            simp [Goal.unresolved, List.getLast?_cons_cons]
      rw [pass_cons hgoal] at h
      obtain ⟨directory, hdirectory, h⟩ := exists_of_bind_ok h
      split at h
      case h_1 => cases h
      case h_2 binding hfind =>
      -- one binding further down, and from there on as the rest of the pass says
      have hfirst : world.namespace.Leads here [binding] binding.entry := by
        refine Namespace.Leads.step (.top) ⟨directory, directory_eq_ok.1 hdirectory, ?_⟩
        exact Directory.find?_mem hfind
      split at h
      case h_1 =>
        obtain ⟨bindings, hleads, hroute, hwalked⟩ := ih h
        refine ⟨binding :: bindings, hfirst.append hleads, ?_, ?_⟩
        · simpa using hroute
        · rw [hlast]
          simpa using hwalked
      case h_2 =>
        rcases ite_eq_iff.1 h with ⟨_, h⟩ | ⟨_, h⟩
        · cases h
        · rcases ite_eq_iff.1 h with ⟨hrest, h⟩ | ⟨_, h⟩
          · cases h
            refine ⟨[binding], hfirst, by simp, ?_⟩
            rw [hlast, List.isEmpty_iff.1 hrest]
            cases goal <;> simp [Goal.unresolved]
          · cases h

theorem passFrom_arrived (hground : world.namespace.ground? id = some volume.ground)
    (h : world.passFrom volume goal followLinks root names = .ok (.arrived entry route walked)) :
    (goal = .parent → names ≠ []) ∧ ∃ top bindings, world.namespace.IsRoot id root top ∧
      world.namespace.Leads top bindings entry ∧ route = top :: bindings.map Binding.entry ∧
      walked = bindings.map Binding.name ++ goal.unresolved names := by
  obtain ⟨hgoal, top, htop, hpass⟩ := passFrom_eq_ok.1 h
  obtain ⟨bindings, hleads, hroute, hwalked⟩ := pass_arrived hpass
  exact ⟨hgoal, top, bindings, ⟨volume.ground, hground, htop⟩, hleads, hroute, hwalked⟩

/-! ### Whole walks -/

/-- Every pass begins at a root again, so that where the last one arrives is where the walk
arrives. -/
theorem trail_arrives (hground : world.namespace.ground? id = some volume.ground)
    (h : (world.trail volume goal followLinks unseen root names).outcome = .ok visit) :
    ∃ names, (goal = .parent → names ≠ []) ∧
      visit.Arrives world.namespace id (goal.unresolved names) := by
  fun_induction World.trail world volume goal followLinks unseen root names with
  | case1 => cases h
  | case2 unseen root names entry route walked hpass =>
      cases h
      obtain ⟨hnames, top, bindings, hroot, hleads, hroute, hwalked⟩ :=
        passFrom_arrived hground hpass
      exact ⟨names, hnames, top, bindings, hroot, hleads, hroute, hwalked⟩
  | case3 => cases h
  | case4 _ _ _ _ _ _ _ _ _ _ _ _ _ ih => exact ih h
  | case5 => cases h

theorem walk_entry_arrives (hground : world.namespace.ground? id = some volume.ground)
    (h : world.walk volume path (.entry followLast) followLinks = .ok visit) :
    visit.Arrives world.namespace id [] := by
  obtain ⟨_, _, harrives⟩ := trail_arrives hground h
  exact harrives

theorem walk_parent_arrives (hground : world.namespace.ground? id = some volume.ground)
    (h : world.walk volume path .parent followLinks = .ok visit) :
    ∃ name, visit.Arrives world.namespace id [name] ∧ visit.path.fileName? = some name := by
  obtain ⟨names, hnames, harrives⟩ := trail_arrives hground h
  obtain ⟨name, hlast⟩ := Option.isSome_iff_exists.1 (List.getLast?_isSome.2 (hnames rfl))
  have hrest : Goal.parent.unresolved names = [name] := by simp [Goal.unresolved, hlast]
  rw [hrest] at harrives
  refine ⟨name, harrives, ?_⟩
  obtain ⟨_, _, _, _, _, helements⟩ := harrives
  rw [Path.fileName?, helements, List.getLast?_concat]

theorem visit_eq {text : String} (hvolume : world.volume id = .ok volume)
    (hparse : volume.parse text = .ok path) :
    world.visit id text followLast =
      (world.walk volume path (.entry followLast) true).map fun found => (volume, found) := by
  unfold World.visit
  rw [hvolume]
  change (volume.parse text >>= fun path =>
    world.walk volume path (.entry followLast) true >>= fun found => .ok (volume, found)) = _
  rw [hparse]
  change (world.walk volume path (.entry followLast) true >>= fun found => .ok (volume, found)) = _
  cases world.walk volume path (.entry followLast) true <;> rfl

/-- A slot is where the walk to the parent of its path arrives, with the last name of the path. -/
theorem slot_found {slot : Slot} (h : world.slot id volume path = .ok slot) :
    ∃ name parent found names, path.fileName? = some name ∧ path.parent? = some parent ∧
      world.walk volume parent (.entry true) true = .ok found ∧
      world.directory found.entry = .ok names ∧
      slot = ⟨id, found.entry, found.route, found.path, name⟩ := by
  unfold World.slot at h
  split at h
  case h_2 => cases h
  case h_1 name hname =>
    split at h
    case h_2 => cases h
    case h_1 parent hparent =>
      obtain ⟨found, hfound, h⟩ := exists_of_bind_ok h
      obtain ⟨names, hnames, h⟩ := exists_of_bind_ok h
      exact ⟨name, parent, found, names, hname, hparent, hfound, hnames, (Except.ok.inj h).symm⟩

/-! ### Walks that go the same way -/

variable {after : World} {volume' : Volume}

theorem linkTarget?_congr (h : after.namespace.node? = world.namespace.node?) :
    after.linkTarget? = world.linkTarget? := by
  funext id
  rw [linkTarget?_eq, linkTarget?_eq, h]

/-- The links are the links below any bound that no entry exceeds. -/
theorem links_eq {bound : Nat} (h : world.entries.size ≤ bound) :
    world.links = ((List.range bound).map EntryId.mk).filter fun id =>
      (world.linkTarget? id).isSome := by
  obtain ⟨count, rfl⟩ := Nat.exists_eq_add_of_le h
  have hnone : ∀ id ∈ ((List.range count).map (world.entries.size + ·)).map EntryId.mk,
      ¬(world.linkTarget? id).isSome = true := by
    intro id hid
    obtain ⟨_, hindex, rfl⟩ := List.mem_map.1 hid
    obtain ⟨offset, _, rfl⟩ := List.mem_map.1 hindex
    unfold World.linkTarget?
    rw [Array.getElem?_eq_none (Nat.le_add_right ..)]
    exact Bool.false_ne_true
  rw [List.range_add, List.map_append, List.filter_append, List.filter_eq_nil_iff.2 hnone,
    List.append_nil]
  rfl

theorem links_congr (h : after.linkTarget? = world.linkTarget?) : after.links = world.links := by
  rw [links_eq (Nat.le_max_left after.entries.size world.entries.size),
    links_eq (Nat.le_max_right after.entries.size world.entries.size), h]

/-- All that a walk in a volume sees: the names in directories, where links point, and the roots
and the configuration of the volume. -/
structure GuidesAlike (world : World) (volume : Volume) (after : World) (volume' : Volume) :
    Prop where
  directory : after.directory = world.directory
  linkTarget? : after.linkTarget? = world.linkTarget?
  config : volume'.config = volume.config
  roots : volume'.roots = volume.roots

theorem GuidesAlike.of_nodes (h : after.namespace.node? = world.namespace.node?)
    (volume : Volume) : world.GuidesAlike volume after volume where
  directory := by
    funext id
    rw [directory_eq, directory_eq, h]
  linkTarget? := linkTarget?_congr h
  config := rfl
  roots := rfl

namespace GuidesAlike

theorem collates (h : world.GuidesAlike volume after volume') :
    volume'.collation = volume.collation :=
  congrArg Config.collation h.config

theorem pathOf (h : world.GuidesAlike volume after volume') (root : Nat) (names : List String) :
    volume'.pathOf root names = volume.pathOf root names := by
  unfold Volume.pathOf
  rw [h.config]

theorem spliceLink (h : world.GuidesAlike volume after volume') (target : String) (root : Nat)
    (directory rest : List String) :
    volume'.spliceLink target root directory rest =
      volume.spliceLink target root directory rest := by
  unfold Volume.spliceLink Volume.parse
  rw [h.collates, h.config]

theorem pass (h : world.GuidesAlike volume after volume') (collation : Collation) (goal : Goal)
    (followLinks : Bool) (here : EntryId) (route : List EntryId) (walked names : List String) :
    after.pass collation goal followLinks here route walked names =
      world.pass collation goal followLinks here route walked names := by
  induction names generalizing here route walked with
  | nil =>
    unfold World.pass
    rfl
  | cons name rest ih =>
      unfold World.pass
      simp only [h.directory, h.linkTarget?, ih]

theorem passFrom (h : world.GuidesAlike volume after volume') (goal : Goal) (followLinks : Bool)
    (root : Nat) (names : List String) :
    after.passFrom volume' goal followLinks root names =
      world.passFrom volume goal followLinks root names := by
  unfold World.passFrom
  simp only [h.pass, h.collates, h.roots]

end GuidesAlike

theorem length_erase_lt {link : EntryId} (h : link ∈ unseen) :
    (unseen.erase link).length < unseen.length := by
  rw [List.length_erase_of_mem h]
  exact Nat.sub_lt (List.length_pos_of_mem h) Nat.one_pos

theorem GuidesAlike.trail (h : world.GuidesAlike volume after volume') (goal : Goal)
    (followLinks : Bool) (unseen : List EntryId) (root : Nat) (names : List String) :
    after.trail volume' goal followLinks unseen root names =
      world.trail volume goal followLinks unseen root names := by
  induction hlength : unseen.length using Nat.strongRecOn generalizing unseen root names with
  | _ length ih =>
  unfold World.trail
  rw [h.passFrom]
  split
  case h_1 => rfl
  case h_2 => rw [h.pathOf]
  case h_3 link target walked rest _ =>
    split
    case isFalse => rfl
    case isTrue hlink =>
      rw [h.spliceLink]
      split
      case h_1 => rfl
      case h_2 =>
        rw [ih (unseen.erase link).length (hlength ▸ length_erase_lt hlink) _ _ _ rfl]

/-- A walk sees nothing else. -/
theorem GuidesAlike.walk (h : world.GuidesAlike volume after volume') (path : Path) (goal : Goal)
    (followLinks : Bool) :
    after.walk volume' path goal followLinks = world.walk volume path goal followLinks := by
  unfold World.walk
  rw [links_congr h.linkTarget?, h.trail]

theorem walk_congr (h : after.namespace.node? = world.namespace.node?) (volume : Volume)
    (path : Path) (goal : Goal) (followLinks : Bool) :
    after.walk volume path goal followLinks = world.walk volume path goal followLinks :=
  (GuidesAlike.of_nodes h volume).walk path goal followLinks

end World

end RamFs
