import RamFs.Proofs.Namespace.Legs
import RamFs.Proofs.Namespace.Listing

/-!
The last name of a path. A walk that does not follow a link at the end goes to the directory of the
last name, as a walk to that directory does, and looks the name up there. So it comes to an entry
if and only if that directory binds the last name to the entry.
-/

namespace RamFs

open RamFs.Action

/-- The directory that the last name of a path is looked up in, and what it is bound to there. -/
structure Ending where
  parent : Visit
  names : Directory
  name : String
  binding : Binding

namespace World

variable {world : World} {id : VolumeId} {volume : Volume} {path : Path} {visit : Visit}
  {ending : Ending} {entry : EntryId} {file : FileNode}

/-- The last name of the path is found, whatever it is bound to. -/
structure Ends (world : World) (volume : Volume) (path : Path) (ending : Ending) : Prop where
  parent : world.walk volume path .parent true = .ok ending.parent
  name : ending.parent.path.fileName? = some ending.name
  names : world.directory ending.parent.entry = .ok ending.names
  found : ending.names.find? volume.collation ending.name = some ending.binding

/-- What a walk comes to that has arrived in the directory of the last name. -/
def lookLast (world : World) (volume : Volume) (parent : Visit) : Except Failure Visit := do
  let some name := parent.path.fileName? | throw .invalidArgument
  let names ← world.directory parent.entry
  let some binding := names.find? volume.collation name | throw .notFound
  return ⟨binding.entry, parent.route ++ [binding.entry],
    parent.path.withElements (parent.path.elements.dropLast ++ [binding.name])⟩

/-- Behind the last name of a walked path stands what the lookup of that name finds. -/
theorem lookLast_walked (route : List EntryId) (root : Nat) (walked : List String) (name : String) :
    world.lookLast volume ⟨entry, route, volume.pathOf root (walked ++ [name])⟩ =
      world.directory entry >>= fun names =>
        match names.find? volume.collation name with
        | none => .error .notFound
        | some binding => .ok ⟨binding.entry, route ++ [binding.entry],
            volume.pathOf root (walked ++ [binding.name])⟩ := by
  have hname : (volume.pathOf root (walked ++ [name])).fileName? = some name :=
    List.getLast?_concat
  unfold lookLast
  dsimp only
  rw [hname]
  dsimp only [Volume.pathOf, Path.withElements]
  rw [List.dropLast_concat]
  cases world.directory entry with
  | error failure => rfl
  | ok names =>
      rw [ok_bind, ok_bind]
      cases names.find? volume.collation name <;> rfl

/-- Passes over the names before the last one lead both walks to the same directory. -/
theorem trail_through_last (unseen : List EntryId) (root : Nat) (front : List String)
    (name : String) :
    (world.trail volume (.entry false) true unseen root (front ++ [name])).outcome =
      (world.trail volume .parent true unseen root (front ++ [name])).outcome >>=
        world.lookLast volume := by
  have hnames : [name] ≠ [] := List.cons_ne_nil _ _
  rw [trail_outcome volume (.entry false), trail_outcome volume .parent, passFrom_append hnames,
    passFrom_append hnames]
  fun_induction World.trail world volume (.entry true) true unseen root front with
  | case1 unseen root front failure hpass =>
      rw [hpass]
      rfl
  | case2 unseen root front entry route walked hpass =>
      rw [hpass, ok_bind, ok_bind]
      dsimp only [Pass.further]
      rw [pass_last_of_parent]
      cases hdirectory : world.directory entry with
      | error failure =>
          rw [pass_cons ne_nil_of_entry_eq_parent, hdirectory]
          rfl
      | ok names =>
          rw [pass_name hdirectory, ok_bind]
          dsimp only
          rw [ok_bind, lookLast_walked, hdirectory, ok_bind]
          cases names.find? volume.collation name <;> rfl
  | case3 unseen root front link target walked rest hpass hlink failure hsplice =>
      rw [hpass, ok_bind, ok_bind]
      dsimp only [Pass.further]
      rw [if_pos hlink, if_pos hlink, volume.spliceLink_append, hsplice]
      rfl
  | case4 unseen root front link target walked rest hpass hlink root' front' hsplice later ih =>
      rw [hpass, ok_bind, ok_bind]
      dsimp only [Pass.further]
      rw [if_pos hlink, if_pos hlink, volume.spliceLink_append, hsplice]
      rw [← passFrom_append hnames, ← passFrom_append hnames, ← trail_outcome,
        ← trail_outcome] at ih
      exact ih
  | case5 unseen root front link target walked rest hpass hlink =>
      rw [hpass, ok_bind, ok_bind]
      dsimp only [Pass.further]
      rw [if_neg hlink, if_neg hlink]
      rfl

/-- Below a root, a walk that does not follow a link at the end is a walk to the directory of the
last name and a lookup there. -/
theorem walk_through_last (hroot : path.isRoot = false) :
    world.walk volume path (.entry false) true =
      world.walk volume path .parent true >>= world.lookLast volume := by
  have hnames : path.elements ≠ [] := by
    intro hnil
    rw [Path.isRoot, hnil] at hroot
    cases hroot
  obtain ⟨front, name, helements⟩ := (List.eq_nil_or_concat' path.elements).resolve_left hnames
  unfold World.walk
  rw [helements]
  exact trail_through_last _ _ front name

/-- A root is in no directory. -/
theorem walk_parent_not_root (h : world.walk volume path .parent true = .ok visit) :
    path.isRoot = false := by
  rw [Bool.eq_false_iff]
  intro hroot
  unfold World.walk at h
  rw [List.isEmpty_iff.1 hroot, trail_outcome] at h
  cases h

/-- In a world that guides walks alike a path ends alike. -/
theorem GuidesAlike.ends {after : World} {volume' : Volume}
    (h : world.GuidesAlike volume after volume') :
    after.Ends volume' path ending ↔ world.Ends volume path ending := by
  constructor <;> rintro ⟨hparent, hname, hnames, hfound⟩
  · exact ⟨h.walk .. ▸ hparent, hname, h.directory ▸ hnames, h.collates ▸ hfound⟩
  · exact ⟨h.walk .. ▸ hparent, hname, h.directory ▸ hnames, h.collates ▸ hfound⟩

/-- The path of a root leads to the root. -/
theorem walk_root {followLast followLinks : Bool} (hvolume : world.volume id = .ok volume)
    (hroot : path.isRoot = true)
    (h : world.walk volume path (.entry followLast) followLinks = .ok visit) :
    world.namespace.IsRoot id path.root visit.entry := by
  unfold World.walk at h
  rw [List.isEmpty_iff.1 hroot, trail_outcome, passFrom_of_names ne_nil_of_entry_eq_parent] at h
  cases htop : volume.roots[path.root]? with
  | none =>
      rw [htop] at h
      cases h
  | some top =>
      rw [htop] at h
      dsimp only at h
      rw [pass_nil] at h
      cases h
      exact ⟨volume.ground, ground?_of_volume hvolume, htop⟩

/-- A walk that does not follow a link at the end comes to a file if and only if the directory of
the last name binds that name to it. -/
theorem walk_ends (hn : world.namespace.Sound) (hvolume : world.volume id = .ok volume)
    (hfile : world.namespace.node? entry = some (.file file)) (path : Path) :
    (∃ visit, world.walk volume path (.entry false) true = .ok visit ∧ visit.entry = entry) ↔
      ∃ ending, world.Ends volume path ending ∧ ending.binding.entry = entry := by
  constructor
  · rintro ⟨visit, hwalk, rfl⟩
    have hroot : path.isRoot = false := by
      rw [Bool.eq_false_iff]
      intro hroot
      obtain ⟨names, hnames⟩ := hn.root_directory (walk_root hvolume hroot hwalk)
      rw [hfile] at hnames
      cases hnames
    rw [walk_through_last hroot] at hwalk
    obtain ⟨parent, hparent, hlook⟩ := exists_of_bind_ok hwalk
    unfold lookLast at hlook
    split at hlook
    case h_2 => cases hlook
    case h_1 name hname =>
    obtain ⟨names, hnames, hlook⟩ := exists_of_bind_ok hlook
    split at hlook
    case h_2 => cases hlook
    case h_1 binding hfind =>
    refine ⟨⟨parent, names, name, binding⟩, ⟨hparent, hname, hnames, hfind⟩, ?_⟩
    exact congrArg Visit.entry (Except.ok.inj hlook)
  · rintro ⟨ending, hends, rfl⟩
    refine ⟨⟨ending.binding.entry, ending.parent.route ++ [ending.binding.entry],
      ending.parent.path.withElements
        (ending.parent.path.elements.dropLast ++ [ending.binding.name])⟩, ?_, rfl⟩
    rw [walk_through_last (walk_parent_not_root hends.parent), hends.parent, ok_bind]
    unfold lookLast
    rw [hends.name]
    dsimp only
    rw [hends.names, ok_bind, hends.found]
    rfl

end World

end RamFs
