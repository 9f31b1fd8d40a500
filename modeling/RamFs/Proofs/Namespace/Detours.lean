import Mathlib.Logic.Relation
import RamFs.Handle.Open
import RamFs.Proofs.Action
import RamFs.Proofs.Namespace.Walks

/-!
Where a path leads if links are followed as often as it takes. A file to create is looked for
name by name, with a walk of its own to each directory on the way, and a file to open with one
walk that follows no link twice. Both take the same detours: what the first finds or makes is
where the second arrives, unless it meets a link again and gives up.
-/

namespace RamFs

open RamFs.Action

namespace World

variable {world after : World} {volume : Volume} {collation : Collation} {goal : Goal}
  {followLinks createNew : Bool} {here entry : EntryId} {route route' unseen : List EntryId}
  {walked walked' names rest : List String} {root : Nat} {path : Path} {visit : Visit}
  {course last : Nat × List String}

/-! ### What stays found -/

/-- Every name that is found before is found afterwards, bound to the same entry, and links are
the same. -/
structure Retains (world after : World) : Prop where
  found : ∀ {id names}, world.directory id = .ok names → ∃ names', after.directory id = .ok names' ∧
    ∀ {collation name binding}, names.find? collation name = some binding →
      names'.find? collation name = some binding
  links : after.linkTarget? = world.linkTarget?

theorem Retains.of_same (h : after.namespace.node? = world.namespace.node?) :
    world.Retains after where
  found := by
    intro id names hnames
    rw [directory_eq, ← h, ← directory_eq] at hnames
    exact ⟨names, hnames, fun hfind => hfind⟩
  links := linkTarget?_congr h

theorem Retains.trans {final : World} (h : world.Retains after) (h' : after.Retains final) :
    world.Retains final where
  found := by
    intro id names hnames
    obtain ⟨names', hnames', hfind⟩ := h.found hnames
    obtain ⟨names'', hnames'', hfind'⟩ := h'.found hnames'
    exact ⟨names'', hnames'', fun h => hfind' (hfind h)⟩
  links := h'.links.trans h.links

/-! ### One pass -/

/-- A pass that comes to an end goes the same way where names were added. -/
theorem Retains.pass (h : world.Retains after) {pass : Pass}
    (hpass : world.pass collation goal followLinks here route walked names = .ok pass) :
    after.pass collation goal followLinks here route walked names = .ok pass := by
  induction names generalizing here route walked with
  | nil =>
      unfold World.pass at hpass ⊢
      exact hpass
  | cons name rest ih =>
      by_cases hlast : goal = .parent ∧ rest = []
      · obtain ⟨rfl, rfl⟩ := hlast
        rw [pass_last_of_parent] at hpass ⊢
        obtain ⟨directory, hdirectory, hpass⟩ := exists_of_bind_ok hpass
        obtain ⟨directory', hdirectory', _⟩ := h.found hdirectory
        rw [hdirectory']
        exact hpass
      · have hgoal : goal = .parent → rest ≠ [] := fun hparent hrest => hlast ⟨hparent, hrest⟩
        rw [pass_cons hgoal] at hpass ⊢
        obtain ⟨directory, hdirectory, hpass⟩ := exists_of_bind_ok hpass
        obtain ⟨directory', hdirectory', hfound⟩ := h.found hdirectory
        rw [hdirectory', ok_bind, h.links]
        split at hpass
        case h_1 => cases hpass
        case h_2 binding hfind =>
          rw [hfound hfind]
          dsimp only
          split at hpass
          case h_1 => exact ih hpass
          case h_2 => exact hpass

theorem Retains.passFrom (h : world.Retains after) {pass : Pass}
    (hpass : world.passFrom volume goal followLinks root names = .ok pass) :
    after.passFrom volume goal followLinks root names = .ok pass := by
  obtain ⟨hgoal, top, htop, hpass⟩ := passFrom_eq_ok.1 hpass
  exact passFrom_eq_ok.2 ⟨hgoal, top, htop, h.pass hpass⟩

/-- A pass to a directory meets the links that a pass through the directory meets. -/
theorem pass_of_parent_detour {link : EntryId} {target : String}
    (h : world.pass collation .parent true here route walked names =
      .ok (.detour link target walked' rest)) :
    world.pass collation (.entry true) true here route walked names =
      .ok (.detour link target walked' rest) := by
  induction names generalizing here route walked with
  | nil =>
      unfold World.pass at h
      cases h
  | cons name later ih =>
      cases later with
      | nil =>
          rw [pass_last_of_parent] at h
          obtain ⟨directory, _, h⟩ := exists_of_bind_ok h
          cases h
      | cons next later =>
          rw [pass_cons fun _ => List.cons_ne_nil _ _] at h
          rw [pass_cons ne_nil_of_entry_eq_parent]
          obtain ⟨directory, hdirectory, h⟩ := exists_of_bind_ok h
          rw [hdirectory, ok_bind]
          cases hfind : directory.find? collation name with
          | none =>
              rw [hfind] at h
              cases h
          | some binding =>
              rw [hfind] at h
              dsimp only at h ⊢
              cases hlink : world.linkTarget? binding.entry with
              | none =>
                  rw [hlink] at h
                  exact ih h
              | some met =>
                  rw [hlink] at h
                  exact h

/-- A pass that comes to the directory of a name goes on from there to the name. -/
theorem pass_of_parent_arrived {directory : EntryId}
    (h : world.pass collation .parent true here route walked names =
      .ok (.arrived directory route' walked')) (hnames : names ≠ []) :
    ∃ front name, walked' = front ++ [name] ∧
      world.pass collation (.entry true) true here route walked names =
        world.pass collation (.entry true) true directory route' front [name] := by
  induction names generalizing here route walked with
  | nil => exact absurd rfl hnames
  | cons name later ih =>
      cases later with
      | nil =>
          rw [pass_last_of_parent] at h
          obtain ⟨_, _, h⟩ := exists_of_bind_ok h
          cases h
          exact ⟨walked, name, rfl, rfl⟩
      | cons next later =>
          rw [pass_cons fun _ => List.cons_ne_nil _ _] at h
          obtain ⟨names, hdirectory, h⟩ := exists_of_bind_ok h
          split at h
          case h_1 => cases h
          case h_2 binding hfind =>
            split at h
            case h_2 => cases h
            case h_1 hlink =>
              obtain ⟨front, last, hwalked, hpass⟩ := ih h (List.cons_ne_nil _ _)
              refine ⟨front, last, hwalked, ?_⟩
              rw [← hpass, pass_cons ne_nil_of_entry_eq_parent, hdirectory, ok_bind, hfind]
              dsimp only
              rw [hlink]

/-! ### From detour to detour -/

/-- A pass from the root and the names that the course consists of meets a link, and the next
course is what stands for the link. -/
def Follows (world : World) (volume : Volume) (course next : Nat × List String) : Prop :=
  ∃ link target walked rest,
    world.passFrom volume (.entry true) true course.1 course.2 =
      .ok (.detour link target walked rest) ∧
    volume.spliceLink target course.1 walked rest = .ok next

/-- After some detours a pass arrives at the entry. No link is refused for being met again. -/
def Resolves (world : World) (volume : Volume) (course : Nat × List String) (entry : EntryId) :
    Prop :=
  ∃ last, Relation.ReflTransGen (world.Follows volume) course last ∧ ∃ route walked,
    world.passFrom volume (.entry true) true last.1 last.2 = .ok (.arrived entry route walked)

theorem Retains.follows (h : world.Retains after) {next : Nat × List String}
    (hfollows : Relation.ReflTransGen (world.Follows volume) course next) :
    Relation.ReflTransGen (after.Follows volume) course next := by
  refine Relation.ReflTransGen.mono ?_ _ _ hfollows
  rintro course next ⟨link, target, walked, rest, hpass, hsplice⟩
  exact ⟨link, target, walked, rest, h.passFrom hpass, hsplice⟩

/-- A walk follows the detours to their end, unless it meets a link that it has seen. -/
theorem Resolves.trail (h : world.Resolves volume course entry) (unseen : List EntryId) :
    (world.trail volume (.entry true) true unseen course.1 course.2).outcome =
        .error .linkLoop ∨
      ∃ visit, (world.trail volume (.entry true) true unseen course.1 course.2).outcome =
        .ok visit ∧ visit.entry = entry := by
  obtain ⟨last, hfollows, route, walked, harrived⟩ := h
  induction hfollows using Relation.ReflTransGen.head_induction_on generalizing unseen with
  | refl =>
      unfold World.trail
      rw [harrived]
      exact .inr ⟨_, rfl, rfl⟩
  | head hstep _ ih =>
      obtain ⟨link, target, walked, rest, hpass, hsplice⟩ := hstep
      unfold World.trail
      rw [hpass]
      dsimp only
      split
      case isFalse => exact .inl rfl
      case isTrue hlink =>
        rw [hsplice]
        exact ih _

/-- A walk to a directory takes the detours that a walk through the directory takes. -/
theorem trail_parent
    (h : (world.trail volume .parent true unseen root names).outcome = .ok visit) :
    ∃ last walked, Relation.ReflTransGen (world.Follows volume) (root, names) last ∧
      world.passFrom volume .parent true last.1 last.2 =
        .ok (.arrived visit.entry visit.route walked) ∧
      visit.path = volume.pathOf last.1 walked := by
  fun_induction World.trail world volume .parent true unseen root names with
  | case1 => cases h
  | case2 unseen root names entry route walked hpass =>
      cases h
      exact ⟨(root, names), walked, .refl, hpass, rfl⟩
  | case3 => cases h
  | case4 unseen root names link target walked rest hpass _ root' names' hsplice later ih =>
      obtain ⟨last, walked', hfollows, harrived, hpath⟩ := ih h
      refine ⟨last, walked', .head ?_ hfollows, harrived, hpath⟩
      obtain ⟨_, top, htop, hpass⟩ := passFrom_eq_ok.1 hpass
      exact ⟨link, target, walked, rest,
        passFrom_eq_ok.2 ⟨ne_nil_of_entry_eq_parent, top, htop, pass_of_parent_detour hpass⟩, hsplice⟩
  | case5 => cases h

/-! ### The name at the end -/

section LastName

variable {directory : EntryId} {names' : Directory} {name : String} {binding : Binding}

/-- Where a pass to the directory of a name arrives, a pass to the name looks it up. -/
theorem passFrom_last
    (hpass : world.passFrom volume .parent true last.1 last.2 =
      .ok (.arrived directory route walked))
    (hname : (volume.pathOf last.1 walked).fileName? = some name) :
    world.passFrom volume (.entry true) true last.1 last.2 =
      world.pass volume.collation (.entry true) true directory route walked.dropLast [name] := by
  obtain ⟨hnames, top, htop, hpass⟩ := passFrom_eq_ok.1 hpass
  obtain ⟨front, name', rfl, hlast⟩ := pass_of_parent_arrived hpass (hnames rfl)
  obtain rfl : name' = name := by
    rw [Path.fileName?] at hname
    change (front ++ [name']).getLast? = some name at hname
    rw [List.getLast?_concat] at hname
    exact Option.some.inj hname
  rw [List.dropLast_concat, ← hlast]
  unfold World.passFrom
  dsimp only
  rw [htop]

theorem pass_last (hnames : world.directory directory = .ok names')
    (hfind : names'.find? collation name = some binding) :
    world.pass collation (.entry true) true directory route walked [name] =
      match world.linkTarget? binding.entry with
      | none => .ok (.arrived binding.entry (route ++ [binding.entry]) (walked ++ [binding.name]))
      | some target => .ok (.detour binding.entry target walked []) := by
  rw [pass_cons ne_nil_of_entry_eq_parent, hnames, ok_bind, hfind]
  dsimp only
  unfold World.pass
  rfl

end LastName

/-! ### Looking for a file to create -/

/-- The entry is what the target stands for: what was found, or what the name that was free is
bound to by now. -/
def OpenTarget.Holds (after : World) (volume : Volume) (entry : EntryId) : OpenTarget → Prop
  | .existing found _ => entry = found
  | .vacant directory path => ∃ name names binding, path.fileName? = some name ∧
      after.directory directory = .ok names ∧
      names.find? volume.collation name = some binding ∧ binding.entry = entry ∧
      after.linkTarget? entry = none

/-- A course on which a pass to the directory of a name arrives, and the name and its directory
there. -/
structure Nears (world : World) (volume : Volume) (last : Nat × List String) (visit : Visit)
    (walked : List String) (name : String) (names : Directory) : Prop where
  arrives : world.passFrom volume .parent true last.1 last.2 =
    .ok (.arrived visit.entry visit.route walked)
  path : visit.path = volume.pathOf last.1 walked
  name : visit.path.fileName? = some name
  directory : world.directory visit.entry = .ok names

theorem lookup_nears {bound : Option Binding}
    (h : createTrail.lookup world volume path = .ok (visit, bound)) :
    ∃ last walked name names,
      Relation.ReflTransGen (world.Follows volume) (path.root, path.elements) last ∧
      world.Nears volume last visit walked name names ∧
      names.find? volume.collation name = bound := by
  unfold createTrail.lookup at h
  obtain ⟨parent, hwalk, h⟩ := exists_of_bind_ok h
  split at h
  case h_2 => cases h
  case h_1 name hname =>
    obtain ⟨names, hnames, h⟩ := exists_of_bind_ok h
    cases h
    obtain ⟨last, walked, hfollows, hpass, hpath⟩ := trail_parent hwalk
    exact ⟨last, walked, name, names, hfollows, ⟨hpass, hpath, hname, hnames⟩, rfl⟩

section Nears

variable {name : String} {names' : Directory} {binding : Binding}

theorem Retains.nears (h : world.Retains after)
    (hnears : world.Nears volume last visit walked name names') :
    ∃ names'', after.Nears volume last visit walked name names'' ∧
      ∀ {binding}, names'.find? volume.collation name = some binding →
        names''.find? volume.collation name = some binding := by
  obtain ⟨names'', hnames, hfound⟩ := h.found hnears.directory
  exact ⟨names'', ⟨h.passFrom hnears.arrives, hnears.path, hnears.name, hnames⟩, hfound⟩

theorem Nears.passFrom (h : world.Nears volume last visit walked name names')
    (hfind : names'.find? volume.collation name = some binding) :
    world.passFrom volume (.entry true) true last.1 last.2 =
      match world.linkTarget? binding.entry with
      | none => .ok (.arrived binding.entry (visit.route ++ [binding.entry])
          (walked.dropLast ++ [binding.name]))
      | some target => .ok (.detour binding.entry target walked.dropLast []) := by
  rw [passFrom_last h.arrives (h.path ▸ h.name), pass_last h.directory hfind]

end Nears

/-- What is found or made by looking for a file to create is what its path leads to. -/
theorem createTrail_resolves (h : world.Retains after) {target : OpenTarget}
    (htarget : (world.createTrail volume createNew unseen path).outcome = .ok target)
    (hholds : target.Holds after volume entry) :
    after.Resolves volume (path.root, path.elements) entry := by
  fun_induction World.createTrail world volume createNew unseen path with
  | case1 => cases htarget
  | case2 unseen path parent hlookup =>
      cases htarget
      obtain ⟨last, walked, name, names, hfollows, hnears, _⟩ := lookup_nears hlookup
      obtain ⟨names', hnears, _⟩ := h.nears hnears
      obtain ⟨name', names'', binding, hname, hnames, hfind, rfl, hlink⟩ := hholds
      obtain rfl := Option.some.inj (hnears.name.symm.trans hname)
      obtain rfl := Except.ok.inj (hnears.directory.symm.trans hnames)
      have hpass := hnears.passFrom hfind
      rw [hlink] at hpass
      exact ⟨last, h.follows hfollows, _, _, hpass⟩
  | case3 => cases htarget
  | case4 unseen path parent binding hlookup hnew hlink =>
      cases htarget
      obtain rfl : entry = binding.entry := hholds
      obtain ⟨last, walked, name, names, hfollows, hnears, hfind⟩ := lookup_nears hlookup
      obtain ⟨names', hnears, hfound⟩ := h.nears hnears
      have hpass := hnears.passFrom (hfound hfind)
      rw [h.links, hlink] at hpass
      exact ⟨last, h.follows hfollows, _, _, hpass⟩
  | case5 => cases htarget
  | case6 unseen path parent binding hlookup hnew link hlink _ destination hdestination later ih =>
      obtain ⟨last, walked, name, names, hfollows, hnears, hfind⟩ := lookup_nears hlookup
      obtain ⟨names', hnears, hfound⟩ := h.nears hnears
      obtain ⟨final, hlater, harrived⟩ := ih htarget
      -- the destination of the link is the next course
      have hstep : after.Follows volume last (destination.root, destination.elements) := by
        have hpass := hnears.passFrom (hfound hfind)
        rw [h.links, hlink] at hpass
        refine ⟨binding.entry, link, walked.dropLast, [], hpass, ?_⟩
        unfold Volume.linkDestination at hdestination
        rw [hnears.path] at hdestination
        obtain ⟨⟨root, elements⟩, hsplice, hdestination⟩ := exists_of_bind_ok hdestination
        cases hdestination
        exact hsplice
      exact ⟨final, ((h.follows hfollows).tail hstep).trans hlater, harrived⟩
  | case7 => cases htarget

end World

end RamFs
