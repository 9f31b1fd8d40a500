import Mathlib.Data.List.Forall2
import RamFs.Proofs.Namespace.Reachable

/-!
Two walks over paths that differ in the spelling of their names. A directory finds its names by
their keys, and what a walk remembers of the names it passed is how they are stored; the two
walks therefore meet the same links with remainders that again differ in spelling only. They end
alike, but that a walk to a directory reports the last name as its caller spelled it. A call that
looks its names up by walking does the same for both spellings.
-/

namespace RamFs

open RamFs.Action

namespace Collation

/-- The names are pairwise the same names. -/
def Alike (collation : Collation) (names names' : List String) : Prop :=
  List.Forall₂ (fun name name' => collation.sameName name name' = true) names names'

variable {collation : Collation} {name name' : String} {names names' : List String}

theorem Alike.refl (collation : Collation) (names : List String) : collation.Alike names names :=
  List.forall₂_same.2 fun _ _ => sameName_iff.2 rfl

/-- Which names go before the others does not matter if the two are the same. -/
theorem Alike.append_left (h : collation.Alike names names') (front : List String) :
    collation.Alike (front ++ names) (front ++ names') :=
  List.rel_append (Alike.refl collation front) h

theorem Alike.eq_nil_iff (h : collation.Alike names names') : names = [] ↔ names' = [] := by
  rw [← List.length_eq_zero_iff, ← List.length_eq_zero_iff, h.length_eq]

theorem Alike.dropLast (h : collation.Alike names names') :
    collation.Alike names.dropLast names'.dropLast := by
  rw [List.dropLast_eq_take, List.dropLast_eq_take, h.length_eq]
  exact List.forall₂_take _ h

theorem Alike.getLast? (h : collation.Alike names names') :
    names.getLast? = none ∧ names'.getLast? = none ∨
      ∃ last last', names.getLast? = some last ∧ names'.getLast? = some last' ∧
        collation.sameName last last' = true := by
  induction h with
  | nil => exact .inl ⟨rfl, rfl⟩
  | @cons name name' rest rest' hname hrest ih =>
      refine .inr ?_
      rcases ih with ⟨hnone, hnone'⟩ | ⟨last, last', hlast, hlast', hsame⟩
      · rw [List.getLast?_eq_none_iff] at hnone hnone'
        subst hnone hnone'
        exact ⟨name, name', rfl, rfl, hname⟩
      · exact ⟨last, last', by simp [List.getLast?_cons, hlast],
          by simp [List.getLast?_cons, hlast'], hsame⟩

end Collation

/-- The paths begin at the same root and go on with names that are pairwise the same. -/
structure Path.Alike (collation : Collation) (path other : Path) : Prop where
  root : path.root = other.root
  elements : collation.Alike path.elements other.elements

theorem Goal.unresolved_append {goal : Goal} {rest : List String} (front : List String)
    (h : goal = .parent → rest ≠ []) : goal.unresolved (front ++ rest) = goal.unresolved rest := by
  cases goal with
  | entry followLast => rfl
  | parent =>
      unfold Goal.unresolved
      dsimp only
      rw [List.getLast?_append_of_ne_nil _ (h rfl)]

/-- Two spellings of a name are found alike. -/
theorem Directory.find?_alike {names : Directory} {collation : Collation} {name name' : String}
    (h : collation.sameName name name' = true) :
    names.find? collation name = names.find? collation name' := by
  unfold Directory.find?
  rw [Collation.sameName_iff.1 h]

namespace World

variable {world : World} {id : VolumeId} {volume : Volume} {collation : Collation} {goal : Goal}
  {followLinks : Bool} {here : EntryId} {route unseen : List EntryId}
  {walked names names' : List String} {root : Nat} {path path' : Path} {a b : String}

/-! ### Passes -/

/-- How passes end that differ in the spelling of their names: at the same entry with the same
names behind them, or at the same link with names ahead that differ in spelling again. -/
inductive PassesAlike (collation : Collation) (goal : Goal) (names names' : List String) :
    Except Failure Pass → Except Failure Pass → Prop where
  | failed (failure : Failure) :
      PassesAlike collation goal names names' (.error failure) (.error failure)
  | arrived (entry : EntryId) (route : List EntryId) (front : List String) :
      PassesAlike collation goal names names'
        (.ok (.arrived entry route (front ++ goal.unresolved names)))
        (.ok (.arrived entry route (front ++ goal.unresolved names')))
  | detour (link : EntryId) (target : String) (walked rest rest' : List String)
      (alike : collation.Alike rest rest') (ahead : goal = .parent → rest ≠ [])
      (last : goal.unresolved rest = goal.unresolved names)
      (last' : goal.unresolved rest' = goal.unresolved names') :
      PassesAlike collation goal names names' (.ok (.detour link target walked rest))
        (.ok (.detour link target walked rest'))

theorem PassesAlike.cons {name name' : String} {pass pass' : Except Failure Pass}
    (hgoal : goal = .parent → names ≠ []) (hgoal' : goal = .parent → names' ≠ [])
    (h : PassesAlike collation goal names names' pass pass') :
    PassesAlike collation goal (name :: names) (name' :: names') pass pass' := by
  have hlast := Goal.unresolved_append [name] hgoal
  have hlast' := Goal.unresolved_append [name'] hgoal'
  rw [List.singleton_append] at hlast hlast'
  cases h with
  | failed failure => exact .failed failure
  | arrived entry route front =>
      rw [← hlast, ← hlast']
      exact .arrived entry route front
  | detour link target walked rest rest' halike hahead hrest hrest' =>
      exact .detour link target walked rest rest' halike hahead (hrest.trans hlast.symm)
        (hrest'.trans hlast'.symm)

/-- Where no name is left, nothing can be spelled differently. -/
theorem PassesAlike.done (entry : EntryId) (route : List EntryId) (walked : List String) :
    PassesAlike collation goal [] [] (.ok (.arrived entry route walked))
      (.ok (.arrived entry route walked)) := by
  have hnone : goal.unresolved [] = [] := by cases goal <;> rfl
  have harrived : PassesAlike collation goal [] []
      (.ok (.arrived entry route (walked ++ goal.unresolved [])))
      (.ok (.arrived entry route (walked ++ goal.unresolved []))) := .arrived entry route walked
  rwa [hnone, List.append_nil] at harrived

theorem followsAt_alike {rest rest' : List String} (h : collation.Alike rest rest') :
    followsAt goal followLinks rest = followsAt goal followLinks rest' := by
  cases h with
  | nil => rfl
  | cons _ _ => cases goal <;> rfl

theorem pass_alike (h : collation.Alike names names') :
    PassesAlike collation goal names names'
      (world.pass collation goal followLinks here route walked names)
      (world.pass collation goal followLinks here route walked names') := by
  induction h generalizing here route walked with
  | nil =>
      unfold World.pass
      exact .done here route walked
  | @cons name name' rest rest' hname hrest ih =>
      replace hrest : collation.Alike rest rest' := hrest
      by_cases hend : goal = .parent ∧ rest = []
      · obtain ⟨rfl, rfl⟩ := hend
        obtain rfl := hrest.eq_nil_iff.1 rfl
        rw [pass_last_of_parent, pass_last_of_parent]
        cases world.directory here with
        | error failure => exact .failed failure
        | ok directory => exact .arrived here route walked
      have hgoal : goal = .parent → rest ≠ [] := fun hparent hnil => hend ⟨hparent, hnil⟩
      have hgoal' : goal = .parent → rest' ≠ [] :=
        fun hparent hnil => hgoal hparent (hrest.eq_nil_iff.2 hnil)
      rw [pass_cons hgoal, pass_cons hgoal']
      cases world.directory here with
      | error failure => exact .failed failure
      | ok directory =>
      rw [ok_bind, ok_bind, Directory.find?_alike hname]
      cases directory.find? collation name' with
      | none => exact .failed .notFound
      | some binding =>
      dsimp only
      cases world.linkTarget? binding.entry with
      | none => exact ih.cons hgoal hgoal'
      | some target =>
      dsimp only
      rw [followsAt_alike hrest]
      have hempty : rest.isEmpty = rest'.isEmpty := by cases hrest <;> rfl
      rw [hempty]
      refine PassesAlike.cons hgoal hgoal' ?_
      split
      · exact .detour binding.entry target walked rest rest' hrest hgoal rfl rfl
      split
      case isTrue hnil =>
        obtain rfl := List.isEmpty_iff.1 hnil
        obtain rfl := hrest.eq_nil_iff.2 rfl
        exact .done binding.entry (route ++ [binding.entry]) (walked ++ [binding.name])
      case isFalse => exact .failed .notADirectory

theorem passFrom_alike (h : volume.collation.Alike names names') :
    PassesAlike volume.collation goal names names'
      (world.passFrom volume goal followLinks root names)
      (world.passFrom volume goal followLinks root names') := by
  by_cases hend : goal = .parent ∧ names = []
  · obtain ⟨rfl, rfl⟩ := hend
    obtain rfl := h.eq_nil_iff.1 rfl
    exact .failed .invalidArgument
  have hgoal : goal = .parent → names ≠ [] := fun hparent hnil => hend ⟨hparent, hnil⟩
  rw [passFrom_of_names hgoal,
    passFrom_of_names fun hparent hnil => hgoal hparent (h.eq_nil_iff.2 hnil)]
  cases volume.roots[root]? with
  | none => exact .failed .notFound
  | some top => exact pass_alike h

/-! ### Walks -/

/-- How two walks end that differ in the spelling of their names. The paths that they report are
the same up to the names that the walks did not look up. -/
inductive EndAlike (volume : Volume) (goal : Goal) (names names' : List String) :
    Except Failure Visit → Except Failure Visit → Prop where
  | failed (failure : Failure) :
      EndAlike volume goal names names' (.error failure) (.error failure)
  | arrived (entry : EntryId) (route : List EntryId) (root : Nat) (front : List String) :
      EndAlike volume goal names names'
        (.ok ⟨entry, route, volume.pathOf root (front ++ goal.unresolved names)⟩)
        (.ok ⟨entry, route, volume.pathOf root (front ++ goal.unresolved names')⟩)

theorem EndAlike.congr {inner inner' : List String} {outcome outcome' : Except Failure Visit}
    (h : EndAlike volume goal inner inner' outcome outcome')
    (hnames : goal.unresolved inner = goal.unresolved names)
    (hnames' : goal.unresolved inner' = goal.unresolved names') :
    EndAlike volume goal names names' outcome outcome' := by
  cases h with
  | failed failure => exact .failed failure
  | arrived entry route root front =>
      rw [hnames, hnames']
      exact .arrived entry route root front

/-- A link is spliced in the same way in front of any names that are left. -/
theorem spliceLink_cases (volume : Volume) (target : String) (root : Nat)
    (walked rest rest' : List String) :
    (∃ failure, volume.spliceLink target root walked rest = .error failure ∧
      volume.spliceLink target root walked rest' = .error failure) ∨
    ∃ root' front, volume.spliceLink target root walked rest = .ok (root', front ++ rest) ∧
      volume.spliceLink target root walked rest' = .ok (root', front ++ rest') := by
  unfold Volume.spliceLink
  cases volume.parse target with
  | error failure => exact .inl ⟨failure, rfl, rfl⟩
  | ok parsed =>
      rw [ok_bind, ok_bind]
      split
      · exact .inr ⟨_, _, rfl, rfl⟩
      · cases Path.pushAll walked (Path.parts target.toList) with
        | error failure => exact .inl ⟨failure, rfl, rfl⟩
        | ok front => exact .inr ⟨_, front, rfl, rfl⟩

theorem trail_alike (h : volume.collation.Alike names names') :
    EndAlike volume goal names names'
      (world.trail volume goal followLinks unseen root names).outcome
      (world.trail volume goal followLinks unseen root names').outcome := by
  -- the two walks see the same links, so that one induction goes over both
  induction hlength : unseen.length using Nat.strongRecOn
    generalizing unseen root names names' with
  | _ length ih =>
  unfold World.trail
  generalize hpass : world.passFrom volume goal followLinks root names = pass
  generalize hpass' : world.passFrom volume goal followLinks root names' = pass'
  have halike : PassesAlike volume.collation goal names names' pass pass' :=
    hpass ▸ hpass' ▸ passFrom_alike h
  cases halike with
  | failed failure => exact .failed failure
  | arrived entry route front => exact .arrived entry route root front
  | detour link target walked rest rest' hrest hahead hlast hlast' =>
      dsimp only
      split
      case isFalse => exact .failed .linkLoop
      case isTrue hlink =>
        rcases spliceLink_cases volume target root walked rest rest' with
          ⟨failure, hsplice, hsplice'⟩ | ⟨root', front, hsplice, hsplice'⟩
        · rw [hsplice, hsplice']
          exact .failed failure
        · rw [hsplice, hsplice']
          dsimp only
          have hlater : EndAlike volume goal (front ++ rest) (front ++ rest')
              (world.trail volume goal followLinks (unseen.erase link) root'
                (front ++ rest)).outcome
              (world.trail volume goal followLinks (unseen.erase link) root'
                (front ++ rest')).outcome :=
            ih _ (hlength ▸ length_erase_lt hlink) (hrest.append_left front) rfl
          have hahead' : goal = .parent → rest' ≠ [] :=
            fun hparent hnil => hahead hparent (hrest.eq_nil_iff.2 hnil)
          have hnames : goal.unresolved (front ++ rest) = goal.unresolved names := by
            rw [Goal.unresolved_append front hahead, hlast]
          have hnames' : goal.unresolved (front ++ rest') = goal.unresolved names' := by
            rw [Goal.unresolved_append front hahead', hlast']
          exact hlater.congr hnames hnames'

theorem walk_alike (h : path.Alike volume.collation path') :
    EndAlike volume goal path.elements path'.elements
      (world.walk volume path goal followLinks) (world.walk volume path' goal followLinks) := by
  unfold World.walk
  rw [h.root]
  exact trail_alike h.elements

theorem walk_entry_alike (h : path.Alike volume.collation path') (followLast : Bool) :
    world.walk volume path (.entry followLast) followLinks =
      world.walk volume path' (.entry followLast) followLinks := by
  generalize hwalk : world.walk volume path (.entry followLast) followLinks = outcome
  generalize hwalk' : world.walk volume path' (.entry followLast) followLinks = outcome'
  have halike : EndAlike volume (.entry followLast) path.elements path'.elements outcome outcome' :=
    hwalk ▸ hwalk' ▸ walk_alike h
  cases halike <;> rfl

theorem visit_alike (hvolume : world.volume id = .ok volume) (ha : volume.parse a = .ok path)
    (hb : volume.parse b = .ok path') (h : path.Alike volume.collation path') (followLast : Bool) :
    world.visit id a followLast = world.visit id b followLast := by
  rw [visit_eq hvolume ha, visit_eq hvolume hb, walk_entry_alike h]

/-! ### Questions -/

/-- The two texts get the same answer to every question. -/
structure AnswersAlike (world : World) (id : VolumeId) (a b : String) : Prop where
  metadata : ∀ followLast, world.metadata id a followLast = world.metadata id b followLast
  present : world.hasEntry id a = world.hasEntry id b
  directory : world.readDirectory id a = world.readDirectory id b
  link : world.readLink id a = world.readLink id b
  canonical : world.canonicalize id a = world.canonicalize id b
  same_left : ∀ other, world.isSameFile id a other = world.isSameFile id b other
  same_right : ∀ other, world.isSameFile id other a = world.isSameFile id other b

/-- A question is answered from where the walk arrives. -/
theorem answersAlike_of_visit (h : ∀ followLast, world.visit id a followLast =
    world.visit id b followLast) : world.AnswersAlike id a b := by
  constructor
  case metadata =>
    intro followLast
    unfold World.metadata
    rw [h]
  case present =>
    unfold World.hasEntry World.metadata
    rw [h]
  case directory =>
    unfold World.readDirectory
    rw [h]
  case link =>
    unfold World.readLink
    rw [h]
  case canonical =>
    unfold World.canonicalize
    rw [h]
  case same_left =>
    intro other
    unfold World.isSameFile
    rw [h]
  case same_right =>
    intro other
    unfold World.isSameFile
    rw [h]

end World

/-! ### Sources of relocations -/

section Sources

variable {collation : Collation} {slot : Slot} {name name' : String}

theorem Slot.startsWith_alike (h : collation.sameName slot.name name = true) (path : Path) :
    path.startsWith collation slot.path = path.startsWith collation { slot with name }.path := by
  have hkeys : slot.path.elements.map collation.key =
      { slot with name : Slot }.path.elements.map collation.key := by
    unfold Slot.path Path.withElements
    rw [List.map_append, List.map_append, List.map_singleton, List.map_singleton,
      Collation.sameName_iff.1 h]
  rw [Bool.eq_iff_iff, Path.startsWith_iff, Path.startsWith_iff, hkeys]
  rfl

theorem Slot.holdBoth_alike (h : collation.sameName slot.name name = true) (dst : Slot) :
    slot.holdBoth collation dst = Slot.holdBoth collation { slot with name } dst := by
  have horder : slot.order collation dst = Slot.order collation { slot with name } dst := by
    unfold Slot.order Collation.compare
    rw [Collation.sameName_iff.1 h]
  unfold Slot.holdBoth
  rw [horder]
  by_cases hgt : Slot.order collation { slot with name } dst = .gt
  · rw [if_pos hgt, if_pos hgt]
  · rw [if_neg hgt, if_neg hgt]

theorem Action.unbind_alike (h : collation.sameName name name' = true) (directory : EntryId) :
    Action.unbind directory collation name = Action.unbind directory collation name' := by
  unfold Action.unbind Directory.erase
  rw [Collation.sameName_iff.1 h]

theorem Relocation.commit_alike {op : Relocation} {sourceVolume targetVolume : Volume} {dst : Slot}
    {plan : Relocation.Plan} (h : sourceVolume.collation.sameName slot.name name = true) :
    op.commit sourceVolume targetVolume slot dst plan =
      op.commit sourceVolume targetVolume { slot with name } dst plan := by
  unfold Relocation.commit
  cases op with
  | move options =>
      dsimp only
      rw [Action.unbind_alike h]
  | copy options => rfl
  | link => rfl

end Sources

variable {world : World} {id targetId : VolumeId} {volume : Volume} {path path' target : Path}
  {a b : String} {α β : Type}

/-- The slots of two spellings of a path are one, up to the name. -/
theorem World.slot_alike (world : World) (id : VolumeId) (h : path.Alike volume.collation path') :
    (∃ failure, world.slot id volume path = .error failure ∧
      world.slot id volume path' = .error failure) ∨
    ∃ slot name, world.slot id volume path = .ok slot ∧
      world.slot id volume path' = .ok { slot with name } ∧
      volume.collation.sameName slot.name name = true := by
  unfold World.slot Path.fileName?
  rcases h.elements.getLast? with ⟨hnone, hnone'⟩ | ⟨name, name', hname, hname', hsame⟩
  · rw [hnone, hnone']
    exact .inl ⟨.invalidArgument, rfl, rfl⟩
  have hroot : ∀ {path : Path} {name}, path.elements.getLast? = some name →
      path.parent? = some (path.withElements path.elements.dropLast) := by
    intro path name hname
    unfold Path.parent? Path.isRoot
    rw [if_neg]
    rw [List.isEmpty_iff]
    intro hnil
    rw [hnil] at hname
    cases hname
  have hparent : (path.withElements path.elements.dropLast).Alike volume.collation
      (path'.withElements path'.elements.dropLast) := ⟨h.root, h.elements.dropLast⟩
  rw [hname, hname', hroot hname, hroot hname']
  dsimp only
  rw [World.walk_entry_alike hparent]
  cases world.walk volume (path'.withElements path'.elements.dropLast) (.entry true) true with
  | error failure => exact .inl ⟨failure, rfl, rfl⟩
  | ok found =>
      rw [ok_bind, ok_bind]
      cases world.directory found.entry with
      | error failure => exact .inl ⟨failure, rfl, rfl⟩
      | ok directory => exact .inr ⟨_, name', rfl, rfl, hsame⟩

namespace Action

/-- Only an answer lets an action go on. -/
theorem ask_bind_congr {query : World → Except Failure α} {next next' : α → Action β}
    (h : ∀ value, query world = .ok value → next value world = next' value world) :
    (Action.ask query >>= next) world = (Action.ask query >>= next') world := by
  rw [bind_apply, bind_apply, ask_apply]
  cases hquery : query world with
  | error failure => rfl
  | ok value => exact h value hquery

theorem lift_bind_congr {outcome : Except Failure α} {next next' : α → Action β}
    (h : ∀ value, outcome = .ok value → next value world = next' value world) :
    ((liftM outcome : Action α) >>= next) world = ((liftM outcome : Action α) >>= next') world := by
  rw [bind_apply, bind_apply, lift_apply]
  cases houtcome : outcome with
  | error failure => rfl
  | ok value => exact h value houtcome

/-- Two questions that are answered, each in its own way. -/
theorem ask_bind_pair {query query' : World → Except Failure α} {next next' : α → Action β}
    {value value' : α} (h : query world = .ok value) (h' : query' world = .ok value')
    (hnext : next value world = next' value' world) :
    (Action.ask query >>= next) world = (Action.ask query' >>= next') world := by
  rw [bind_ask_ok h, bind_ask_ok h', hnext]

theorem ask_bind_failed {query : World → Except Failure α} {next : α → Action β}
    {failure : Failure} (h : query world = .error failure) :
    (Action.ask query >>= next) world = (.error failure, world) := by
  rw [bind_apply, ask_apply, h]

end Action

theorem Relocation.run_alike {op : Relocation} (hvolume : world.volume id = .ok volume)
    (h : path.Alike volume.collation path') :
    op.run id path targetId target world = op.run id path' targetId target world := by
  unfold Relocation.run
  dsimp only
  split
  · rfl
  refine ask_bind_congr fun sourceVolume hsource => ?_
  obtain rfl := Except.ok.inj (hvolume.symm.trans hsource)
  refine ask_bind_congr fun targetVolume _ => ?_
  rcases World.slot_alike world id h with
    ⟨failure, hslot, hslot'⟩ | ⟨slot, name, hslot, hslot', hname⟩
  · exact (ask_bind_failed hslot).trans (ask_bind_failed hslot').symm
  refine ask_bind_pair hslot hslot' ?_
  simp only [Slot.startsWith_alike hname, Slot.holdBoth_alike hname, Directory.find?_alike hname,
    Relocation.commit_alike hname]

/-! ### Calls -/

theorem VolumeId.deleteEntry_alike (hvolume : world.volume id = .ok volume)
    (h : path.Alike volume.collation path') (expected : Option EntryId) :
    id.deleteEntry path expected world = id.deleteEntry path' expected world := by
  unfold VolumeId.deleteEntry
  rcases h.elements.getLast? with ⟨hnone, hnone'⟩ | ⟨name, name', hname, hname', hsame⟩
  · have hroot : ∀ {path : Path}, path.elements.getLast? = none → path.isRoot = true := by
      intro path hnone
      exact List.isEmpty_iff.2 (List.getLast?_eq_none_iff.1 hnone)
    rw [if_pos (hroot hnone), if_pos (hroot hnone')]
    rfl
  have hroot : ∀ {path : Path} {name}, path.elements.getLast? = some name → ¬path.isRoot = true := by
    intro path name hname hroot
    rw [List.isEmpty_iff.1 hroot] at hname
    cases hname
  rw [if_neg (hroot hname), if_neg (hroot hname')]
  refine ask_bind_congr fun found hfound => ?_
  obtain rfl := Except.ok.inj (hvolume.symm.trans hfound)
  generalize hwalk : world.walk volume path .parent true = outcome
  generalize hwalk' : world.walk volume path' .parent true = outcome'
  have halike : World.EndAlike volume .parent path.elements path'.elements outcome outcome' :=
    hwalk ▸ hwalk' ▸ World.walk_alike h
  cases halike with
  | failed failure => exact (ask_bind_failed hwalk).trans (ask_bind_failed hwalk').symm
  | arrived entry route root front =>
      refine ask_bind_pair hwalk hwalk' ?_
      have hlast : ∀ {names : List String} {name}, names.getLast? = some name →
          (volume.pathOf root (front ++ Goal.parent.unresolved names)).fileName? = some name := by
        intro names name hname
        unfold Goal.unresolved
        dsimp only
        rw [hname]
        exact List.getLast?_concat
      dsimp only
      rw [hlast hname, hlast hname']
      dsimp only
      simp only [Directory.find?_alike hsame, Action.unbind_alike hsame]

/-- A copy or a move from either spelling. -/
theorem VolumeId.relocate_alike (op : Relocation) (hvolume : world.volume id = .ok volume)
    (ha : volume.parse a = .ok path) (hb : volume.parse b = .ok path')
    (h : path.Alike volume.collation path') (targetId : VolumeId) (target : String) :
    (do
      let sourcePath ← (← Action.ask (·.volume id)).parse a
      let targetPath ← (← Action.ask (·.volume targetId)).parse target
      op.run id sourcePath targetId targetPath : Action Unit) world =
    (do
      let sourcePath ← (← Action.ask (·.volume id)).parse b
      let targetPath ← (← Action.ask (·.volume targetId)).parse target
      op.run id sourcePath targetId targetPath : Action Unit) world := by
  refine ask_bind_congr fun found hfound => ?_
  obtain rfl := Except.ok.inj (hvolume.symm.trans hfound)
  rw [bind_lift_ok ha, bind_lift_ok hb]
  exact ask_bind_congr fun targetVolume _ => lift_bind_congr fun targetPath _ =>
    Relocation.run_alike hvolume h

theorem VolumeId.openTarget_alike {options : OpenOptions}
    (h : path.Alike volume.collation path') (hfound : options.creates = false) :
    id.openTarget volume path options = id.openTarget volume path' options := by
  have htrail : ∀ world : World,
      world.openTrail volume path options = world.openTrail volume path' options := by
    intro world
    unfold World.openTrail
    rw [hfound, World.walk_entry_alike h]
    rfl
  unfold VolumeId.openTarget
  simp only [htrail]

theorem VolumeId.openFile_alike {options : OpenOptions} (hvolume : world.volume id = .ok volume)
    (ha : volume.parse a = .ok path) (hb : volume.parse b = .ok path')
    (h : path.Alike volume.collation path') (hfound : options.creates = false) :
    id.openFile a options world = id.openFile b options world := by
  unfold VolumeId.openFile
  split
  · rfl
  split
  · rfl
  refine ask_bind_congr fun found hvolume' => ?_
  obtain rfl := Except.ok.inj (hvolume.symm.trans hvolume')
  rw [bind_lift_ok ha, bind_lift_ok hb, VolumeId.openTarget_alike h hfound]

namespace PathCall

/-- The calls differ in the spelling of a path that they look up by walking: an entry to delete,
to change, to copy, to move, to link or to open. -/
inductive Alike (a b : String) : PathCall → PathCall → Prop where
  | delete : Alike a b (.delete a) (.delete b)
  | setTimes (times : TimesRequest) : Alike a b (.setTimes a times) (.setTimes b times)
  | setMode (mode : UInt32) : Alike a b (.setMode a mode) (.setMode b mode)
  | setOwner (uid gid : UInt32) : Alike a b (.setOwner a uid gid) (.setOwner b uid gid)
  | truncate (size : Nat) : Alike a b (.truncate a size) (.truncate b size)
  | copy (targetId : VolumeId) (target : String) (options : CopyOptions) :
      Alike a b (.copy a targetId target options) (.copy b targetId target options)
  | move (targetId : VolumeId) (target : String) (options : CopyOptions) :
      Alike a b (.move a targetId target options) (.move b targetId target options)
  | createHardLink (link : String) : Alike a b (.createHardLink link a) (.createHardLink link b)
  | openFile (options : OpenOptions) (found : options.creates = false) :
      Alike a b (.openFile a options) (.openFile b options)

theorem Alike.act {call call' : PathCall} (hcall : Alike a b call call')
    (hvolume : world.volume id = .ok volume) (ha : volume.parse a = .ok path)
    (hb : volume.parse b = .ok path') (h : path.Alike volume.collation path') :
    call.act id world = call'.act id world := by
  have hvisit : world.visit id a true = world.visit id b true :=
    World.visit_alike hvolume ha hb h true
  have hmodify : ∀ change, id.modifyAt a change world = id.modifyAt b change world := by
    intro change
    unfold VolumeId.modifyAt
    rw [bind_apply, bind_apply, ask_apply, ask_apply, hvisit]
  cases hcall with
  | delete =>
      change id.delete a world = id.delete b world
      unfold VolumeId.delete
      refine ask_bind_congr fun found hfound => ?_
      obtain rfl := Except.ok.inj (hvolume.symm.trans hfound)
      rw [bind_lift_ok ha, bind_lift_ok hb]
      exact VolumeId.deleteEntry_alike hvolume h none
  | setTimes times =>
      change id.setTimes a times world = id.setTimes b times world
      unfold VolumeId.setTimes
      exact ask_bind_congr fun _ _ => hmodify _
  | setMode mode => exact hmodify _
  | setOwner uid gid => exact hmodify _
  | truncate size =>
      change id.truncate a size world = id.truncate b size world
      unfold VolumeId.truncate
      rw [bind_apply, bind_apply, ask_apply, ask_apply, hvisit]
  | copy targetId target options =>
      exact VolumeId.relocate_alike (.copy options) hvolume ha hb h targetId target
  | move targetId target options =>
      exact VolumeId.relocate_alike (.move options) hvolume ha hb h targetId target
  | createHardLink link =>
      change id.createHardLink link a world = id.createHardLink link b world
      unfold VolumeId.createHardLink
      refine ask_bind_congr fun found hfound => ?_
      obtain rfl := Except.ok.inj (hvolume.symm.trans hfound)
      rw [bind_lift_ok ha, bind_lift_ok hb]
      exact lift_bind_congr fun targetPath _ => Relocation.run_alike hvolume h
  | openFile options hfound =>
      change (id.openFile a options >>= fun _ => pure ()) world =
        (id.openFile b options >>= fun _ => pure ()) world
      rw [bind_apply, bind_apply, VolumeId.openFile_alike hvolume ha hb h hfound]

end PathCall

/-- On a volume that tells names apart by their keys, paths whose names are pairwise the same are
walked alike for every goal, whether or not links are followed; and where two texts stand for such
paths, every question gets the same answer and every deletion, change of attributes, copy, move,
link and opening from the one does what it does from the other. -/
theorem World.spelling_is_immaterial (hvolume : world.volume id = .ok volume)
    (h : path.Alike volume.collation path') :
    (∀ goal followLinks, World.EndAlike volume goal path.elements path'.elements
      (world.walk volume path goal followLinks) (world.walk volume path' goal followLinks)) ∧
    ∀ a b, volume.parse a = .ok path → volume.parse b = .ok path' → world.AnswersAlike id a b ∧
      ∀ call call', PathCall.Alike a b call call' → call.act id world = call'.act id world :=
  ⟨fun _ _ => World.walk_alike h, fun _ _ ha hb =>
    ⟨World.answersAlike_of_visit (World.visit_alike hvolume ha hb h),
      fun _ _ hcall => hcall.act hvolume ha hb h⟩⟩

/-- A volume without regard to case, in which a link leads to the directory of a file. -/
def World.relettered : World :=
  List.foldl Call.perform {} [.newVolume { collation := .insensitivePreserving },
    .onPath ⟨0⟩ (.createDirectory "/Dir" {}), .onPath ⟨0⟩ (.createSymlink "/Link" "DIR"),
    .writeAll ⟨0⟩ "/dir/File" [1]]

/-- Two spellings of a path through the link have one canonical path, which spells the names as
they are stored; their walks to a directory keep each its own last name; and they delete alike. -/
theorem relettered_spelling_is_immaterial :
    Reachable World.relettered ∧
    ∃ volume, World.relettered.volume ⟨0⟩ = .ok volume ∧
      Path.Alike volume.collation ⟨0, "/", ["link", "FILE"], true⟩ ⟨0, "/", ["LINK", "file"], true⟩ ∧
      World.relettered.canonicalize ⟨0⟩ "/link/FILE" =
        World.relettered.canonicalize ⟨0⟩ "/LINK/file" ∧
      World.relettered.canonicalize ⟨0⟩ "/LINK/file" = .ok ⟨0, "/", ["Dir", "File"], true⟩ ∧
      World.EndAlike volume .parent ["link", "FILE"] ["LINK", "file"]
        (.ok ⟨⟨1⟩, [⟨0⟩, ⟨1⟩], volume.pathOf 0 ["Dir", "FILE"]⟩)
        (.ok ⟨⟨1⟩, [⟨0⟩, ⟨1⟩], volume.pathOf 0 ["Dir", "file"]⟩) ∧
      VolumeId.delete ⟨0⟩ "/link/FILE" World.relettered =
        VolumeId.delete ⟨0⟩ "/LINK/file" World.relettered ∧
      (VolumeId.delete ⟨0⟩ "/LINK/file" World.relettered).1 = .ok () := by
  have hvolume : World.relettered.volume ⟨0⟩ =
      .ok { config := { collation := .insensitivePreserving }, roots := [⟨0⟩] } := by
    decide +kernel
  have halike : Path.Alike .insensitivePreserving ⟨0, "/", ["link", "FILE"], true⟩
      ⟨0, "/", ["LINK", "file"], true⟩ :=
    ⟨rfl, .cons (by decide +kernel) (.cons (by decide +kernel) .nil)⟩
  obtain ⟨hwalks, htexts⟩ := World.spelling_is_immaterial hvolume halike
  obtain ⟨hanswers, hcalls⟩ := htexts "/link/FILE" "/LINK/file" (by decide +kernel) (by decide +kernel)
  refine ⟨Reachable.start.run _, _, hvolume, halike, hanswers.canonical, by decide +kernel, ?_,
    hcalls _ _ .delete, by decide +kernel⟩
  have hwalk := hwalks .parent true
  have hends : ∀ last ∈ ["FILE", "file"], ∀ link ∈ ["link", "LINK"], World.relettered.walk
      { config := { collation := .insensitivePreserving }, roots := [⟨0⟩] }
      ⟨0, "/", [link, last], true⟩ .parent true =
        .ok ⟨⟨1⟩, [⟨0⟩, ⟨1⟩], ⟨0, "/", ["Dir", last], true⟩⟩ := by
    decide +kernel
  rw [hends "FILE" (by simp) "link" (by simp), hends "file" (by simp) "LINK" (by simp)] at hwalk
  exact hwalk

end RamFs
