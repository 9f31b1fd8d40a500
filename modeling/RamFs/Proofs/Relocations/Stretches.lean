import RamFs.Relocation
import RamFs.Proofs.Namespace.Descents

/-!
Walks below a directory that stands at one place or at another. A pass down from the directory does
not see where the directory stands, so that what may come out otherwise is where a link leads: a
relative target that climbs out is resolved from another place, and a target from a root may come
in again by a name that is bound at one of the places only. `Steady` says of a walk that none of
its links does either; such a walk makes the same passes from both places.
-/

namespace RamFs

open RamFs.Action

variable {world after : World} {volume : Volume} {src dst : Slot} {moving : Binding}
  {collation : Collation} {followLast followLinks : Bool} {here top directory entry link : EntryId}
  {route unseen above : List EntryId} {walked names front rest : List String}
  {name target : String} {root : Nat} {base parsed : Path} {bindings : List Binding}

/-! ### Names looked up -/

/-- The slot is what the name stands for in the directory. -/
def Slot.Is (slot : Slot) (collation : Collation) (directory : EntryId) (name : String) : Prop :=
  directory = slot.directory ∧ collation.key name = collation.key slot.name

namespace World

/-- A pass over the names from an entry on looks the name up in the directory. -/
inductive LooksUp (world : World) (collation : Collation) (directory : EntryId) (name : String) :
    EntryId → List String → Prop where
  | first {rest : List String} : LooksUp world collation directory name directory (name :: rest)
  | later {here : EntryId} {names : Directory} {first : String} {binding : Binding}
      {rest : List String} :
      world.directory here = .ok names → names.find? collation first = some binding →
      world.linkTarget? binding.entry = none →
      LooksUp world collation directory name binding.entry rest →
      LooksUp world collation directory name here (first :: rest)

/-- Where names are looked up, there a route leads. -/
theorem LooksUp.leads (h : world.LooksUp collation directory name here names) :
    ∃ bindings, world.namespace.Leads here bindings directory := by
  induction h with
  | first => exact ⟨[], .top⟩
  | later hnames hfind _ _ ih =>
      obtain ⟨bindings, hleads⟩ := ih
      have hbinds : world.namespace.Binds _ _ :=
        ⟨_, directory_eq_ok.1 hnames, Directory.find?_mem hfind⟩
      exact ⟨_, (Namespace.Leads.step .top hbinds).append hleads⟩

/-- A pass goes the same way in a world where all that it looks up is the same. -/
theorem pass_eq_of_lookups (hlinks : ∀ entry, after.linkTarget? entry = world.linkTarget? entry)
    (hfinds : ∀ directory name, world.LooksUp collation directory name here names →
      (after.directory directory).map (·.find? collation name) =
        (world.directory directory).map (·.find? collation name)) :
    after.pass collation (.entry followLast) followLinks here route walked names =
      world.pass collation (.entry followLast) followLinks here route walked names := by
  induction names generalizing here route walked with
  | nil => rw [pass_nil, pass_nil]
  | cons name rest ih =>
      rw [pass_cons ne_nil_of_entry_eq_parent, pass_cons ne_nil_of_entry_eq_parent]
      have hfirst := hfinds here name .first
      cases hbefore : world.directory here with
      | error failure =>
          rw [hbefore] at hfirst
          cases hafter : after.directory here with
          | error failure' =>
              rw [hafter] at hfirst
              cases hfirst
              rfl
          | ok names' =>
              rw [hafter] at hfirst
              cases hfirst
      | ok names =>
          rw [hbefore] at hfirst
          cases hafter : after.directory here with
          | error failure' =>
              rw [hafter] at hfirst
              cases hfirst
          | ok names' =>
              rw [hafter] at hfirst
              replace hfirst : names'.find? collation name = names.find? collation name :=
                Except.ok.inj hfirst
              rw [ok_bind, ok_bind, hfirst]
              cases hfind : names.find? collation name with
              | none => rfl
              | some binding =>
                  dsimp only
                  rw [hlinks]
                  cases hlink : world.linkTarget? binding.entry with
                  | some target => rfl
                  | none =>
                      exact ih fun directory name h =>
                        hfinds directory name (.later hbefore hfind hlink h)

/-! ### Passes from a known place -/

end World

/-- The pass once it is known what was passed before it. -/
def Pass.prepend (above : List EntryId) (front : List String) : Pass → Pass
  | .arrived entry route walked => .arrived entry (above ++ route) (front ++ walked)
  | .detour link target walked rest => .detour link target (front ++ walked) rest

namespace World

theorem pass_prepend : world.pass collation (.entry followLast) followLinks here (above ++ route)
      (front ++ walked) names =
    (world.pass collation (.entry followLast) followLinks here route walked names).map
      (Pass.prepend above front) := by
  induction names generalizing here route walked with
  | nil =>
      rw [pass_nil, pass_nil]
      rfl
  | cons name rest ih =>
      rw [pass_cons ne_nil_of_entry_eq_parent, pass_cons ne_nil_of_entry_eq_parent]
      cases world.directory here with
      | error failure => rfl
      | ok names =>
          rw [ok_bind, ok_bind]
          cases names.find? collation name with
          | none => rfl
          | some binding =>
              dsimp only
              cases world.linkTarget? binding.entry with
              | none =>
                  dsimp only
                  rw [List.append_assoc, List.append_assoc, ih]
              | some target =>
                  dsimp only
                  split
                  · rfl
                  split
                  · rw [List.append_assoc, List.append_assoc]
                    rfl
                  · rfl

/-- A pass over the path of an entry, and names below it, is a pass from the entry on. -/
theorem passFrom_below (hn : world.namespace.Sound) (htop : volume.roots[base.root]? = some top)
    (hleads : world.namespace.Leads top bindings here)
    (hnames : base.elements = bindings.map Binding.name)
    (hkeys : base.elements.map volume.collation.key = bindings.map Binding.key)
    (hhere : world.linkTarget? here = none) :
    world.passFrom volume (.entry followLast) followLinks base.root (base.elements ++ names) =
      (world.pass volume.collation (.entry followLast) followLinks here [] [] names).map
        (Pass.prepend (top :: bindings.map Binding.entry) base.elements) := by
  rw [passFrom_of_names ne_nil_of_entry_eq_parent, htop]
  dsimp only
  rw [pass_down hn.ordered hleads hkeys (linkTarget?_of_leads hleads hhere)
    ne_nil_of_entry_eq_parent, ← pass_prepend, hnames]
  simp

theorem trail_outcome (volume : Volume) (goal : Goal) :
    (world.trail volume goal followLinks unseen root names).outcome =
      match world.passFrom volume goal followLinks root names with
      | .error failure => .error failure
      | .ok (.arrived entry route walked) => .ok ⟨entry, route, volume.pathOf root walked⟩
      | .ok (.detour link target walked rest) =>
        if link ∈ unseen then
          volume.spliceLink target root walked rest >>= fun course =>
            (world.trail volume goal followLinks (unseen.erase link) course.1 course.2).outcome
        else .error .linkLoop := by
  conv_lhs => unfold World.trail
  rcases world.passFrom volume goal followLinks root names with failure |
    (⟨entry, route, walked⟩ | ⟨link, target, walked, rest⟩)
  case error => rfl
  case ok.arrived => rfl
  case ok.detour =>
    dsimp only
    by_cases hlink : link ∈ unseen
    · rw [dif_pos hlink, if_pos hlink]
      cases volume.spliceLink target root walked rest <;> rfl
    · rw [dif_neg hlink, if_neg hlink]

end World

/-! ### Targets that stay inside -/

namespace Path

/-- From so many names down, the parts never climb above where the names begin. -/
def StaysInside : Nat → List String → Prop
  | _, [] => True
  | depth, part :: rest =>
    if part = "" ∨ part = "." then StaysInside depth rest
    else if part = ".." then 0 < depth ∧ StaysInside (depth - 1) rest
    else StaysInside (depth + 1) rest

/-- Parts that stay inside do not see which names go before. -/
theorem pushAll_inside {parts : List String} (h : StaysInside walked.length parts) :
    pushAll (front ++ walked) parts = (pushAll walked parts).map (front ++ ·) := by
  induction parts generalizing walked with
  | nil => rfl
  | cons part rest ih =>
      unfold StaysInside at h
      unfold pushAll push
      by_cases hempty : part = "" ∨ part = "."
      · rw [if_pos hempty] at h
        rw [if_pos hempty, if_pos hempty]
        exact ih h
      rw [if_neg hempty] at h
      rw [if_neg hempty, if_neg hempty]
      by_cases hup : part = ".."
      · rw [if_pos hup] at h
        rw [if_pos hup, if_pos hup, List.dropLast_append_of_ne_nil (List.ne_nil_of_length_pos h.1)]
        exact ih (List.length_dropLast ▸ h.2)
      rw [if_neg hup] at h
      rw [if_neg hup, if_neg hup]
      split
      · rfl
      · rw [List.append_assoc]
        exact ih (by simpa using h)

end Path

/-! ### Walks below a directory that moves -/

/-- The path of names below this path. -/
def Path.extend (path : Path) (names : List String) : Path :=
  path.withElements (path.elements ++ names)

@[simp]
theorem Path.elements_extend (path : Path) (names : List String) :
    (path.extend names).elements = path.elements ++ names := rfl

/-- The path of a slot with its name spelled as it is bound. -/
def Slot.stored (slot : Slot) (binding : Binding) : Path :=
  slot.parent.extend [binding.name]

/-- What a pass has to walk: names below the directory that moves, wherever that is, or names from
a root. -/
inductive Stretch where
  | below (names : List String)
  | elsewhere (root : Nat) (names : List String)

/-- The root and the names of a stretch while the directory has the path. -/
def Stretch.course (base : Path) : Stretch → Nat × List String
  | below names => (base.root, base.elements ++ names)
  | elsewhere root names => (root, names)

section Steady

variable (world : World) (volume : Volume) (src dst : Slot) (moving : Binding)
  (followLast followLinks : Bool)

/-- A link that is met on one stretch leads to another, and to the same one from the old place of
the directory and from the new. -/
inductive World.Onward : Stretch → Stretch → Prop where
  | below {names walked rest : List String} {link : EntryId} {target : String} {next : Stretch} :
      world.pass volume.collation (.entry followLast) followLinks moving.entry [] [] names =
        .ok (.detour link target walked rest) →
      volume.spliceLink target (src.stored moving).root ((src.stored moving).elements ++ walked)
        rest = .ok (next.course (src.stored moving)) →
      volume.spliceLink target dst.path.root (dst.path.elements ++ walked) rest =
        .ok (next.course dst.path) →
      World.Onward (.below names) next
  | elsewhere {root root' : Nat} {names walked rest names' : List String} {link : EntryId}
      {target : String} :
      world.passFrom volume (.entry followLast) followLinks root names =
        .ok (.detour link target walked rest) →
      volume.spliceLink target root walked rest = .ok (root', names') →
      World.Onward (.elsewhere root names) (.elsewhere root' names')

/-- Below the directory, a link that is met has to lead to one stretch from both places. Elsewhere,
neither of the names that change is looked up. In both cases the walk goes on as expected. -/
def World.Calm (expected : Stretch → Prop) : Stretch → Prop
  | .below names => ∀ link target walked rest,
      world.pass volume.collation (.entry followLast) followLinks moving.entry [] [] names =
        .ok (.detour link target walked rest) →
      ∃ next, world.Onward volume src dst moving followLast followLinks (.below names) next ∧
        expected next
  | .elsewhere root names =>
      (∀ top directory name, volume.roots[root]? = some top →
        world.LooksUp volume.collation directory name top names →
        ¬src.Is volume.collation directory name ∧ ¬dst.Is volume.collation directory name) ∧
      ∀ next, world.Onward volume src dst moving followLast followLinks (.elsewhere root names)
        next → expected next

/-- From the stretch on, everything that is walked is calm. -/
def World.Steady (start : Stretch) : Prop :=
  ∃ walked : Stretch → Prop, walked start ∧ ∀ stretch, walked stretch →
    world.Calm volume src dst moving followLast followLinks walked stretch

end Steady

namespace World

variable {start : Stretch} {expected expected' : Stretch → Prop}

theorem Calm.mono
    (h : world.Calm volume src dst moving followLast followLinks expected start)
    (himp : ∀ next, expected next → expected' next) :
    world.Calm volume src dst moving followLast followLinks expected' start := by
  cases start with
  | below names =>
      intro link target walked rest hpass
      obtain ⟨next, honward, hnext⟩ := h link target walked rest hpass
      exact ⟨next, honward, himp next hnext⟩
  | elsewhere root names => exact ⟨h.1, fun next honward => himp next (h.2 next honward)⟩

/-- A stretch is steady just when it is calm and leads to steady ones. -/
theorem steady_iff_calm : world.Steady volume src dst moving followLast followLinks start ↔
    world.Calm volume src dst moving followLast followLinks
      (world.Steady volume src dst moving followLast followLinks) start := by
  constructor
  · rintro ⟨walked, hstart, hcalm⟩
    exact (hcalm start hstart).mono fun next hnext => ⟨walked, hnext, hcalm⟩
  · intro h
    refine ⟨fun stretch => stretch = start ∨
      world.Steady volume src dst moving followLast followLinks stretch, .inl rfl, ?_⟩
    rintro stretch (rfl | ⟨walked, hstretch, hcalm⟩)
    · exact h.mono fun next => .inr
    · exact (hcalm stretch hstretch).mono fun next hnext => .inr ⟨walked, hnext, hcalm⟩

/-! ### Which walks are steady -/

/-- A walk that meets no link below the directory is steady. -/
theorem steady_of_arrives {entry : EntryId}
    (hpass : world.pass volume.collation (.entry followLast) followLinks moving.entry [] [] names =
      .ok (.arrived entry route walked)) :
    world.Steady volume src dst moving followLast followLinks (.below names) :=
  steady_iff_calm.2 fun _ _ _ _ hdetour => nomatch hpass.symm.trans hdetour

/-- So is one that meets a link with a relative target that stays below the directory, if the walk
is steady from there on. -/
theorem steady_of_inside {inner : List String}
    (hpass : world.pass volume.collation (.entry followLast) followLinks moving.entry [] [] names =
      .ok (.detour link target walked rest))
    (hparse : volume.parse target = .ok parsed) (hrelative : parsed.absolute = false)
    (hinside : Path.StaysInside walked.length (Path.parts target.toList))
    (hinner : Path.pushAll walked (Path.parts target.toList) = .ok inner)
    (hnext : world.Steady volume src dst moving followLast followLinks (.below (inner ++ rest))) :
    world.Steady volume src dst moving followLast followLinks (.below names) := by
  have hsplice : ∀ base : Path, volume.spliceLink target base.root (base.elements ++ walked) rest =
      .ok (Stretch.course base (.below (inner ++ rest))) := by
    intro base
    unfold Volume.spliceLink
    rw [hparse, ok_bind, hrelative, Path.pushAll_inside hinside, hinner]
    exact congrArg (fun names => Except.ok (base.root, names)) (List.append_assoc ..)
  refine steady_iff_calm.2 fun link' target' walked' rest' hdetour => ?_
  cases hpass.symm.trans hdetour
  exact ⟨_, .below hpass (hsplice _) (hsplice _), hnext⟩

/-- So is one that meets a link with a target from a root, if the walk is steady from there on. -/
theorem steady_of_absolute
    (hpass : world.pass volume.collation (.entry followLast) followLinks moving.entry [] [] names =
      .ok (.detour link target walked rest))
    (hparse : volume.parse target = .ok parsed) (habsolute : parsed.absolute = true)
    (hnext : world.Steady volume src dst moving followLast followLinks
      (.elsewhere parsed.root (parsed.elements ++ rest))) :
    world.Steady volume src dst moving followLast followLinks (.below names) := by
  have hsplice : ∀ base : Path, volume.spliceLink target base.root (base.elements ++ walked) rest =
      .ok (Stretch.course base (.elsewhere parsed.root (parsed.elements ++ rest))) := by
    intro base
    unfold Volume.spliceLink
    rw [hparse, ok_bind, habsolute]
    rfl
  refine steady_iff_calm.2 fun link' target' walked' rest' hdetour => ?_
  cases hpass.symm.trans hdetour
  exact ⟨_, .below hpass (hsplice _) (hsplice _), hnext⟩

/-- Elsewhere, a walk that meets no link and neither of the names that change is steady. -/
theorem steady_elsewhere {entry : EntryId}
    (hclear : ∀ top directory name, volume.roots[root]? = some top →
      world.LooksUp volume.collation directory name top names →
      ¬src.Is volume.collation directory name ∧ ¬dst.Is volume.collation directory name)
    (hpass : world.passFrom volume (.entry followLast) followLinks root names =
      .ok (.arrived entry route walked)) :
    world.Steady volume src dst moving followLast followLinks (.elsewhere root names) := by
  refine steady_iff_calm.2 ⟨hclear, fun next honward => ?_⟩
  cases honward with
  | elsewhere hdetour _ => cases hpass.symm.trans hdetour

/-! ### Steady walks from both places -/

/-- A walk over a steady stretch makes the same passes in both worlds, if single passes do. -/
theorem trail_steady {route route' : List EntryId}
    (hbefore : ∀ names, world.passFrom volume (.entry followLast) followLinks
      (src.stored moving).root ((src.stored moving).elements ++ names) =
        (world.pass volume.collation (.entry followLast) followLinks moving.entry [] [] names).map
          (Pass.prepend route (src.stored moving).elements))
    (hafter : ∀ names, after.passFrom volume (.entry followLast) followLinks dst.path.root
      (dst.path.elements ++ names) =
        (world.pass volume.collation (.entry followLast) followLinks moving.entry [] [] names).map
          (Pass.prepend route' dst.path.elements))
    (helsewhere : ∀ root names,
      world.Steady volume src dst moving followLast followLinks (.elsewhere root names) →
      after.passFrom volume (.entry followLast) followLinks root names =
        world.passFrom volume (.entry followLast) followLinks root names)
    (hsteady : world.Steady volume src dst moving followLast followLinks start) :
    (after.trail volume (.entry followLast) followLinks unseen (start.course dst.path).1
        (start.course dst.path).2).outcome.map Visit.entry =
      (world.trail volume (.entry followLast) followLinks unseen
        (start.course (src.stored moving)).1
        (start.course (src.stored moving)).2).outcome.map Visit.entry := by
  induction hlength : unseen.length using Nat.strongRecOn generalizing unseen start with
  | _ length ih =>
  rw [trail_outcome, trail_outcome]
  -- what is left once both worlds have met the same link and follow it to the next stretch
  have hfollow : ∀ (link : EntryId) (next : Stretch),
      world.Steady volume src dst moving followLast followLinks next →
      (if link ∈ unseen then
        (after.trail volume (.entry followLast) followLinks (unseen.erase link)
          (next.course dst.path).1 (next.course dst.path).2).outcome
        else .error .linkLoop).map Visit.entry =
      (if link ∈ unseen then
        (world.trail volume (.entry followLast) followLinks (unseen.erase link)
          (next.course (src.stored moving)).1 (next.course (src.stored moving)).2).outcome
        else .error .linkLoop).map Visit.entry := by
    intro link next hnext
    by_cases hlink : link ∈ unseen
    · rw [if_pos hlink, if_pos hlink]
      exact ih _ (hlength ▸ length_erase_lt hlink) hnext rfl
    · rw [if_neg hlink, if_neg hlink]
  cases start with
  | below names =>
      have hcalm := steady_iff_calm.1 hsteady
      dsimp only [Stretch.course]
      rw [hbefore, hafter]
      cases hpass : world.pass volume.collation (.entry followLast) followLinks moving.entry [] []
          names with
      | error failure => rfl
      | ok pass =>
          cases pass with
          | arrived entry route walked => rfl
          | detour link target walked rest =>
              obtain ⟨next, honward, hnext⟩ := hcalm link target walked rest hpass
              cases honward with
              | below hpass' hold hnew =>
                  cases hpass.symm.trans hpass'
                  simp only [Except.map, Pass.prepend]
                  rw [hold, hnew]
                  exact hfollow link next hnext
  | elsewhere root names =>
      dsimp only [Stretch.course]
      rw [helsewhere root names hsteady]
      cases hpass : world.passFrom volume (.entry followLast) followLinks root names with
      | error failure => rfl
      | ok pass =>
          cases pass with
          | arrived entry route walked => rfl
          | detour link target walked rest =>
              dsimp only
              cases hsplice : volume.spliceLink target root walked rest with
              | error failure =>
                  split <;> rfl
              | ok course =>
                  exact hfollow link (.elsewhere course.1 course.2)
                    ((steady_iff_calm.1 hsteady).2 _ (.elsewhere hpass hsplice))

end World

end RamFs
