import RamFs.Proofs.Namespace.Canonical
import RamFs.Proofs.Namespace.Passes
import RamFs.Proofs.Relocations.Stretches

/-!
Walks in two legs. A path with more names behind it is walked by going where the path leads and on
from there. The passes of the first leg meet the links that they meet without the names, and from
where the last of them arrives it goes on as a pass over the canonical path and the names does. Only
what was followed on the first leg may not be followed again on the second: the whole walk gives up
where the two legs have a link in common, and ends as the second leg does where they have none.
-/

namespace RamFs

open RamFs.Action

/-- What becomes of a pass when there are more names behind those it went over. -/
def Pass.further (world : World) (collation : Collation) (goal : Goal) (names : List String) :
    Pass → Except Failure Pass
  | .arrived entry route walked => world.pass collation goal true entry route walked names
  | .detour link target walked rest => .ok (.detour link target walked (rest ++ names))

theorem Volume.spliceLink_append (volume : Volume) (target : String) (root : Nat)
    (directory rest names : List String) :
    volume.spliceLink target root directory (rest ++ names) =
      (volume.spliceLink target root directory rest).map fun next =>
        (next.1, next.2 ++ names) := by
  unfold Volume.spliceLink
  cases volume.parse target with
  | error failure => rfl
  | ok parsed =>
      rw [ok_bind, ok_bind]
      by_cases habsolute : parsed.absolute = true
      · rw [if_pos habsolute, if_pos habsolute, ← List.append_assoc]
        rfl
      · rw [if_neg habsolute, if_neg habsolute]
        cases Path.pushAll directory (Path.parts target.toList) with
        | error failure => rfl
        | ok elements =>
            rw [ok_bind, ok_bind, ← List.append_assoc]
            rfl

namespace World

variable {world : World} {id : VolumeId} {volume : Volume} {collation : Collation} {goal : Goal}
  {followLinks : Bool} {here entry : EntryId} {route unseen seen : List EntryId}
  {walked front names : List String} {root : Nat} {path : Path} {found : Visit}

/-! ### One pass over more names -/

theorem followsAt_of_names (hnames : names ≠ []) :
    followsAt goal followLinks names = followLinks := by
  cases names with
  | nil => exact absurd rfl hnames
  | cons name rest => cases goal <;> rfl

theorem followsAt_all (names : List String) : followsAt (.entry true) true names = true := by
  cases names <;> rfl

theorem pass_append (hnames : names ≠ []) :
    world.pass collation goal true here route walked (front ++ names) =
      world.pass collation (.entry true) true here route walked front >>=
        Pass.further world collation goal names := by
  induction front generalizing here route walked with
  | nil =>
      rw [List.nil_append, pass_nil]
      rfl
  | cons name rest ih =>
      have hmore : rest ++ names ≠ [] := List.append_ne_nil_of_right_ne_nil rest hnames
      rw [List.cons_append, pass_cons fun _ => hmore, pass_cons ne_nil_of_entry_eq_parent]
      cases world.directory here with
      | error failure => rfl
      | ok directory =>
          rw [ok_bind, ok_bind]
          cases directory.find? collation name with
          | none => rfl
          | some binding =>
              dsimp only
              cases world.linkTarget? binding.entry with
              | none => exact ih
              | some target =>
                  dsimp only
                  rw [followsAt_of_names hmore, followsAt_all, if_pos rfl, if_pos rfl]
                  rfl

theorem passFrom_append (hnames : names ≠ []) :
    world.passFrom volume goal true root (front ++ names) =
      world.passFrom volume (.entry true) true root front >>=
        Pass.further world volume.collation goal names := by
  rw [passFrom_of_names fun _ => List.append_ne_nil_of_right_ne_nil front hnames,
    passFrom_of_names ne_nil_of_entry_eq_parent]
  cases volume.roots[root]? with
  | none => rfl
  | some top => exact pass_append hnames

/-- A pass over the names that a pass has walked arrives where that one arrived. -/
theorem passFrom_again (hn : world.namespace.Sound) (hvolume : world.volume id = .ok volume)
    (h : world.passFrom volume (.entry true) true root front =
      .ok (.arrived entry route walked)) :
    world.passFrom volume (.entry true) true root walked = .ok (.arrived entry route walked) := by
  have hground := ground?_of_volume hvolume
  obtain ⟨-, top, bindings, hroot, hleads, rfl, hwalked⟩ := passFrom_arrived hground h
  rw [show walked = bindings.map Binding.name from hwalked.trans (List.append_nil _)]
  obtain ⟨_, _, htop, hpass⟩ := passFrom_eq_ok.1 h
  obtain ⟨rootNames, hrootNames⟩ := hn.root_directory ⟨_, hground, htop⟩
  have hend := pass_arrived_no_link (linkTarget?_of_directory hrootNames) hpass
  exact passFrom_down hn hground hroot hleads hend true true

/-! ### The second leg -/

/-- Once the first leg is over, the walk goes on as one from where the first leg led, without the
links that it has followed. -/
theorem trail_append (hn : world.namespace.Sound) (hvolume : world.volume id = .ok volume)
    (hnames : names ≠ [])
    (h : (world.trail volume (.entry true) true unseen root front).outcome = .ok found) :
    (world.trail volume goal true unseen root (front ++ names)).outcome =
      (world.trail volume goal true
        (unseen.diff (world.trail volume (.entry true) true unseen root front).followed)
        found.path.root (found.path.elements ++ names)).outcome := by
  fun_induction World.trail world volume (.entry true) true unseen root front with
  | case1 => cases h
  | case2 unseen root front entry route walked hpass =>
      cases h
      have hsame : world.passFrom volume goal true root (front ++ names) =
          world.passFrom volume goal true root (walked ++ names) := by
        rw [passFrom_append hnames, passFrom_append hnames, hpass, passFrom_again hn hvolume hpass]
      rw [trail_outcome, hsame, ← trail_outcome]
      rfl
  | case3 => cases h
  | case4 unseen root front link target walked rest hpass hlink root' names' hsplice later ih =>
      rw [trail_outcome, passFrom_append hnames, hpass, ok_bind]
      dsimp only [Pass.further]
      rw [if_pos hlink, volume.spliceLink_append, hsplice, List.diff_cons]
      exact ih h
  | case5 => cases h

/-- With some links seen before, a walk gives up at the first of them that it meets, and ends as it
would without them if it meets none. -/
theorem trail_diff (hunseen : unseen.Nodup) :
    ((world.trail volume goal followLinks unseen root names).followed.Disjoint seen ∧
      (world.trail volume goal followLinks (unseen.diff seen) root names).outcome =
        (world.trail volume goal followLinks unseen root names).outcome) ∨
    ¬(world.trail volume goal followLinks unseen root names).followed.Disjoint seen ∧
      (world.trail volume goal followLinks (unseen.diff seen) root names).outcome =
        .error .linkLoop := by
  rw [show (world.trail volume goal followLinks (unseen.diff seen) root names).outcome = _ from
    trail_outcome volume goal]
  fun_induction World.trail world volume goal followLinks unseen root names with
  | case1 unseen root names failure hpass =>
      rw [hpass]
      exact .inl ⟨List.disjoint_nil_left _, rfl⟩
  | case2 unseen root names entry route walked hpass =>
      rw [hpass]
      exact .inl ⟨List.disjoint_nil_left _, rfl⟩
  | case3 unseen root names link target walked rest hpass hlink failure hsplice =>
      rw [hpass]
      dsimp only
      by_cases hseen : link ∈ seen
      · rw [if_neg fun hleft => (hunseen.mem_sdiff_iff.1 hleft).2 hseen]
        exact .inr ⟨fun hapart => hapart List.mem_cons_self hseen, rfl⟩
      · rw [if_pos (hunseen.mem_sdiff_iff.2 ⟨hlink, hseen⟩), hsplice]
        exact .inl ⟨List.singleton_disjoint.2 hseen, rfl⟩
  | case4 unseen root names link target walked rest hpass hlink root' names' hsplice later ih =>
      rw [hpass]
      dsimp only
      by_cases hseen : link ∈ seen
      · rw [if_neg fun hleft => (hunseen.mem_sdiff_iff.1 hleft).2 hseen]
        exact .inr ⟨fun hapart => hapart List.mem_cons_self hseen, rfl⟩
      · rw [if_pos (hunseen.mem_sdiff_iff.2 ⟨hlink, hseen⟩), hsplice, ok_bind, List.diff_erase,
          List.disjoint_cons_left]
        rw [← trail_outcome] at ih
        obtain ⟨hapart, hsame⟩ | ⟨hmet, hloop⟩ := ih (hunseen.erase link)
        · exact .inl ⟨⟨hseen, hapart⟩, hsame⟩
        · exact .inr ⟨fun hall => hmet hall.2, hloop⟩
  | case5 unseen root names link target walked rest hpass hlink =>
      rw [hpass]
      dsimp only
      rw [if_neg fun hleft => hlink (hunseen.mem_sdiff_iff.1 hleft).1]
      exact .inl ⟨List.disjoint_nil_left _, rfl⟩

/-- The links that a walk follows when it may follow any. -/
def followed (world : World) (volume : Volume) (path : Path) (goal : Goal) : List EntryId :=
  (world.trail volume goal true world.links path.root path.elements).followed

/-- Where the two legs have no link in common the whole walk ends as the second leg does, and where
they have one it gives up. -/
theorem walk_extend (hn : world.namespace.Sound) (hvolume : world.volume id = .ok volume)
    (hnames : names ≠ []) (h : world.walk volume path (.entry true) true = .ok found)
    (goal : Goal) :
    ((world.followed volume (found.path.extend names) goal).Disjoint
        (world.followed volume path (.entry true)) ∧
      world.walk volume (path.extend names) goal true =
        world.walk volume (found.path.extend names) goal true) ∨
    ¬(world.followed volume (found.path.extend names) goal).Disjoint
        (world.followed volume path (.entry true)) ∧
      world.walk volume (path.extend names) goal true = .error .linkLoop := by
  have hleg : world.walk volume (path.extend names) goal true =
      (world.trail volume goal true (world.links.diff (world.followed volume path (.entry true)))
        found.path.root (found.path.elements ++ names)).outcome :=
    trail_append hn hvolume hnames h
  rw [hleg]
  exact trail_diff nodup_links

/-- A path with more names behind it is resolved in two legs. Wherever the path leads, walking on
over the names from there ends as the whole walk does, whatever the walk is to find, unless the
whole walk gives up for meeting a link again; it does so when the second leg alone does, and it
does not when it follows no link on both legs. -/
theorem resolution_in_two_legs (h : Reachable world) (hvolume : world.volume id = .ok volume)
    (hpath : world.walk volume path (.entry true) true = .ok found) (hnames : names ≠ [])
    (goal : Goal) :
    (world.walk volume (path.extend names) goal true = .error .linkLoop ∨
      world.walk volume (path.extend names) goal true =
        world.walk volume (found.path.extend names) goal true) ∧
    (world.walk volume (found.path.extend names) goal true = .error .linkLoop →
      world.walk volume (path.extend names) goal true = .error .linkLoop) ∧
    ((world.followed volume (found.path.extend names) goal).Disjoint
        (world.followed volume path (.entry true)) →
      world.walk volume (path.extend names) goal true =
        world.walk volume (found.path.extend names) goal true) := by
  obtain ⟨-, hsame⟩ | ⟨hmet, hloop⟩ := walk_extend h.sound hvolume hnames hpath goal
  · exact ⟨.inr hsame, hsame.trans, fun _ => hsame⟩
  · exact ⟨.inl hloop, fun _ => hloop, fun hapart => absurd hapart hmet⟩

/-- A volume with a link to a directory in which another link comes back through the first. -/
def recrossed : World :=
  List.foldl Call.perform {} [.newVolume {}, .onPath ⟨0⟩ (.createDirectory "/d" {}),
    .onPath ⟨0⟩ (.createSymlink "/l" "d"), .onPath ⟨0⟩ (.createFile "/d/f" {}),
    .onPath ⟨0⟩ (.createSymlink "/d/back" "../l/f")]

/-- The file is found through the link as it is found in the directory, but the way back through
the link leads to it from the directory only. -/
theorem recrossed_in_two_legs :
    Reachable recrossed ∧ ∃ volume found, recrossed.volume ⟨0⟩ = .ok volume ∧
      recrossed.walk volume ⟨0, "/", ["l"], true⟩ (.entry true) true = .ok found ∧
      found.path = ⟨0, "/", ["d"], true⟩ ∧
      recrossed.walk volume ⟨0, "/", ["l", "f"], true⟩ (.entry true) true =
        recrossed.walk volume ⟨0, "/", ["d", "f"], true⟩ (.entry true) true ∧
      recrossed.walk volume ⟨0, "/", ["l", "back"], true⟩ (.entry true) true =
        .error .linkLoop ∧
      (recrossed.walk volume ⟨0, "/", ["d", "back"], true⟩ (.entry true) true).map Visit.entry =
        .ok ⟨3⟩ := by
  have hreach : Reachable recrossed := Reachable.start.run _
  have hvolume : recrossed.volume ⟨0⟩ = .ok { config := {}, roots := [⟨0⟩] } := by decide +kernel
  have hpath : recrossed.walk { config := {}, roots := [⟨0⟩] } ⟨0, "/", ["l"], true⟩ (.entry true)
      true = .ok ⟨⟨1⟩, [⟨0⟩, ⟨1⟩], ⟨0, "/", ["d"], true⟩⟩ := by
    decide +kernel
  have hdirect : ["f"] ≠ [] := by decide
  have hreturn : ["back"] ≠ [] := by decide
  obtain ⟨-, -, hfile⟩ := resolution_in_two_legs hreach hvolume hpath hdirect (.entry true)
  obtain ⟨hback, -, -⟩ := resolution_in_two_legs hreach hvolume hpath hreturn (.entry true)
  have hfound : (recrossed.walk { config := {}, roots := [⟨0⟩] } ⟨0, "/", ["d", "back"], true⟩
      (.entry true) true).map Visit.entry = .ok ⟨3⟩ := by
    decide +kernel
  have hnone : recrossed.followed { config := {}, roots := [⟨0⟩] } ⟨0, "/", ["d", "f"], true⟩
      (.entry true) = [] := by
    decide +kernel
  refine ⟨hreach, _, _, hvolume, hpath, rfl, hfile ?_, hback.resolve_right ?_, hfound⟩
  · intro link hlink
    have hmem : link ∈ [] := by
      rw [← hnone]
      exact hlink
    exact nomatch hmem
  · decide +kernel

end World

end RamFs
