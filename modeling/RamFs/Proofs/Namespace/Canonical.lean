import RamFs.Proofs.Namespace.Descents
import RamFs.Proofs.Namespace.Lasting
import RamFs.Proofs.Sessions.Creating

/-!
The one path without links of an entry. Where a walk that follows every link arrives, the names
that it reports are stored in the directories on one route from a root; a walk over them passes
no link and so comes the same way again, whether or not it may follow links. There is one route
to an entry, so that two paths have the same canonical path just when they reach the same entry.
-/

namespace RamFs

open RamFs.Action

/-- The path cut after some of its names. -/
def Path.upTo (path : Path) (count : Nat) : Path :=
  path.withElements (path.elements.take count)

/-- The visit went down a route without links, and its path spells the names on that route as
they are stored. -/
structure World.LinkFree (world : World) (volume : Volume) (found : Visit) : Prop where
  /-- However it is walked, the path reaches the entry again and resolves to itself. -/
  whole : ∀ followLast followLinks,
    world.walk volume found.path (.entry followLast) followLinks = .ok found
  /-- So does every path above it, and none of them names a link. -/
  above : ∀ count ≤ found.path.elements.length, ∃ here, found.route[count]? = some here ∧
    world.linkTarget? here = none ∧ ∀ followLast followLinks,
      world.walk volume (found.path.upTo count) (.entry followLast) followLinks =
        .ok ⟨here, found.route.take (count + 1), found.path.upTo count⟩
  /-- Every name is bound, in just this spelling, in the directory that the names before it
  lead to. -/
  stored : ∀ count name, found.path.elements[count]? = some name → ∃ here names binding,
    found.route[count]? = some here ∧ world.directory here = .ok names ∧
    names.find? volume.collation name = some binding ∧ binding.name = name ∧
    found.route[count + 1]? = some binding.entry

namespace World

variable {world : World} {id : VolumeId} {volume : Volume} {collation : Collation}
  {here entry top : EntryId} {route route' unseen : List EntryId}
  {walked walked' names : List String} {root : Nat} {visit first second : Visit} {path : Path}
  {bindings : List Binding} {a b text : String}

/-! ### Where walks arrive that follow every link -/

theorem pass_arrived_no_link (hhere : world.linkTarget? here = none)
    (h : world.pass collation (.entry true) true here route walked names =
      .ok (.arrived entry route' walked')) : world.linkTarget? entry = none := by
  induction names generalizing here route walked with
  | nil =>
      rw [pass_nil] at h
      cases h
      exact hhere
  | cons name rest ih =>
      rw [pass_cons ne_nil_of_entry_eq_parent] at h
      obtain ⟨directory, _, h⟩ := exists_of_bind_ok h
      cases hfind : directory.find? collation name with
      | none =>
          rw [hfind] at h
          cases h
      | some binding =>
          rw [hfind] at h
          dsimp only at h
          cases hlink : world.linkTarget? binding.entry with
          | none =>
              rw [hlink] at h
              exact ih hlink h
          | some target =>
              rw [hlink] at h
              cases rest <;> cases h

/-- The last pass of a walk arrives where the walk arrives. -/
theorem trail_last {goal : Goal} {followLinks : Bool}
    (h : (world.trail volume goal followLinks unseen root names).outcome = .ok visit) :
    ∃ root names walked, world.passFrom volume goal followLinks root names =
      .ok (.arrived visit.entry visit.route walked) ∧ visit.path = volume.pathOf root walked := by
  fun_induction World.trail world volume goal followLinks unseen root names with
  | case1 => cases h
  | case2 unseen root names entry route walked hpass =>
      cases h
      exact ⟨root, names, walked, hpass, rfl⟩
  | case3 => cases h
  | case4 _ _ _ _ _ _ _ _ _ _ _ _ _ ih => exact ih h
  | case5 => cases h

theorem walk_arrives_no_link (hn : world.namespace.Sound) (hvolume : world.volume id = .ok volume)
    (h : world.walk volume path (.entry true) true = .ok visit) :
    world.linkTarget? visit.entry = none := by
  obtain ⟨root, names, walked, hlast, -⟩ := trail_last h
  obtain ⟨-, top, htop, hpass⟩ := passFrom_eq_ok.1 hlast
  obtain ⟨rootNames, hroot⟩ := hn.root_directory ⟨_, ground?_of_volume hvolume, htop⟩
  exact pass_arrived_no_link (linkTarget?_of_directory hroot) hpass

/-- The keys on a route below a root are those of the names. -/
theorem keys_of_leads (hn : world.namespace.Sound)
    (hground : world.namespace.ground? id = some volume.ground)
    (hroot : world.namespace.IsRoot id root top)
    (hleads : world.namespace.Leads top bindings entry) :
    (bindings.map Binding.name).map volume.collation.key = bindings.map Binding.key := by
  induction hleads with
  | top => rfl
  | step hbefore hbinds ih =>
      have hkey := hn.keyed_in hground ⟨root, top, _, hroot, hbefore⟩ hbinds
      rw [List.map_append, List.map_append, List.map_append, ih, List.map_singleton,
        List.map_singleton, List.map_singleton, hkey]
      rfl

/-- A pass over the stored names on a route without links goes down the route, whatever it may
follow. -/
theorem passFrom_down (hn : world.namespace.Sound)
    (hground : world.namespace.ground? id = some volume.ground)
    (hroot : world.namespace.IsRoot id root top)
    (hleads : world.namespace.Leads top bindings entry) (hend : world.linkTarget? entry = none)
    (followLast followLinks : Bool) :
    world.passFrom volume (.entry followLast) followLinks root (bindings.map Binding.name) =
      .ok (.arrived entry (top :: bindings.map Binding.entry) (bindings.map Binding.name)) := by
  have hpass : world.pass volume.collation (.entry followLast) followLinks top [top] []
      (bindings.map Binding.name ++ []) =
        world.pass volume.collation (.entry followLast) followLinks entry
          ([top] ++ bindings.map Binding.entry) ([] ++ bindings.map Binding.name) [] :=
    pass_down hn.ordered hleads (keys_of_leads hn hground hroot hleads)
      (linkTarget?_of_leads hleads hend) ne_nil_of_entry_eq_parent
  rw [List.append_nil, pass_nil] at hpass
  obtain ⟨ground, hground', htop⟩ := hroot
  obtain rfl := Option.some.inj (hground.symm.trans hground')
  exact passFrom_eq_ok.2 ⟨nofun, top, htop, hpass⟩

/-- So does a walk. -/
theorem walk_down (hn : world.namespace.Sound)
    (hground : world.namespace.ground? id = some volume.ground)
    (hroot : world.namespace.IsRoot id path.root top)
    (hleads : world.namespace.Leads top bindings entry) (hend : world.linkTarget? entry = none)
    (helements : path.elements = bindings.map Binding.name) (followLast followLinks : Bool) :
    world.walk volume path (.entry followLast) followLinks =
      .ok ⟨entry, top :: bindings.map Binding.entry, volume.pathOf path.root path.elements⟩ := by
  unfold World.walk World.trail
  rw [helements, passFrom_down hn hground hroot hleads hend]

/-! ### Paths without links -/

/-- Where a walk that follows every link arrives, its path is free of links. -/
theorem walk_linkFree (hn : world.namespace.Sound) (hvolume : world.volume id = .ok volume)
    (h : world.walk volume path (.entry true) true = .ok visit) : world.LinkFree volume visit := by
  have hground := ground?_of_volume hvolume
  have hend := walk_arrives_no_link hn hvolume h
  obtain ⟨top, bindings, hroot, hleads, hroute, helements⟩ := walk_entry_arrives hground h
  have hpath := trail_pathOf h
  obtain ⟨entry, route, visited⟩ := visit
  dsimp only at hroot hleads hroute helements hpath hend
  rw [List.append_nil] at helements
  subst hroute
  constructor
  case whole =>
    intro followLast followLinks
    rw [walk_down hn hground hroot hleads hend helements, ← hpath]
  case above =>
    intro count hcount
    dsimp only at hcount ⊢
    rw [← List.take_append_drop count bindings] at hleads
    obtain ⟨here, hhere, hrest⟩ := hleads.split
    have hlink : world.linkTarget? here = none := by
      -- what is followed by a name is a directory, and the end is no link
      cases hdrop : bindings.drop count with
      | nil =>
          rw [hdrop] at hrest
          rw [← hrest.eq_top]
          exact hend
      | cons binding rest =>
          rw [hdrop] at hrest
          obtain ⟨⟨names, hnode, -⟩, -⟩ := hrest.head
          exact linkTarget?_of_directory hnode
    -- the route to the entry above is the beginning of the whole route
    have htake : top :: (bindings.take count).map Binding.entry =
        (top :: bindings.map Binding.entry).take (count + 1) := by
      rw [List.take_succ_cons, List.map_take]
    refine ⟨here, ?_, hlink, fun followLast followLinks => ?_⟩
    · exact hhere.passes_at (by simpa [helements] using hcount)
    · have hnames : (visited.upTo count).elements = (bindings.take count).map Binding.name := by
        rw [List.map_take, ← helements]
        rfl
      have hroot' : world.namespace.IsRoot id (visited.upTo count).root top := hroot
      rw [walk_down hn hground hroot' hhere hlink hnames, htake, hpath]
      rfl
  case stored =>
    intro count name hname
    dsimp only at hname ⊢
    rw [helements, List.getElem?_map] at hname
    obtain ⟨binding, hbinding, rfl⟩ := Option.map_eq_some_iff.1 hname
    obtain ⟨hcount, hat⟩ := List.getElem?_eq_some_iff.1 hbinding
    have hcut : bindings = bindings.take count ++ binding :: bindings.drop (count + 1) := by
      rw [← hat, ← List.drop_eq_getElem_cons hcount, List.take_append_drop]
    rw [hcut] at hleads
    obtain ⟨here, names, hhere, hnode, hmem⟩ := hleads.passes_directory
    have hkey := hn.keyed_in hground ⟨_, top, _, hroot, hhere⟩ ⟨names, hnode, hmem⟩
    refine ⟨here, names, binding, hhere.passes_at hcount.le, directory_eq_ok.2 hnode,
      (hn.ordered hnode).find?_eq_some hmem hkey, rfl, ?_⟩
    · rw [List.getElem?_cons_succ, List.getElem?_map, hbinding]
      rfl

/-! ### One canonical path for one entry -/

/-- Walks that arrive at one entry report one path. -/
theorem path_eq_of_entry (hn : world.namespace.Sound) (hvolume : world.volume id = .ok volume)
    {path' : Path} (hfirst : world.walk volume path (.entry true) true = .ok first)
    (hsecond : world.walk volume path' (.entry true) true = .ok second)
    (hentry : first.entry = second.entry) : first.path = second.path := by
  have hground := ground?_of_volume hvolume
  obtain ⟨top, bindings, hroot, hleads, -, helements⟩ := walk_entry_arrives hground hfirst
  obtain ⟨top', bindings', hroot', hleads', -, helements'⟩ := walk_entry_arrives hground hsecond
  obtain ⟨-, hordinal, -, rfl⟩ := hn.route_unique hroot hroot' hleads (hentry ▸ hleads')
  rw [trail_pathOf hfirst, trail_pathOf hsecond, hordinal, helements, helements']

/-- The inode among the attributes of an entry is the one that tells files apart. -/
theorem attributes_inode {found : Entry} (hn : world.namespace.Sound)
    (h : world.entry entry = .ok found) :
    ∃ attributes, world.attributes found = .ok attributes ∧
      attributes.inode = world.inodeOf? entry := by
  have hinode := inodeOf?_of_entry h
  unfold World.attributes
  cases hkind : found.node with
  | directory names =>
      rw [hkind] at hinode
      exact ⟨_, rfl, hinode.symm⟩
  | symlink target =>
      rw [hkind] at hinode
      exact ⟨_, rfl, hinode.symm⟩
  | file file =>
      rw [hkind] at hinode
      obtain ⟨stored, hstored⟩ := inode_of_lt (hn.backed (hkind ▸ node?_of_entry h))
      dsimp only
      rw [hstored]
      exact ⟨_, rfl, hinode.symm⟩

theorem visit_eq_ok {followLast : Bool} (h : world.visit id text followLast = .ok (volume, visit)) :
    world.volume id = .ok volume ∧ ∃ path, volume.parse text = .ok path ∧
      world.walk volume path (.entry followLast) true = .ok visit := by
  unfold World.visit at h
  obtain ⟨_, hvolume, h⟩ := exists_of_bind_ok h
  obtain ⟨path, hparse, h⟩ := exists_of_bind_ok h
  obtain ⟨_, hwalk, h⟩ := exists_of_bind_ok h
  cases h
  exact ⟨hvolume, path, hparse, hwalk⟩

/-- What a walk comes to has attributes. -/
theorem metadata_of_visit (hn : world.namespace.Sound)
    (h : world.visit id text true = .ok (volume, visit)) :
    ∃ attributes, world.metadata id text = .ok attributes ∧
      attributes.inode = world.inodeOf? visit.entry := by
  obtain ⟨hvolume, path, -, hwalk⟩ := visit_eq_ok h
  obtain ⟨node, hnode⟩ :=
    hn.node_of_inTree (walk_entry_arrives (ground?_of_volume hvolume) hwalk).inTree
  obtain ⟨found, hfound, -⟩ := entry_of_node? hnode
  obtain ⟨attributes, hattributes, hinode⟩ := attributes_inode hn hfound
  refine ⟨attributes, ?_, hinode⟩
  unfold World.metadata
  rw [h, ok_bind]
  dsimp only
  rw [hfound, ok_bind, hattributes]

end World

/-- Both texts name files, and the files have one inode. -/
def World.ShareInode (world : World) (id : VolumeId) (a b : String) : Prop :=
  ∃ first second inode, world.metadata id a = .ok first ∧ world.metadata id b = .ok second ∧
    first.inode = some inode ∧ second.inode = some inode

namespace World

variable {world : World} {id : VolumeId} {volume : Volume} {first second : Visit} {a b text : String}

theorem canonicalize_of_visit (h : world.visit id text true = .ok (volume, first)) :
    world.canonicalize id text = .ok first.path := by
  unfold World.canonicalize
  rw [h]
  rfl

theorem canonicalize_eq_iff (hn : world.namespace.Sound)
    (hfirst : world.visit id a true = .ok (volume, first))
    (hsecond : world.visit id b true = .ok (volume, second)) :
    world.canonicalize id a = world.canonicalize id b ↔ first.entry = second.entry := by
  obtain ⟨hvolume, path, -, hwalk⟩ := visit_eq_ok hfirst
  obtain ⟨-, path', -, hwalk'⟩ := visit_eq_ok hsecond
  rw [canonicalize_of_visit hfirst, canonicalize_of_visit hsecond]
  constructor
  · -- both visits are where a walk over the one path arrives
    intro hpath
    have hagain := (walk_linkFree hn hvolume hwalk).whole true true
    rw [Except.ok.inj hpath, (walk_linkFree hn hvolume hwalk').whole true true] at hagain
    rw [Except.ok.inj hagain]
  · exact fun hentry => congrArg _ (path_eq_of_entry hn hvolume hwalk hwalk' hentry)

theorem shareInode_iff (hn : world.namespace.Sound)
    (hfirst : world.visit id a true = .ok (volume, first))
    (hsecond : world.visit id b true = .ok (volume, second)) :
    world.ShareInode id a b ↔ ∃ inode, world.inodeOf? first.entry = some inode ∧
      world.inodeOf? second.entry = some inode := by
  obtain ⟨attributes, hattributes, hinode⟩ := metadata_of_visit hn hfirst
  obtain ⟨attributes', hattributes', hinode'⟩ := metadata_of_visit hn hsecond
  unfold ShareInode
  rw [hattributes, hattributes', ← hinode, ← hinode']
  simp

theorem isSameFile_of_visits (hn : world.namespace.Sound)
    (hfirst : world.visit id a true = .ok (volume, first))
    (hsecond : world.visit id b true = .ok (volume, second)) :
    ∃ same, world.isSameFile id a b = .ok same ∧
      (same = true ↔ world.canonicalize id a = world.canonicalize id b ∨
        world.ShareInode id a b) := by
  refine ⟨first.entry = second.entry || ((world.inodeOf? first.entry).isSome &&
    world.inodeOf? first.entry = world.inodeOf? second.entry), ?_, ?_⟩
  · unfold World.isSameFile
    rw [hfirst, hsecond]
    rfl
  · rw [canonicalize_eq_iff hn hfirst hsecond, shareInode_iff hn hfirst hsecond, Bool.or_eq_true,
      Bool.and_eq_true, decide_eq_true_iff, decide_eq_true_iff, Option.isSome_iff_exists]
    refine or_congr_right ⟨?_, ?_⟩
    · rintro ⟨⟨inode, hinode⟩, hsame⟩
      exact ⟨inode, hinode, hsame ▸ hinode⟩
    · rintro ⟨inode, hinode, hinode'⟩
      exact ⟨⟨inode, hinode⟩, hinode.trans hinode'.symm⟩

/-- A canonical path is the one path without links of its entry. It is walked in one way only and
stands for itself, and so does every path above it; its names are spelled as they are stored. Two
texts have the same canonical path just when they reach the same entry, and they are the same
file just when they have the same canonical path or are files with one inode. -/
theorem canonical_path_is_link_free (h : Reachable world) :
    (∀ text path, world.canonicalize id text = .ok path → ∃ volume found,
      world.visit id text true = .ok (volume, found) ∧ found.path = path ∧
      world.LinkFree volume found) ∧
    ∀ a b volume first second, world.visit id a true = .ok (volume, first) →
      world.visit id b true = .ok (volume, second) →
      (world.canonicalize id a = world.canonicalize id b ↔ first.entry = second.entry) ∧
      ∃ same, world.isSameFile id a b = .ok same ∧
        (same = true ↔ world.canonicalize id a = world.canonicalize id b ∨
          world.ShareInode id a b) := by
  refine ⟨fun text path hcanonical => ?_, fun a b volume first second hfirst hsecond =>
    ⟨canonicalize_eq_iff h.sound hfirst hsecond, isSameFile_of_visits h.sound hfirst hsecond⟩⟩
  obtain ⟨⟨volume, found⟩, hvisit, hpath⟩ := exists_of_bind_ok hcanonical
  obtain ⟨hvolume, _, -, hwalk⟩ := visit_eq_ok hvisit
  exact ⟨volume, found, hvisit, Except.ok.inj hpath, walk_linkFree h.sound hvolume hwalk⟩

/-- A volume without regard to case, with a file that a link leads to and that has a second
name. -/
def twofold : World :=
  List.foldl Call.perform {} [.newVolume { collation := .insensitivePreserving },
    .onPath ⟨0⟩ (.createDirectory "/Dir" {}), .onPath ⟨0⟩ (.createSymlink "/Link" "DIR"),
    .writeAll ⟨0⟩ "/dir/File" [1], .onPath ⟨0⟩ (.createHardLink "/Twin" "/link/FILE")]

/-- Through the link the path of the file has its names as they are stored, and the second name is
the same file on another path. -/
theorem twofold_canonical_path :
    Reachable twofold ∧
    (∃ volume found, twofold.visit ⟨0⟩ "/LINK/FILE" true = .ok (volume, found) ∧
      found.path = ⟨0, "/", ["Dir", "File"], true⟩ ∧ twofold.LinkFree volume found) ∧
    ∃ volume first second, twofold.visit ⟨0⟩ "/LINK/FILE" true = .ok (volume, first) ∧
      twofold.visit ⟨0⟩ "/twin" true = .ok (volume, second) ∧ first.entry ≠ second.entry ∧
      twofold.canonicalize ⟨0⟩ "/LINK/FILE" ≠ twofold.canonicalize ⟨0⟩ "/twin" ∧
      twofold.ShareInode ⟨0⟩ "/LINK/FILE" "/twin" := by
  have hreach : Reachable twofold := Reachable.start.run _
  obtain ⟨hfree, hsame⟩ := @canonical_path_is_link_free twofold ⟨0⟩ hreach
  have hfirst : twofold.visit ⟨0⟩ "/LINK/FILE" true =
      .ok ({ config := { collation := .insensitivePreserving }, roots := [⟨0⟩] },
        ⟨⟨3⟩, [⟨0⟩, ⟨1⟩, ⟨3⟩], ⟨0, "/", ["Dir", "File"], true⟩⟩) := by
    decide +kernel
  have hsecond : twofold.visit ⟨0⟩ "/twin" true =
      .ok ({ config := { collation := .insensitivePreserving }, roots := [⟨0⟩] },
        ⟨⟨4⟩, [⟨0⟩, ⟨4⟩], ⟨0, "/", ["Twin"], true⟩⟩) := by
    decide +kernel
  obtain ⟨hcanonical, same, hanswer, hreason⟩ := hsame _ _ _ _ _ hfirst hsecond
  have hdifferent : twofold.canonicalize ⟨0⟩ "/LINK/FILE" ≠ twofold.canonicalize ⟨0⟩ "/twin" :=
    fun hequal => absurd (hcanonical.1 hequal) (by decide)
  have htrue : twofold.isSameFile ⟨0⟩ "/LINK/FILE" "/twin" = .ok true := by decide +kernel
  obtain rfl := Except.ok.inj (hanswer.symm.trans htrue)
  exact ⟨hreach, hfree _ _ (canonicalize_of_visit hfirst), _, _, _, hfirst, hsecond, by decide,
    hdifferent, (hreason.1 rfl).resolve_left hdifferent⟩

end World

end RamFs
