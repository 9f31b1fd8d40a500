import RamFs.Handle.Open
import RamFs.Relocation
import RamFs.Proofs.Paths.Shadows
import RamFs.Proofs.Standards.Registry

/-!
Tidy worlds: every name in a directory is one that a path can have, the roots of a volume are the
directories of the root names it was made with, and a handle knows where it was opened. Whatever
is looked for there by a path text is found under a path that leads down by names from one of the
roots, also where links had to be followed on the way.
-/

namespace RamFs

open RamFs.Action

/-- A directory binds nothing but names. -/
def Entry.Named (entry : Entry) : Prop :=
  ∀ names, entry.node = .directory names → ∀ binding ∈ names.bindings, Path.IsName binding.name

/-- The volume was made for the root names that it is configured with. -/
structure Volume.Grounded (volume : Volume) : Prop where
  checked : volume.config.checkRoots = .ok ()
  size : volume.roots.length = volume.config.roots.length

/-- The handle is on the inode of its entry and keeps a path on its volume. -/
structure World.Tracks (world : World) (handle : Handle) : Prop where
  inode : world.inodeOf? handle.entry = some handle.inode
  path : ∃ volume, world.volume handle.volume = .ok volume ∧ handle.path.Lies volume.config.roots

structure World.Tidy (world : World) : Prop where
  entries : Each world.entries fun _ entry => entry.Named
  volumes : Each world.volumes fun _ volume => volume.Grounded
  handles : Each world.handles fun _ handle => world.Tracks handle

/-- Where the target is found. -/
def World.OpenTarget.resolved : World.OpenTarget → Path
  | .existing _ path => path
  | .vacant _ path => path

variable {world : World} {id : VolumeId} {volume : Volume} {path : Path} {names : List String}

/-! ### Texts -/

theorem Path.pushAll_parts_isName {found : List String} (text : String)
    (hnames : ∀ name ∈ names, IsName name) (h : pushAll names (parts text.toList) = .ok found) :
    ∀ name ∈ found, IsName name :=
  pushAll_isName hnames (fun _ hmem => not_separator_of_mem_parts hmem) h

theorem Path.parse_isName {roots : List String} {collation : Collation} {text : String}
    (h : parse roots collation text = .ok path) : ∀ name ∈ path.elements, IsName name := by
  unfold parse at h
  split at h
  case h_1 => cases h
  case h_2 =>
    split at h
    case h_1 ordinal _ rest _ =>
      obtain ⟨elements, hread, h⟩ := exists_of_bind_ok h
      cases h
      exact pushAll_isName (List.forall_mem_nil _)
        (fun _ hmem => not_separator_of_mem_parts hmem) hread
    case h_2 =>
      obtain ⟨elements, hread, h⟩ := exists_of_bind_ok h
      cases h
      exact pushAll_parts_isName text (List.forall_mem_nil _) hread

theorem Volume.spliceLink_isName {target : String} {root root' : Nat}
    {directory rest : List String} (hdirectory : ∀ name ∈ directory, Path.IsName name)
    (hrest : ∀ name ∈ rest, Path.IsName name)
    (h : volume.spliceLink target root directory rest = .ok (root', names)) :
    ∀ name ∈ names, Path.IsName name := by
  unfold Volume.spliceLink at h
  obtain ⟨parsed, hparse, h⟩ := exists_of_bind_ok h
  split at h
  case isTrue =>
    cases h
    exact List.forall_mem_append.2 ⟨Path.parse_isName hparse, hrest⟩
  case isFalse =>
    obtain ⟨elements, hread, h⟩ := exists_of_bind_ok h
    cases h
    exact List.forall_mem_append.2 ⟨Path.pushAll_parts_isName target hdirectory hread, hrest⟩

theorem Volume.linkDestination_isName {target : String} {destination : Path}
    (hpath : ∀ name ∈ path.elements, Path.IsName name)
    (h : volume.linkDestination path target = .ok destination) :
    ∀ name ∈ destination.elements, Path.IsName name := by
  unfold Volume.linkDestination at h
  obtain ⟨⟨root, elements⟩, hsplice, h⟩ := exists_of_bind_ok h
  cases h
  exact spliceLink_isName (fun name hmem => hpath name (List.dropLast_subset _ hmem))
    (List.forall_mem_nil _) hsplice

theorem Volume.Grounded.lies {root : Nat} {top : EntryId} (h : volume.Grounded)
    (htop : volume.roots[root]? = some top) (hnames : ∀ name ∈ names, Path.IsName name) :
    (volume.pathOf root names).Lies volume.config.roots := by
  refine ⟨?_, rfl, hnames⟩
  have hlt : root < volume.config.roots.length :=
    h.size ▸ (List.getElem?_eq_some_iff.1 htop).1
  change volume.config.roots[root]? = some (volume.config.roots.getD root "")
  rw [List.getD_eq_getElem?_getD, List.getElem?_eq_getElem hlt, Option.getD_some]

theorem Config.checkRoots_eq_ok {config : Config} :
    config.checkRoots = .ok () ↔ config.roots ≠ [] ∧ RootNames config.collation config.roots := by
  unfold Config.checkRoots
  split
  case isTrue hempty => exact ⟨nofun, fun h => absurd (List.isEmpty_iff.1 hempty) h.1⟩
  case isFalse hsome =>
    rw [List.isEmpty_iff] at hsome
    split
    case isTrue hbad =>
      refine ⟨nofun, fun ⟨_, hempty, hdistinct⟩ => ?_⟩
      exact (hbad.elim (fun h => hempty (List.contains_iff_mem.1 h)) fun h => h hdistinct).elim
    case isFalse hgood =>
      obtain ⟨hempty, hdistinct⟩ := not_or.1 hgood
      exact ⟨fun _ => ⟨hsome, fun hmem => hempty (List.contains_iff_mem.2 hmem),
        Classical.not_not.1 hdistinct⟩, fun _ => rfl⟩

theorem Volume.Grounded.rootNames (h : volume.Grounded) :
    RootNames volume.collation volume.config.roots :=
  (Config.checkRoots_eq_ok.1 h.checked).2

/-! ### Walks -/

/-- All names that the pass reports are names. -/
def Pass.Named : Pass → Prop
  | .arrived _ _ walked => ∀ name ∈ walked, Path.IsName name
  | .detour _ _ walked rest =>
    (∀ name ∈ walked, Path.IsName name) ∧ ∀ name ∈ rest, Path.IsName name

namespace World.Tidy

variable {goal : Goal} {followLinks : Bool} {collation : Collation} {here : EntryId}
  {route unseen : List EntryId} {walked : List String} {pass : Pass} {root : Nat} {visit : Visit}

theorem grounded (h : world.Tidy) (hvolume : world.volume id = .ok volume) : volume.Grounded :=
  h.volumes _ _ (World.volume_eq_ok hvolume)

theorem tracks (h : world.Tidy) {handleId : HandleId} {handle : Handle}
    (hhandle : world.handle handleId = .ok handle) : world.Tracks handle :=
  h.handles _ _ (by rw [← Array.getElem?_toList]; exact World.handle_eq_ok hhandle)

theorem bindings (h : world.Tidy) {directory : EntryId} {found : Directory}
    (hdirectory : world.directory directory = .ok found) :
    ∀ binding ∈ found.bindings, Path.IsName binding.name := by
  obtain ⟨entry, hentry, hnode⟩ := World.entry_of_node? (World.directory_eq_ok.1 hdirectory)
  exact h.entries _ _ (World.entry_eq_ok hentry) found hnode

theorem pass_named (h : world.Tidy) (hwalked : ∀ name ∈ walked, Path.IsName name)
    (hnames : ∀ name ∈ names, Path.IsName name)
    (hpass : world.pass collation goal followLinks here route walked names = .ok pass) :
    pass.Named := by
  induction names generalizing here route walked with
  | nil =>
      unfold World.pass at hpass
      cases hpass
      exact hwalked
  | cons name rest ih =>
      obtain ⟨hname, hrest⟩ := List.forall_mem_cons.1 hnames
      have hlonger : ∀ {last : String}, Path.IsName last →
          ∀ name ∈ walked ++ [last], Path.IsName name :=
        fun hlast => List.forall_mem_append.2 ⟨hwalked, List.forall_mem_singleton.2 hlast⟩
      by_cases hend : goal = .parent ∧ rest = []
      · obtain ⟨rfl, rfl⟩ := hend
        rw [World.pass_last_of_parent] at hpass
        obtain ⟨_, _, hpass⟩ := exists_of_bind_ok hpass
        cases hpass
        exact hlonger hname
      rw [World.pass_cons fun hparent hrest => hend ⟨hparent, hrest⟩] at hpass
      obtain ⟨directory, hdirectory, hpass⟩ := exists_of_bind_ok hpass
      split at hpass
      case h_1 => cases hpass
      case h_2 binding hfind =>
        have hbinding := h.bindings hdirectory _ (Directory.find?_mem hfind)
        split at hpass
        case h_1 => exact ih (hlonger hbinding) hrest hpass
        case h_2 =>
          split at hpass
          case isTrue =>
            cases hpass
            exact ⟨hwalked, hrest⟩
          case isFalse =>
            split at hpass
            case isTrue =>
              cases hpass
              exact hlonger hbinding
            case isFalse => cases hpass

theorem trail_lies (h : world.Tidy) (hvolume : volume.Grounded)
    (hnames : ∀ name ∈ names, Path.IsName name)
    (htrail : (world.trail volume goal followLinks unseen root names).outcome = .ok visit) :
    visit.path.Lies volume.config.roots := by
  fun_induction World.trail world volume goal followLinks unseen root names with
  | case1 => cases htrail
  | case2 unseen root names entry route walked hpass =>
      cases htrail
      obtain ⟨_, top, htop, hpass⟩ := World.passFrom_eq_ok.1 hpass
      exact hvolume.lies htop (h.pass_named (List.forall_mem_nil _) hnames hpass)
  | case3 => cases htrail
  | case4 unseen root names link target walked rest hpass _ root' names' hsplice later ih =>
      obtain ⟨_, _, _, hpass⟩ := World.passFrom_eq_ok.1 hpass
      obtain ⟨hwalked, hrest⟩ := h.pass_named (List.forall_mem_nil _) hnames hpass
      exact ih (Volume.spliceLink_isName hwalked hrest hsplice) htrail
  | case5 => cases htrail

/-- A walk arrives under a path on the volume. -/
theorem walk_lies (h : world.Tidy) (hvolume : volume.Grounded)
    (hpath : ∀ name ∈ path.elements, Path.IsName name)
    (hwalk : world.walk volume path goal followLinks = .ok visit) :
    visit.path.Lies volume.config.roots :=
  h.trail_lies hvolume hpath hwalk

end World.Tidy

theorem World.slot_isName {slot : Slot} (hpath : ∀ name ∈ path.elements, Path.IsName name)
    (hslot : world.slot id volume path = .ok slot) : Path.IsName slot.name := by
  obtain ⟨name, _, _, _, hname, _, _, _, rfl⟩ := World.slot_found hslot
  exact hpath name (List.mem_of_getLast? hname)

/-! ### What there is to open -/

namespace World.Tidy

variable {createNew : Bool} {unseen : List EntryId} {target : OpenTarget} {options : OpenOptions}
  {parent : Visit} {bound : Option Binding}

theorem lookup_lies (h : world.Tidy) (hvolume : volume.Grounded)
    (hpath : ∀ name ∈ path.elements, Path.IsName name)
    (hlookup : createTrail.lookup world volume path = .ok (parent, bound)) :
    parent.path.Lies volume.config.roots := by
  unfold createTrail.lookup at hlookup
  obtain ⟨visit, hwalk, hlookup⟩ := exists_of_bind_ok hlookup
  split at hlookup
  case h_2 => cases hlookup
  case h_1 =>
    obtain ⟨_, _, hlookup⟩ := exists_of_bind_ok hlookup
    cases hlookup
    exact h.walk_lies hvolume hpath hwalk

theorem createTrail_lies (h : world.Tidy) (hvolume : volume.Grounded)
    (hpath : ∀ name ∈ path.elements, Path.IsName name)
    (htrail : (world.createTrail volume createNew unseen path).outcome = .ok target) :
    target.resolved.Lies volume.config.roots := by
  fun_induction World.createTrail world volume createNew unseen path with
  | case1 => cases htrail
  | case2 unseen path parent hlookup =>
      cases htrail
      exact h.lookup_lies hvolume hpath hlookup
  | case3 => cases htrail
  | case4 unseen path parent binding hlookup =>
      cases htrail
      exact h.lookup_lies hvolume hpath hlookup
  | case5 => cases htrail
  | case6 unseen path parent binding hlookup _ target _ _ destination hdestination later ih =>
      have hparent := h.lookup_lies hvolume hpath hlookup
      exact ih (Volume.linkDestination_isName hparent.names hdestination) htrail
  | case7 => cases htrail

/-- What there is to open is found under a path on the volume. -/
theorem openTrail_lies (h : world.Tidy) (hvolume : volume.Grounded)
    (hpath : ∀ name ∈ path.elements, Path.IsName name)
    (htrail : (world.openTrail volume path options).outcome = .ok target) :
    target.resolved.Lies volume.config.roots := by
  unfold World.openTrail at htrail
  split at htrail
  case isTrue => exact h.createTrail_lies hvolume hpath htrail
  case isFalse =>
    obtain ⟨found, hwalk, htrail⟩ := exists_of_bind_ok htrail
    cases htrail
    exact h.walk_lies hvolume hpath hwalk

end World.Tidy

end RamFs
