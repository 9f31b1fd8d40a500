import RamFs.Outline
import RamFs.Proofs.Namespace.Listing

/-!
Outlines of whole volumes. An outline asks for one path after the other, each as a text, and
finds the paths below a directory in its listing. Where all these texts are read as the paths that
they show, the rows are the entries of the volume, each of them once.
-/

namespace RamFs

open RamFs.Action

/-- Where the entries of a volume stand: a root at the path of its root name, and what a directory
binds at the path of the directory with the name behind it, as it is stored. -/
inductive World.StandsAt (world : World) (id : VolumeId) (volume : Volume) :
    Path → EntryId → Prop where
  | root {ordinal : Nat} {top : EntryId} : world.namespace.IsRoot id ordinal top →
      world.StandsAt id volume (volume.pathOf ordinal []) top
  | child {path : Path} {directory : EntryId} {binding : Binding} :
      world.StandsAt id volume path directory → world.namespace.Binds directory binding →
      world.StandsAt id volume (path.extend [binding.name]) binding.entry

/-- The text of every entry's path is read as that path. -/
def World.Legible (world : World) (id : VolumeId) (volume : Volume) : Prop :=
  ∀ path entry, world.StandsAt id volume path entry → volume.parse path.text = .ok path

/-- The row shows the path, the attributes of the entry and, of a link, its target. -/
def OutlineRow.Describes (row : OutlineRow) (world : World) (path : Path) (entry : EntryId) :
    Prop :=
  row.path = path.text ∧ ∃ found attributes, world.entry entry = .ok found ∧
    world.attributes found = .ok attributes ∧ row.report = .ok (attributes, found.linkTarget?)

/-- The outline of a volume is its tree. -/
structure World.Outlined (world : World) (id : VolumeId) (volume : Volume) : Prop where
  /-- Every row shows an entry at its path. -/
  sound : ∀ row ∈ world.outline id, ∃ path entry, world.StandsAt id volume path entry ∧
    row.Describes world path entry
  /-- Every entry is shown. -/
  complete : ∀ path entry, world.StandsAt id volume path entry →
    ∃ row ∈ world.outline id, row.Describes world path entry
  /-- No two rows are for one text. -/
  once : ((world.outline id).map OutlineRow.path).Nodup

/-! ### Texts of paths below a path -/

namespace Path

variable {path : Path}

/-- The text of a name in a directory is that of the path with the name behind it. -/
theorem childText_text (hnames : ∀ part ∈ path.elements, IsName part)
    (habsolute : path.absolute = true) (name : String) :
    World.childText path.text name = (path.extend [name]).text := by
  have hshown : (path.extend [name]).text.toList =
      path.front ++ joined (path.elements ++ [name]) := toList_text rfl
  unfold World.childText
  rw [← String.toList_inj, hshown, toList_text habsolute]
  by_cases htop : path.elements = []
  · -- the root shows a separator at its end
    obtain ⟨cs, c, hfront, hc⟩ := path.front_eq_append
    have hlast : (path.front ++ joined []).getLast?.any isSeparator = true := by
      simpa [joined, hfront] using hc
    rw [htop, if_pos hlast, String.toList_append, toList_text habsolute, htop, List.nil_append,
      joined_singleton]
    exact congrArg (· ++ name.toList) (List.append_nil path.front)
  · -- any other path ends with a name
    obtain ⟨c, hc, hname⟩ := getLast?_joined hnames htop
    have hlast : ¬(path.front ++ joined path.elements).getLast?.any isSeparator = true := by
      simp [List.getLast?_append, hc, hname]
    rw [if_neg hlast, String.toList_append, String.toList_append, toList_text habsolute,
      joined_concat name htop, List.append_assoc, List.append_assoc]
    rfl

end Path

/-! ### Entries at their paths -/

/-- The bindings of a directory; any other entry has none. -/
def World.bindingsAt (world : World) (entry : EntryId) : List Binding :=
  match world.namespace.node? entry with
  | some (.directory names) => names.bindings
  | _ => []

namespace World

variable {world : World} {id : VolumeId} {volume : Volume} {path : Path}
  {entry : EntryId} {binding : Binding} {row : OutlineRow} {depth : Nat} {text : String}

theorem mem_bindingsAt : binding ∈ world.bindingsAt entry ↔ world.namespace.Binds entry binding := by
  unfold bindingsAt Namespace.Binds
  split
  case h_1 names hnode => simp [hnode]
  case h_2 hnode =>
    refine ⟨fun hmem => absurd hmem List.not_mem_nil, ?_⟩
    rintro ⟨names, hnames, -⟩
    exact absurd hnames (hnode names)

namespace StandsAt

theorem pathOf (h : world.StandsAt id volume path entry) :
    volume.pathOf path.root path.elements = path := by
  induction h with
  | root => rfl
  | child _ _ ih =>
      unfold Path.extend
      rw [← ih]
      rfl

/-- The route to an entry and the path it stands at. -/
theorem leads (h : world.StandsAt id volume path entry) : ∃ top bindings,
    world.namespace.IsRoot id path.root top ∧ world.namespace.Leads top bindings entry ∧
      path = volume.pathOf path.root (bindings.map Binding.name) := by
  induction h with
  | root hroot => exact ⟨_, [], hroot, .top, rfl⟩
  | @child path directory binding _ hbinds ih =>
      obtain ⟨top, bindings, hroot, hleads, hpath⟩ := ih
      refine ⟨top, bindings ++ [binding], hroot, hleads.step hbinds, ?_⟩
      rw [hpath, List.map_append, List.map_singleton]
      rfl

theorem of_leads {root : Nat} {top : EntryId} {bindings : List Binding}
    (hroot : world.namespace.IsRoot id root top)
    (hleads : world.namespace.Leads top bindings entry) :
    world.StandsAt id volume (volume.pathOf root (bindings.map Binding.name)) entry := by
  induction hleads with
  | top => exact .root hroot
  | step _ hbinds ih =>
      rw [List.map_append]
      exact ih.child hbinds

theorem inTree (h : world.StandsAt id volume path entry) : world.namespace.InTree id entry := by
  obtain ⟨top, bindings, hroot, hleads, -⟩ := h.leads
  exact ⟨_, top, bindings, hroot, hleads⟩

/-- Directories hold nothing but names. -/
theorem lies (htidy : world.Tidy) (hvolume : world.volume id = .ok volume)
    (h : world.StandsAt id volume path entry) : path.Lies volume.config.roots := by
  induction h with
  | root hroot =>
      obtain ⟨ground, hground, htop⟩ := hroot
      obtain rfl := Option.some.inj (hground.symm.trans (ground?_of_volume hvolume))
      exact (htidy.grounded hvolume).lies htop (List.forall_mem_nil _)
  | child _ hbinds ih =>
      obtain ⟨names, hnode, hmem⟩ := hbinds
      refine ⟨ih.root, rfl, List.forall_mem_append.2 ⟨ih.names, List.forall_mem_singleton.2 ?_⟩⟩
      exact htidy.bindings (directory_eq_ok.2 hnode) _ hmem

/-- What is no link is found under its path whether or not a link at the end is followed. -/
theorem walk_down (hn : world.namespace.Sound) (hvolume : world.volume id = .ok volume)
    (h : world.StandsAt id volume path entry) (hlink : world.linkTarget? entry = none) :
    ∃ route, ∀ followLast, world.walk volume path (.entry followLast) true =
      .ok ⟨entry, route, path⟩ := by
  obtain ⟨top, bindings, hroot, hleads, hpath⟩ := h.leads
  refine ⟨top :: bindings.map Binding.entry, fun followLast => ?_⟩
  rw [World.walk_down hn (ground?_of_volume hvolume) hroot hleads hlink
    (congrArg Path.elements hpath), h.pathOf]

/-- A walk that does not follow a link at the end comes to the entry. -/
theorem walk (hn : world.namespace.Sound) (hvolume : world.volume id = .ok volume)
    (h : world.StandsAt id volume path entry) :
    ∃ route, world.walk volume path (.entry false) true = .ok ⟨entry, route, path⟩ := by
  cases h with
  | root hroot =>
      obtain ⟨names, hnode⟩ := hn.root_directory hroot
      obtain ⟨route, hwalk⟩ := walk_down hn hvolume (.root hroot) (linkTarget?_of_directory hnode)
      exact ⟨route, hwalk false⟩
  | @child path directory binding hparent hbinds =>
      have ⟨names, hnode, hmem⟩ := hbinds
      obtain ⟨route, hwalk⟩ := hparent.walk_down hn hvolume (linkTarget?_of_directory hnode)
      have hkey : binding.key = volume.collation.key binding.name :=
        hn.keyed_in (ground?_of_volume hvolume) hparent.inTree hbinds
      refine ⟨route ++ [binding.entry], ?_⟩
      rw [walk_name hn hvolume (hwalk true) rfl (directory_eq_ok.2 hnode),
        (hn.ordered hnode).find?_eq_some hmem hkey]
      dsimp only
      rw [← (hparent.child hbinds).pathOf]
      rfl

end StandsAt

/-! ### One row and the rows below it -/

/-- The names that a directory binds differ. -/
theorem StandsAt.names_differ (hn : world.namespace.Sound)
    (hvolume : world.volume id = .ok volume) (h : world.StandsAt id volume path entry) :
    (world.bindingsAt entry).Pairwise fun first second => first.name ≠ second.name := by
  have hkeys : ∀ binding ∈ world.bindingsAt entry,
      binding.key = volume.collation.key binding.name := fun binding hbinding =>
    hn.keyed_in (ground?_of_volume hvolume) h.inTree (mem_bindingsAt.1 hbinding)
  unfold bindingsAt at hkeys ⊢
  split
  case h_1 names hnode =>
    rw [hnode] at hkeys
    refine (hn.ordered hnode).imp_of_mem fun {first second} hfirst hsecond hlt hname => ?_
    rw [hkeys first hfirst, hkeys second hsecond, hname] at hlt
    exact String.lt_irrefl _ hlt
  case h_2 => exact List.Pairwise.nil

theorem attributes_kind {found : Entry} {attributes : Attributes}
    (h : world.attributes found = .ok attributes) : attributes.kind = found.kind := by
  unfold World.attributes at h
  unfold Entry.kind
  cases hnode : found.node with
  | directory names =>
      rw [hnode] at h
      cases h
      rfl
  | symlink target =>
      rw [hnode] at h
      cases h
      rfl
  | file file =>
      rw [hnode] at h
      obtain ⟨inode, -, h⟩ := exists_of_bind_ok h
      cases h
      rfl

section Rows

variable (hn : world.namespace.Sound) (hvolume : world.volume id = .ok volume)
  (hlegible : world.Legible id volume)

include hn hvolume hlegible

theorem StandsAt.visit (h : world.StandsAt id volume path entry) :
    ∃ route, world.visit id path.text false = .ok (volume, ⟨entry, route, path⟩) := by
  obtain ⟨route, hwalk⟩ := h.walk hn hvolume
  refine ⟨route, ?_⟩
  rw [visit_eq hvolume (hlegible path entry h), hwalk]
  rfl

theorem StandsAt.readDirectory (h : world.StandsAt id volume path entry) {names : Directory}
    (hnode : world.namespace.node? entry = some (.directory names)) :
    world.readDirectory id path.text = .ok names.listing := by
  obtain ⟨route, hwalk⟩ := h.walk_down hn hvolume (linkTarget?_of_directory hnode)
  unfold World.readDirectory
  rw [visit_eq hvolume (hlegible path entry h), hwalk true]
  change (world.directory entry >>= fun names => .ok names.listing) = _
  rw [directory_eq_ok.2 hnode]
  rfl

theorem StandsAt.metadata (h : world.StandsAt id volume path entry) {found : Entry}
    (hentry : world.entry entry = .ok found) :
    world.metadata id path.text false = world.attributes found := by
  obtain ⟨route, hvisit⟩ := h.visit hn hvolume hlegible
  unfold World.metadata
  rw [hvisit, ok_bind]
  dsimp only
  rw [hentry, ok_bind]

theorem StandsAt.readLink (h : world.StandsAt id volume path entry) :
    (world.readLink id path.text).toOption = world.linkTarget? entry := by
  obtain ⟨route, hvisit⟩ := h.visit hn hvolume hlegible
  unfold World.readLink
  rw [hvisit, ok_bind]
  dsimp only
  cases world.linkTarget? entry <;> rfl

variable (htidy : world.Tidy)

include htidy

/-- The row of an entry comes first, and behind it those of the names that it binds. -/
theorem outlineFrom_eq (h : world.StandsAt id volume path entry) (depth : Nat) :
    ∃ row : OutlineRow, row.Describes world path entry ∧
      world.outlineFrom id depth path.text = row :: match depth with
        | 0 => []
        | depth + 1 => (world.bindingsAt entry).flatMap fun binding =>
          world.outlineFrom id depth (path.extend [binding.name]).text := by
  obtain ⟨node, hmade⟩ := hn.node_of_inTree h.inTree
  obtain ⟨found, hentry, -⟩ := entry_of_node? hmade
  obtain ⟨attributes, hattributes, -⟩ := attributes_inode hn hentry
  have hmetadata := (h.metadata hn hvolume hlegible hentry).trans hattributes
  have hkind := attributes_kind hattributes
  have hlink := h.readLink hn hvolume hlegible
  have hnode := node?_of_entry hentry
  refine ⟨⟨path.text, .ok (attributes, found.linkTarget?)⟩,
    ⟨rfl, found, attributes, hentry, hattributes, rfl⟩, ?_⟩
  conv_lhs => unfold outlineFrom
  rw [hmetadata]
  dsimp only
  rw [hlink, linkTarget?_eq, hnode]
  unfold Entry.kind at hkind
  unfold Entry.linkTarget?
  unfold bindingsAt
  rw [hnode]
  cases hcase : found.node with
  | directory names =>
      rw [hcase] at hkind hnode
      rw [hkind, h.readDirectory hn hvolume hlegible hnode]
      cases depth with
      | zero => rfl
      | succ depth =>
          have hchild := Path.childText_text (h.lies htidy hvolume).names
            (h.lies htidy hvolume).absolute
          simp only [Except.toOption, Option.getD_some, Directory.listing, List.flatMap_map, hchild]
          rfl
  | symlink target =>
      rw [hcase] at hkind
      rw [hkind]
      cases depth <;> rfl
  | file file =>
      rw [hcase] at hkind
      rw [hkind]
      cases depth <;> rfl

/-- Every row shows an entry below the path. The induction is on the levels. -/
theorem outlineFrom_sound (h : world.StandsAt id volume path entry)
    (hrow : row ∈ world.outlineFrom id depth path.text) :
    ∃ path' entry', world.StandsAt id volume path' entry' ∧ row.Describes world path' entry' ∧
      path'.root = path.root ∧ path.elements <+: path'.elements := by
  induction depth generalizing path entry with
  | zero =>
      obtain ⟨first, hfirst, hrows⟩ := outlineFrom_eq hn hvolume hlegible htidy h 0
      rw [hrows, List.mem_singleton] at hrow
      exact ⟨path, entry, h, hrow ▸ hfirst, rfl, List.prefix_rfl⟩
  | succ depth ih =>
      obtain ⟨first, hfirst, hrows⟩ := outlineFrom_eq hn hvolume hlegible htidy h (depth + 1)
      rw [hrows] at hrow
      rcases List.mem_cons.1 hrow with rfl | hbelow
      · exact ⟨path, entry, h, hfirst, rfl, List.prefix_rfl⟩
      · obtain ⟨binding, hbinding, hbelow⟩ := List.mem_flatMap.1 hbelow
        obtain ⟨path', entry', hstands, hdescribes, hroot, hprefix⟩ :=
          ih (h.child (mem_bindingsAt.1 hbinding)) hbelow
        exact ⟨path', entry', hstands, hdescribes, hroot,
          (List.prefix_append path.elements [binding.name]).trans hprefix⟩

/-- What is shown below an entry is also shown from the root, with as many levels more as there are
names in its path. The induction is on the way down. -/
theorem outlineFrom_subset (h : world.StandsAt id volume path entry) (depth : Nat) :
    world.outlineFrom id depth path.text ⊆
      world.outlineFrom id (depth + path.elements.length) (volume.pathOf path.root []).text := by
  induction h generalizing depth with
  | root => exact List.Subset.refl _
  | @child path directory binding hparent hbinds ih =>
      obtain ⟨first, -, hrows⟩ := outlineFrom_eq hn hvolume hlegible htidy hparent (depth + 1)
      have hbelow : world.outlineFrom id depth (path.extend [binding.name]).text ⊆
          world.outlineFrom id (depth + 1) path.text := by
        rw [hrows]
        intro row hrow
        exact List.mem_cons_of_mem _
          (List.mem_flatMap.2 ⟨binding, mem_bindingsAt.2 hbinds, hrow⟩)
      have hlength : depth + (path.extend [binding.name]).elements.length =
          depth + 1 + path.elements.length := by
        rw [Path.elements_extend, List.length_append, List.length_singleton]
        omega
      rw [hlength]
      exact List.Subset.trans hbelow (ih (depth + 1))

/-- A text that is shown is read as a path below the one that the outline begins with. -/
theorem parse_shown (h : world.StandsAt id volume path entry)
    (htext : text ∈ (world.outlineFrom id depth path.text).map OutlineRow.path) :
    ∃ shown, volume.parse text = .ok shown ∧ shown.root = path.root ∧
      path.elements <+: shown.elements := by
  obtain ⟨row, hrow, rfl⟩ := List.mem_map.1 htext
  obtain ⟨shown, entry', hstands, ⟨hpath, -⟩, hbelow⟩ :=
    outlineFrom_sound hn hvolume hlegible htidy h hrow
  exact ⟨shown, hpath ▸ hlegible shown entry' hstands, hbelow⟩

/-- Two outlines that show one text begin with paths above one path. -/
theorem shown_twice {path' : Path} {entry' : EntryId} (h : world.StandsAt id volume path entry)
    (h' : world.StandsAt id volume path' entry')
    (htext : text ∈ (world.outlineFrom id depth path.text).map OutlineRow.path)
    (htext' : text ∈ (world.outlineFrom id depth path'.text).map OutlineRow.path) :
    path.root = path'.root ∧
      ∃ elements, path.elements <+: elements ∧ path'.elements <+: elements := by
  obtain ⟨shown, hparse, hroot, hprefix⟩ := parse_shown hn hvolume hlegible htidy h htext
  obtain ⟨shown', hparse', hroot', hprefix'⟩ := parse_shown hn hvolume hlegible htidy h' htext'
  obtain rfl := Except.ok.inj (hparse.symm.trans hparse')
  exact ⟨hroot.symm.trans hroot', _, hprefix, hprefix'⟩

/-- No text is shown twice. The induction is on the levels. -/
theorem outlineFrom_once (h : world.StandsAt id volume path entry) (depth : Nat) :
    ((world.outlineFrom id depth path.text).map OutlineRow.path).Nodup := by
  induction depth generalizing path entry with
  | zero =>
      obtain ⟨first, -, hrows⟩ := outlineFrom_eq hn hvolume hlegible htidy h 0
      rw [hrows]
      exact List.nodup_singleton _
  | succ depth ih =>
      obtain ⟨first, ⟨hfirst, -⟩, hrows⟩ :=
        outlineFrom_eq hn hvolume hlegible htidy h (depth + 1)
      have hchild : ∀ binding ∈ world.bindingsAt entry,
          world.StandsAt id volume (path.extend [binding.name]) binding.entry :=
        fun binding hbinding => h.child (mem_bindingsAt.1 hbinding)
      rw [hrows, List.map_cons, List.nodup_cons, List.map_flatMap, List.nodup_flatMap]
      refine ⟨?top, fun binding hbinding => ih (hchild binding hbinding), ?apart⟩
      case top =>
        -- a path below the directory has one name more than the directory
        intro hmem
        obtain ⟨binding, hbinding, hmem⟩ := List.mem_flatMap.1 hmem
        obtain ⟨shown, hparse, -, hprefix⟩ :=
          parse_shown hn hvolume hlegible htidy (hchild binding hbinding) hmem
        rw [hfirst, hlegible path entry h] at hparse
        obtain rfl := Except.ok.inj hparse
        have hlength := hprefix.length_le
        simp at hlength
      case apart =>
        refine (h.names_differ hn hvolume).imp_of_mem
          fun {first second} hfirst hsecond hdiffer => ?_
        intro text htext htext'
        obtain ⟨-, elements, hprefix, hprefix'⟩ := shown_twice hn hvolume hlegible htidy
          (hchild first hfirst) (hchild second hsecond) htext htext'
        -- both names stand behind the path of the directory
        have hequal : path.elements ++ [first.name] = path.elements ++ [second.name] :=
          (List.prefix_of_prefix_length_le hprefix hprefix' (by simp)).eq_of_length (by simp)
        exact hdiffer (by simpa using hequal)

end Rows

/-! ### Whole outlines -/

/-- There are no more names in a path than there are entries. -/
theorem StandsAt.length_le (hn : world.namespace.Sound)
    (h : world.StandsAt id volume path entry) : path.elements.length ≤ world.entries.size := by
  obtain ⟨top, bindings, hroot, hleads, hpath⟩ := h.leads
  have hmade : bindings.map Binding.entry ⊆ (List.range world.entries.size).map EntryId.mk := by
    intro passed hpassed
    obtain ⟨binding, hbinding, rfl⟩ := List.mem_map.1 hpassed
    obtain ⟨before, after, -, hbefore⟩ := hleads.prefix_of_mem hbinding
    obtain ⟨node, hnode⟩ := hn.node_of_inTree ⟨_, top, _, hroot, hbefore⟩
    obtain ⟨found, hfound, -⟩ := entry_of_node? hnode
    have hlt := (Array.getElem?_eq_some_iff.1 (entry_eq_ok hfound)).1
    exact List.mem_map.2 ⟨binding.entry.index, List.mem_range.2 hlt, rfl⟩
  have hlength := ((hn.nodup_of_leads hroot hleads).subperm hmade).length_le
  rw [List.length_map, List.length_map, List.length_range] at hlength
  rw [hpath]
  exact (List.length_map _).trans_le hlength

theorem mem_rootPaths (hgrounded : volume.Grounded) : path ∈ volume.rootPaths ↔
    ∃ ordinal top, volume.roots[ordinal]? = some top ∧ path = volume.pathOf ordinal [] := by
  unfold Volume.rootPaths Volume.pathOf
  rw [List.mem_map]
  constructor
  · rintro ⟨⟨name, ordinal⟩, hmem, rfl⟩
    have hname := List.mem_zipIdx_iff_getElem?.1 hmem
    have hlt : ordinal < volume.roots.length :=
      hgrounded.size ▸ (List.getElem?_eq_some_iff.1 hname).1
    refine ⟨ordinal, _, List.getElem?_eq_getElem hlt, ?_⟩
    dsimp only at hname ⊢
    rw [List.getD_eq_getElem?_getD, hname, Option.getD_some]
  · rintro ⟨ordinal, top, htop, rfl⟩
    have hlt : ordinal < volume.config.roots.length :=
      hgrounded.size ▸ (List.getElem?_eq_some_iff.1 htop).1
    refine ⟨(volume.config.roots[ordinal], ordinal), ?_, ?_⟩
    · exact List.mem_zipIdx_iff_getElem?.2 (List.getElem?_eq_getElem hlt)
    · rw [List.getD_eq_getElem?_getD, List.getElem?_eq_getElem hlt, Option.getD_some]

theorem rootPaths_differ (volume : Volume) :
    volume.rootPaths.Pairwise fun first second => first.root ≠ second.root := by
  have hordinals : (volume.config.roots.zipIdx.map Prod.snd).Nodup := by
    rw [List.zipIdx_map_snd]
    exact List.nodup_range'
  unfold Volume.rootPaths
  rw [List.pairwise_map]
  exact List.pairwise_map.1 hordinals

/-- The levels that an outline has are enough for every entry. -/
theorem outlined (hn : world.namespace.Sound) (htidy : world.Tidy)
    (hvolume : world.volume id = .ok volume) (hlegible : world.Legible id volume) :
    world.Outlined id volume := by
  have hground := ground?_of_volume hvolume
  have hgrounded := htidy.grounded hvolume
  have hroots : ∀ root ∈ volume.rootPaths, ∃ top, world.StandsAt id volume root top := by
    intro root hroot
    obtain ⟨ordinal, top, htop, rfl⟩ := (mem_rootPaths hgrounded).1 hroot
    exact ⟨top, .root ⟨_, hground, htop⟩⟩
  have houtline : world.outline id = volume.rootPaths.flatMap fun root =>
      world.outlineFrom id ((world.entries.size + 1) * (volume.roots.length + 1)) root.text := by
    unfold outline
    rw [hvolume]
  constructor
  case sound =>
    intro row hrow
    rw [houtline] at hrow
    obtain ⟨root, hroot, hrow⟩ := List.mem_flatMap.1 hrow
    obtain ⟨top, hstands⟩ := hroots root hroot
    obtain ⟨path, entry, hpath, hdescribes, -⟩ :=
      outlineFrom_sound hn hvolume hlegible htidy hstands hrow
    exact ⟨path, entry, hpath, hdescribes⟩
  case complete =>
    intro path entry hstands
    have hlength := hstands.length_le hn
    obtain ⟨top, bindings, ⟨ground, hground', htop⟩, -, -⟩ := hstands.leads
    obtain rfl := Option.some.inj (hground.symm.trans hground')
    have hroot : volume.pathOf path.root [] ∈ volume.rootPaths :=
      (mem_rootPaths hgrounded).2 ⟨path.root, top, htop, rfl⟩
    obtain ⟨levels, hlevels⟩ : ∃ levels, levels + path.elements.length =
        (world.entries.size + 1) * (volume.roots.length + 1) :=
      ⟨_, Nat.sub_add_cancel (Nat.le_trans (Nat.le_succ_of_le hlength)
        (Nat.le_mul_of_pos_right _ (Nat.succ_pos _)))⟩
    obtain ⟨row, hdescribes, hrows⟩ := outlineFrom_eq hn hvolume hlegible htidy hstands levels
    have hrow : row ∈ world.outlineFrom id levels path.text := by
      rw [hrows]
      exact List.mem_cons_self
    refine ⟨row, ?_, hdescribes⟩
    rw [houtline]
    refine List.mem_flatMap.2 ⟨_, hroot, ?_⟩
    rw [← hlevels]
    exact outlineFrom_subset hn hvolume hlegible htidy hstands levels hrow
  case once =>
    rw [houtline, List.map_flatMap, List.nodup_flatMap]
    refine ⟨fun root hroot => ?_, (rootPaths_differ volume).imp_of_mem
      fun {first second} hfirst hsecond hdiffer => ?_⟩
    · obtain ⟨top, hstands⟩ := hroots root hroot
      exact outlineFrom_once hn hvolume hlegible htidy hstands _
    · intro text htext htext'
      obtain ⟨top, hstands⟩ := hroots first hfirst
      obtain ⟨top', hstands'⟩ := hroots second hsecond
      exact hdiffer (shown_twice hn hvolume hlegible htidy hstands hstands' htext htext').1

theorem standsAt_of_visit {followLast : Bool} {found : Visit}
    (h : world.visit id text followLast = .ok (volume, found)) :
    world.StandsAt id volume found.path found.entry := by
  obtain ⟨hvolume, path, -, hwalk⟩ := visit_eq_ok h
  obtain ⟨top, bindings, hroot, hleads, -, helements⟩ :=
    walk_entry_arrives (ground?_of_volume hvolume) hwalk
  rw [trail_pathOf hwalk, helements, List.append_nil]
  exact .of_leads hroot hleads

end World

/-- In every reachable world the outline of a volume is its tree, if no root shadows the path of an
entry. Each row shows an entry, and whatever a text names, through links or not, has its row. -/
theorem outline_shows_tree {world : World} {id : VolumeId} {volume : Volume} (h : Reachable world)
    (hvolume : world.volume id = .ok volume)
    (hclear : ∀ path entry, world.StandsAt id volume path entry → path.Delimited ∧
      ¬path.Shadowed volume.collation volume.config.roots) :
    world.Outlined id volume ∧ ∀ text followLast found,
      world.visit id text followLast = .ok (volume, found) →
        ∃ row ∈ world.outline id, row.Describes world found.path found.entry := by
  have hlegible : world.Legible id volume := by
    intro path entry hstands
    obtain ⟨hdelimited, hshadowed⟩ := hclear path entry hstands
    exact (Path.parse_text_iff (h.tidy.grounded hvolume).rootNames (hstands.lies h.tidy hvolume)
      hdelimited).2 hshadowed
  have houtlined := World.outlined h.sound h.tidy hvolume hlegible
  exact ⟨houtlined, fun text followLast found hvisit =>
    houtlined.complete _ _ (World.standsAt_of_visit hvisit)⟩

/-- One root shadows nothing, so that it is enough how its name ends. -/
theorem outline_shows_tree_of_one_root {world : World} {id : VolumeId} {volume : Volume}
    {name : String} (h : Reachable world) (hvolume : world.volume id = .ok volume)
    (hroots : volume.config.roots = [name])
    (hname : OnlySeparators name.toList ∨ name.toList.getLast?.any isSeparator = false) :
    world.Outlined id volume := by
  refine (outline_shows_tree h hvolume fun path entry hstands => ?_).1
  have hlies := hstands.lies h.tidy hvolume
  rw [hroots] at hlies ⊢
  have honly : ∀ {ordinal : Nat} {other : String}, [name][ordinal]? = some other →
      ordinal = 0 ∧ other = name := by
    intro ordinal other hother
    cases ordinal with
    | zero => exact ⟨rfl, (Option.some.inj hother).symm⟩
    | succ ordinal => cases hother
  obtain ⟨hroot, hrootName⟩ := honly hlies.root
  constructor
  · rw [← hrootName] at hname
    exact .inr hname
  · rintro ⟨ordinal, other, hother, hdiffers, -⟩
    exact hdiffers ((honly hother).1.trans hroot.symm)

example : (World.sample.outline ⟨0⟩).map OutlineRow.path = ["/", "/box", "/box/note"] := by
  decide +kernel

end RamFs
