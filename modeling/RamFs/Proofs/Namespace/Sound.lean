import RamFs.Proofs.Namespace.View

/-!
What holds of the namespace of every world that calls can reach. Entries form one tree below
each root; every directory keeps its names in order and under the keys of its volume, together
with the kinds of what they name; a file that has a name is in use, and it counts the handles
that are open on it.

`WellFormed` gathers what can be checked entry by entry. It is kept by every single change of a
node, even while a subtree hangs loose. `Sound` adds that everything bound hangs below a root.
-/

namespace RamFs

/-- Nothing depends on the node: an empty directory, a file in use that is not open, or a link. -/
def Node.IsIdle : Node → Prop
  | .directory names => names.bindings = []
  | .file used => used.state = .live 0
  | .symlink _ => True

namespace Namespace

structure WellFormed (n : Namespace) : Prop where
  root_directory : ∀ {id ordinal top}, n.IsRoot id ordinal top →
    ∃ names, n.node? top = some (.directory names)
  root_once : ∀ {id id' ordinal ordinal' top}, n.IsRoot id ordinal top →
    n.IsRoot id' ordinal' top → id = id' ∧ ordinal = ordinal'
  root_unbound : ∀ {id ordinal top}, n.IsRoot id ordinal top → ¬n.Bound top
  bound_once : ∀ {directory directory' binding binding'}, n.Binds directory binding →
    n.Binds directory' binding' → binding.entry = binding'.entry →
    directory = directory' ∧ binding = binding'
  bound_kind : ∀ {directory binding}, n.Binds directory binding →
    ∃ node, n.node? binding.entry = some node ∧ node.kind = binding.kind
  bound_live : ∀ {entry file}, n.Bound entry → n.node? entry = some (.file file) →
    file.state ≠ .pendingDeletion
  ordered : ∀ {directory names}, n.node? directory = some (.directory names) → names.Ordered
  backed : ∀ {entry file}, n.node? entry = some (.file file) → file.inode.index < n.inodes
  counted : ∀ {entry file}, n.node? entry = some (.file file) → file.openHandles = n.opens entry
  leased : ∀ {lease}, lease ∈ n.leases → ∃ file, n.node? lease.entry = some (.file file)

structure Sound (n : Namespace) : Prop extends WellFormed n where
  keyed : ∀ {directory binding}, n.Binds directory binding →
    ∃ id ground, n.ground? id = some ground ∧ n.InTree id directory ∧
      binding.key = ground.collation.key binding.name
  held : ∀ {lease}, lease ∈ n.leases → n.Names lease.volume lease.entry

variable {n n' : Namespace} {id id' : VolumeId} {ordinal ordinal' : Nat}
  {top top' entry other directory directory' : EntryId} {binding binding' : Binding}
  {bindings bindings' : List Binding} {names names' : Directory} {file file' : FileNode}
  {lease : Lease} {ground : Ground}

/-! ### Routes -/

/-- Two routes from roots to one entry are the same route from the same root. -/
theorem WellFormed.route_unique (hn : n.WellFormed) (hroot : n.IsRoot id ordinal top)
    (hroot' : n.IsRoot id' ordinal' top') (hleads : n.Leads top bindings entry)
    (hleads' : n.Leads top' bindings' entry) :
    id = id' ∧ ordinal = ordinal' ∧ top = top' ∧ bindings = bindings' := by
  induction hleads generalizing bindings' with
  | top =>
      cases hleads' with
      | top =>
          obtain ⟨hid, hordinal⟩ := hn.root_once hroot hroot'
          exact ⟨hid, hordinal, rfl, rfl⟩
      | step _ hbinds => exact absurd hbinds.bound (hn.root_unbound hroot)
  | @step before parent binding _ hbinds ih =>
      generalize hentry : binding.entry = entry at hleads'
      cases hleads' with
      | top => exact absurd (hentry ▸ hbinds.bound) (hn.root_unbound hroot')
      | step hbefore' hbinds' =>
          obtain ⟨rfl, rfl⟩ := hn.bound_once hbinds hbinds' hentry
          obtain ⟨hid, hordinal, htop, rfl⟩ := ih hbefore'
          exact ⟨hid, hordinal, htop, rfl⟩

theorem WellFormed.inTree_unique (hn : n.WellFormed) (h : n.InTree id entry)
    (h' : n.InTree id' entry) : id = id' := by
  obtain ⟨_, _, _, hroot, hleads⟩ := h
  obtain ⟨_, _, _, hroot', hleads'⟩ := h'
  exact (hn.route_unique hroot hroot' hleads hleads').1

/-- A file in a tree has a name, for the roots are directories. -/
theorem WellFormed.names_of_file (hn : n.WellFormed) (htree : n.InTree id entry)
    (hnode : n.node? entry = some (.file file)) : n.Names id entry := by
  refine ⟨?_, htree⟩
  obtain ⟨ordinal, top, bindings, hroot, hleads⟩ := htree
  apply hleads.eq_or_bound.resolve_left
  rintro ⟨_, rfl⟩
  obtain ⟨names, hnames⟩ := hn.root_directory hroot
  rw [hnode] at hnames
  cases hnames

/-- What is in a tree has been made. -/
theorem WellFormed.node_of_inTree (hn : n.WellFormed) (htree : n.InTree id entry) :
    ∃ node, n.node? entry = some node := by
  obtain ⟨ordinal, top, bindings, hroot, hleads⟩ := htree
  rcases hleads.eq_or_bound with ⟨-, rfl⟩ | ⟨directory, binding, hbinds, rfl⟩
  · obtain ⟨names, hnames⟩ := hn.root_directory hroot
    exact ⟨_, hnames⟩
  · obtain ⟨node, hnode, -⟩ := hn.bound_kind hbinds
    exact ⟨node, hnode⟩

theorem Leads.append (hleads : n.Leads top bindings entry)
    (hbelow : n.Leads entry bindings' other) : n.Leads top (bindings ++ bindings') other := by
  induction hbelow with
  | top => simpa using hleads
  | step _ hbinds ih =>
      rw [← List.append_assoc]
      exact ih.step hbinds

/-- What stands on a route was reached by the beginning of the route. -/
theorem Leads.prefix_of_mem (hleads : n.Leads top bindings entry) (hmem : binding ∈ bindings) :
    ∃ before after, bindings = before ++ binding :: after ∧
      n.Leads top (before ++ [binding]) binding.entry := by
  induction hleads with
  | top => cases hmem
  | @step before parent last hbefore hbinds ih =>
      rcases List.mem_append.1 hmem with hmem | hmem
      · obtain ⟨start, rest, rfl, hstart⟩ := ih hmem
        exact ⟨start, rest ++ [last], by simp, hstart⟩
      · rw [List.mem_singleton.1 hmem]
        exact ⟨before, [], rfl, hbefore.step hbinds⟩

/-- No route leads from an entry of a tree back to itself. -/
theorem WellFormed.acyclic (hn : n.WellFormed) (htree : n.InTree id entry)
    (hloop : n.Leads entry bindings entry) : bindings = [] := by
  obtain ⟨ordinal, top, before, hroot, hleads⟩ := htree
  obtain ⟨_, _, _, hsame⟩ := hn.route_unique hroot hroot hleads (hleads.append hloop)
  simpa using hsame

/-- The route to a directory does not pass what the directory binds. -/
theorem WellFormed.clear_of_binds (hn : n.WellFormed) (hroot : n.IsRoot id ordinal top)
    (hleads : n.Leads top bindings directory) (hbinds : n.Binds directory binding) :
    ∀ passed ∈ bindings, passed.entry ≠ binding.entry := by
  intro passed hpassed hentry
  obtain ⟨before, after, rfl, hbefore⟩ := hleads.prefix_of_mem hpassed
  obtain ⟨_, _, _, hsame⟩ := hn.route_unique hroot hroot (hentry ▸ hbefore) (hleads.step hbinds)
  have hlength := congrArg List.length hsame
  simp only [List.length_append, List.length_cons, List.length_nil] at hlength
  omega

/-- A route passes no entry twice. -/
theorem WellFormed.nodup_of_leads (hn : n.WellFormed) (hroot : n.IsRoot id ordinal top)
    (hleads : n.Leads top bindings entry) : (bindings.map Binding.entry).Nodup := by
  induction hleads with
  | top => exact List.nodup_nil
  | @step before directory binding hbefore hbinds ih =>
      rw [List.map_append, List.map_singleton, List.nodup_append]
      refine ⟨ih, List.nodup_cons.2 ⟨List.not_mem_nil, List.nodup_nil⟩, ?_⟩
      intro other hother last hlast
      obtain ⟨passed, hpassed, rfl⟩ := List.mem_map.1 hother
      rw [List.mem_singleton.1 hlast]
      exact hn.clear_of_binds hroot hbefore hbinds passed hpassed

/-! ### Bindings after a change of one node -/

theorem binds_setNode {node : Node} :
    (n.setNode directory' node).Binds directory binding ↔
      (directory = directory' ∧ ∃ names, node = .directory names ∧ binding ∈ names.bindings) ∨
        (directory ≠ directory' ∧ n.Binds directory binding) := by
  unfold Binds
  by_cases h : directory = directory'
  · subst h
    simp
  · simp [h]

theorem binds_setDirectory :
    (n.setNode directory' (.directory names')).Binds directory binding ↔
      if directory = directory' then binding ∈ names'.bindings else n.Binds directory binding := by
  rw [binds_setNode]
  by_cases h : directory = directory'
  · simp [h]
  · simp [h]

/-- A file binds nothing, whatever is written into its node. -/
theorem binds_setFile (hnode : n.node? entry = some (.file file)) :
    (n.setNode entry (.file file')).Binds directory binding ↔ n.Binds directory binding := by
  rw [binds_setNode]
  by_cases h : directory = entry
  · subst h
    simp [Binds, hnode]
  · simp [h]

/-! ### Changes that keep a namespace well formed -/

/-- An entry that has no name and can be given one. -/
structure Loose (n : Namespace) (entry : EntryId) (kind : Kind) : Prop where
  unbound : ¬n.Bound entry
  rootless : ∀ {id ordinal}, ¬n.IsRoot id ordinal entry
  node : ∃ node, n.node? entry = some node ∧ node.kind = kind
  live : ∀ {file}, n.node? entry = some (.file file) → file.state ≠ .pendingDeletion

theorem kind_setNode (node : Node) {old found : Node} (hnode : n.node? entry = some old)
    (hkind : node.kind = old.kind) (hother : n.node? other = some found) :
    ∃ node', (n.setNode entry node).node? other = some node' ∧ node'.kind = found.kind := by
  by_cases h : other = entry
  · subst h
    obtain rfl : old = found := Option.some.inj (hnode.symm.trans hother)
    exact ⟨node, node?_setNode_self, hkind⟩
  · exact ⟨found, (node?_setNode_of_ne h).trans hother, rfl⟩

theorem node?_setNode_fresh {node found : Node} (hfresh : n.node? entry = none)
    (hother : n.node? other = some found) : (n.setNode entry node).node? other = some found := by
  refine (node?_setNode_of_ne ?_).trans hother
  rintro rfl
  rw [hfresh] at hother
  cases hother

theorem file_setDirectory (hnode : n.node? directory = some (.directory names)) :
    (n.setNode directory (.directory names')).node? other = some (.file file) ↔
      n.node? other = some (.file file) := by
  by_cases h : other = directory
  · subst h
    simp [hnode]
  · rw [node?_setNode_of_ne h]

/-- Where nothing is a root or bound that was not so before and no kind changes, only the nodes
themselves are left to look at. -/
theorem WellFormed.of_fewer (hn : n.WellFormed)
    (hroots : ∀ {id ordinal top}, n'.IsRoot id ordinal top → n.IsRoot id ordinal top)
    (hbinds : ∀ {directory binding}, n'.Binds directory binding → n.Binds directory binding)
    (hkind : ∀ {entry node}, n.node? entry = some node →
      ∃ node', n'.node? entry = some node' ∧ node'.kind = node.kind)
    (live : ∀ {entry file}, n.Bound entry → n'.node? entry = some (.file file) →
      file.state ≠ .pendingDeletion)
    (ordered : ∀ {directory names}, n'.node? directory = some (.directory names) →
      names.Ordered)
    (backed : ∀ {entry file}, n'.node? entry = some (.file file) →
      file.inode.index < n'.inodes)
    (counted : ∀ {entry file}, n'.node? entry = some (.file file) →
      file.openHandles = n'.opens entry)
    (leased : ∀ {lease}, lease ∈ n'.leases → ∃ file, n'.node? lease.entry = some (.file file)) :
    n'.WellFormed := by
  have hbound : ∀ {entry}, n'.Bound entry → n.Bound entry :=
    fun ⟨directory, binding, hbinding, hentry⟩ => ⟨directory, binding, hbinds hbinding, hentry⟩
  constructor
  case root_directory =>
    intro id ordinal top hroot
    obtain ⟨names, hnames⟩ := hn.root_directory (hroots hroot)
    obtain ⟨node, hnode, hsame⟩ := hkind hnames
    cases node with
    | directory names => exact ⟨names, hnode⟩
    | file file => cases hsame
    | symlink target => cases hsame
  case root_once => exact fun h h' => hn.root_once (hroots h) (hroots h')
  case root_unbound => exact fun h hbound' => hn.root_unbound (hroots h) (hbound hbound')
  case bound_once => exact fun h h' => hn.bound_once (hbinds h) (hbinds h')
  case bound_kind =>
    intro directory binding hbinding
    obtain ⟨node, hnode, hsame⟩ := hn.bound_kind (hbinds hbinding)
    obtain ⟨node', hnode', hsame'⟩ := hkind hnode
    exact ⟨node', hnode', hsame'.trans hsame⟩
  case bound_live => exact fun hbound' => live (hbound hbound')
  case ordered => exact ordered
  case backed => exact backed
  case counted => exact counted
  case leased => exact leased

/-- Giving a directory other names keeps a namespace well formed if every name is an old one or
names a loose entry, and no entry has two. -/
theorem WellFormed.setDirectory (hn : n.WellFormed)
    (hnode : n.node? directory = some (.directory names)) (hordered : names'.Ordered)
    (hnew : ∀ binding ∈ names'.bindings,
      binding ∈ names.bindings ∨ n.Loose binding.entry binding.kind)
    (honce : ∀ binding ∈ names'.bindings, ∀ binding' ∈ names'.bindings,
      binding.entry = binding'.entry → binding = binding') :
    (n.setNode directory (.directory names')).WellFormed := by
  -- every binding of the new namespace is an old one or belongs to a loose entry
  have hbinds : ∀ {parent binding}, (n.setNode directory (.directory names')).Binds parent binding →
      n.Binds parent binding ∨ n.Loose binding.entry binding.kind := by
    intro parent binding h
    rw [binds_setDirectory] at h
    split at h
    case isTrue hparent =>
      subst hparent
      exact (hnew binding h).imp_left fun hold => ⟨names, hnode, hold⟩
    case isFalse => exact .inl h
  constructor
  case root_once => exact hn.root_once
  case root_directory =>
    intro id ordinal top hroot
    obtain ⟨found, hfound⟩ := hn.root_directory hroot
    obtain ⟨node, hnode', hkind⟩ := kind_setNode (.directory names') hnode rfl hfound
    cases node with
    | directory names => exact ⟨names, hnode'⟩
    | file file => cases hkind
    | symlink target => cases hkind
  case root_unbound =>
    rintro id ordinal top hroot ⟨parent, binding, hbinding, rfl⟩
    rcases hbinds hbinding with hold | hloose
    · exact hn.root_unbound hroot hold.bound
    · exact hloose.rootless hroot
  case bound_once =>
    intro parent parent' binding binding' h h' hentry
    have hcase := hbinds h
    have hcase' := hbinds h'
    rw [binds_setDirectory] at h h'
    split at h <;> split at h'
    case isTrue.isTrue hparent hparent' =>
      exact ⟨hparent.trans hparent'.symm, honce binding h binding' h' hentry⟩
    case isTrue.isFalse =>
      rcases hcase with hold | hloose
      · exact hn.bound_once hold h' hentry
      · exact absurd (hentry ▸ h'.bound) hloose.unbound
    case isFalse.isTrue =>
      rcases hcase' with hold | hloose
      · exact hn.bound_once h hold hentry
      · exact absurd (hentry ▸ h.bound) hloose.unbound
    case isFalse.isFalse => exact hn.bound_once h h' hentry
  case bound_kind =>
    intro parent binding h
    obtain ⟨node, hold, hkind⟩ := (hbinds h).elim hn.bound_kind Loose.node
    obtain ⟨node', hnode', hkind'⟩ := kind_setNode (.directory names') hnode rfl hold
    exact ⟨node', hnode', hkind'.trans hkind⟩
  case bound_live =>
    rintro entry file ⟨parent, binding, hbinding, rfl⟩ hfile
    rw [file_setDirectory hnode] at hfile
    rcases hbinds hbinding with hold | hloose
    · exact hn.bound_live hold.bound hfile
    · exact hloose.live hfile
  case ordered =>
    intro parent found hfound
    by_cases h : parent = directory
    · subst h
      obtain rfl : names' = found := by simpa using hfound
      exact hordered
    · exact hn.ordered ((node?_setNode_of_ne h).symm.trans hfound)
  case backed =>
    intro entry file hfile
    exact hn.backed ((file_setDirectory hnode).1 hfile)
  case counted =>
    intro entry file hfile
    exact hn.counted ((file_setDirectory hnode).1 hfile)
  case leased =>
    intro lease hlease
    obtain ⟨file, hfile⟩ := hn.leased hlease
    exact ⟨file, (file_setDirectory hnode).2 hfile⟩

/-- Rewriting the node of a file, perhaps together with the open handles, keeps a namespace well
formed if the handles are still counted. -/
theorem WellFormed.setFile {leases : List Lease} (hn : n.WellFormed)
    (hnode : n.node? entry = some (.file file)) (hinode : file'.inode = file.inode)
    (hlive : n.Bound entry → file'.state ≠ .pendingDeletion)
    (hself : file'.openHandles = leases.countP (·.entry = entry))
    (hothers : ∀ other, other ≠ entry → leases.countP (·.entry = other) = n.opens other) :
    { n.setNode entry (.file file') with leases }.WellFormed := by
  apply hn.of_fewer
  case hroots => exact fun hroot => hroot
  case hbinds => exact (binds_setFile hnode).1
  case hkind => exact kind_setNode _ hnode rfl
  case live =>
    intro other found hbound hfound
    by_cases hentry : other = entry
    · subst hentry
      obtain rfl : file' = found := by simpa using hfound
      exact hlive hbound
    · exact hn.bound_live hbound ((node?_setNode_of_ne hentry).symm.trans hfound)
  case ordered =>
    intro parent names hnames
    refine hn.ordered ((node?_setNode_of_ne ?_).symm.trans hnames)
    rintro rfl
    simp at hnames
  case backed =>
    intro other found hfound
    by_cases hentry : other = entry
    · subst hentry
      obtain rfl : file' = found := by simpa using hfound
      exact hinode ▸ hn.backed hnode
    · exact hn.backed ((node?_setNode_of_ne hentry).symm.trans hfound)
  case counted =>
    intro other found hfound
    by_cases hentry : other = entry
    · subst hentry
      obtain rfl : file' = found := by simpa using hfound
      exact hself
    · have hold := hn.counted ((node?_setNode_of_ne hentry).symm.trans hfound)
      exact hold.trans (hothers other hentry).symm
  case leased =>
    intro lease hlease
    by_cases hentry : lease.entry = entry
    · exact ⟨file', hentry ▸ node?_setNode_self⟩
    · have hpos : 0 < leases.countP (·.entry = lease.entry) :=
        List.countP_pos_iff.2 ⟨lease, hlease, by simp⟩
      rw [hothers lease.entry hentry] at hpos
      obtain ⟨old, hold, hsame⟩ := List.countP_pos_iff.1 hpos
      obtain ⟨found, hfound⟩ := hn.leased hold
      rw [of_decide_eq_true hsame] at hfound
      exact ⟨found, (node?_setNode_of_ne hentry).trans hfound⟩

/-- Nothing is known of an entry that is yet to be made. -/
theorem WellFormed.unbound_of_fresh (hn : n.WellFormed) (hfresh : n.node? entry = none) :
    ¬n.Bound entry := by
  rintro ⟨parent, binding, hbinding, rfl⟩
  obtain ⟨node, hnode, _⟩ := hn.bound_kind hbinding
  rw [hfresh] at hnode
  cases hnode

theorem WellFormed.rootless_of_fresh (hn : n.WellFormed) (hfresh : n.node? entry = none) :
    ¬n.IsRoot id ordinal entry := by
  intro hroot
  obtain ⟨names, hnames⟩ := hn.root_directory hroot
  rw [hfresh] at hnames
  cases hnames

theorem opens_of_fresh (hn : n.WellFormed) (hfresh : n.node? entry = none) :
    n.opens entry = 0 := by
  rw [opens_eq_zero]
  rintro lease hlease rfl
  obtain ⟨file, hfile⟩ := hn.leased hlease
  rw [hfresh] at hfile
  cases hfile

theorem binds_setNode_fresh {node : Node} (hfresh : n.node? entry = none) (hidle : node.IsIdle) :
    (n.setNode entry node).Binds directory binding ↔ n.Binds directory binding := by
  rw [binds_setNode]
  by_cases h : directory = entry
  · subst h
    have hempty : ∀ names, node = .directory names → names.bindings = [] := by
      rintro names rfl
      exact hidle
    constructor
    · rintro (⟨-, names, hnode, hmem⟩ | ⟨hne, -⟩)
      · rw [hempty names hnode] at hmem
        cases hmem
      · exact absurd rfl hne
    · rintro ⟨names, hnode, -⟩
      rw [hfresh] at hnode
      cases hnode
  · simp [h]

/-- A new entry on which nothing depends yet keeps a namespace well formed. -/
theorem WellFormed.addNode {node : Node} (hn : n.WellFormed) (hfresh : n.node? entry = none)
    (hidle : node.IsIdle)
    (hbacked : ∀ file, node = .file file → file.inode.index < n.inodes) :
    (n.setNode entry node).WellFormed := by
  apply hn.of_fewer
  case hroots => exact fun hroot => hroot
  case hbinds => exact (binds_setNode_fresh hfresh hidle).1
  case hkind => exact fun hfound => ⟨_, node?_setNode_fresh hfresh hfound, rfl⟩
  case live =>
    intro other file hbound hfile
    by_cases hentry : other = entry
    · exact absurd (hentry ▸ hbound) (hn.unbound_of_fresh hfresh)
    · exact hn.bound_live hbound ((node?_setNode_of_ne hentry).symm.trans hfile)
  case ordered =>
    intro parent names hnames
    by_cases hentry : parent = entry
    · subst hentry
      obtain rfl : node = .directory names := by simpa using hnames
      unfold Directory.Ordered
      rw [hidle]
      exact List.Pairwise.nil
    · exact hn.ordered ((node?_setNode_of_ne hentry).symm.trans hnames)
  case backed =>
    intro other file hfile
    by_cases hentry : other = entry
    · subst hentry
      exact hbacked file (by simpa using hfile)
    · exact hn.backed ((node?_setNode_of_ne hentry).symm.trans hfile)
  case counted =>
    intro other file hfile
    by_cases hentry : other = entry
    · subst hentry
      obtain rfl : node = .file file := by simpa using hfile
      have hstate : file.state = .live 0 := hidle
      rw [opens_setNode, opens_of_fresh hn hfresh, FileNode.openHandles, hstate]
    · exact hn.counted ((node?_setNode_of_ne hentry).symm.trans hfile)
  case leased =>
    intro lease hlease
    obtain ⟨file, hfile⟩ := hn.leased hlease
    exact ⟨file, node?_setNode_fresh hfresh hfile⟩

end Namespace

end RamFs
