import RamFs.Proofs.Namespace.Sound

/-!
The changes that calls make to a namespace, each of which leads from a sound namespace to a
sound one: a new entry, a name for a loose entry, an entry removed with its name, an entry that
moves with all that is below it, a file opened or closed, a volume founded. `Evolves` says in
addition what a change leaves behind: what was named is still named, in the tree it was in,
unless it is one of the entries said to be lost.
-/

namespace RamFs.Namespace

/-- From one namespace to a later, sound one in which every name is still there except for
those of lost entries, every entry is of its kind and every volume has its roots and, if it had
one, an owner. -/
structure Evolves (n : Namespace) (lost : EntryId → Prop) (n' : Namespace) : Prop where
  sound : n'.Sound
  named : ∀ {id entry}, n.Names id entry → n'.Names id entry ∨ lost entry
  kind : ∀ {entry node}, n.node? entry = some node →
    ∃ node', n'.node? entry = some node' ∧ node'.kind = node.kind
  ground : ∀ {id ground}, n.ground? id = some ground →
    ∃ ground', n'.ground? id = some ground' ∧ ground'.collation = ground.collation ∧
      ground'.roots = ground.roots ∧ (0 < ground.owners → 0 < ground'.owners)

/-- A change that loses nothing. -/
abbrev Grows (n n' : Namespace) : Prop :=
  n.Evolves (fun _ => False) n'

variable {n n' n'' : Namespace} {id id' : VolumeId} {ordinal : Nat}
  {top entry moved directory source target : EntryId} {binding : Binding}
  {bindings : List Binding} {names names' targetNames : Directory} {file file' : FileNode}
  {ground : Ground} {collation : Collation} {name : String} {kind : Kind} {node : Node}

theorem Sound.grows (hn : n.Sound) : n.Grows n where
  sound := hn
  named := .inl
  kind := fun hnode => ⟨_, hnode, rfl⟩
  ground := fun hground => ⟨_, hground, rfl, rfl, fun h => h⟩

theorem Evolves.trans {lost lost' : EntryId → Prop} (h : n.Evolves lost n')
    (h' : n'.Evolves lost' n'') : n.Evolves (fun entry => lost entry ∨ lost' entry) n'' where
  sound := h'.sound
  named := by
    intro id entry hnames
    rcases h.named hnames with hnames' | hlost
    · exact (h'.named hnames').imp_right .inr
    · exact .inr (.inl hlost)
  kind := by
    intro entry node hnode
    obtain ⟨node', hnode', hkind⟩ := h.kind hnode
    obtain ⟨node'', hnode'', hkind'⟩ := h'.kind hnode'
    exact ⟨node'', hnode'', hkind'.trans hkind⟩
  ground := by
    intro id ground hground
    obtain ⟨ground', hground', hcollation, hroots, howners⟩ := h.ground hground
    obtain ⟨ground'', hground'', hcollation', hroots', howners'⟩ := h'.ground hground'
    exact ⟨ground'', hground'', hcollation'.trans hcollation, hroots'.trans hroots,
      fun h => howners' (howners h)⟩

theorem Evolves.weaken {lost lost' : EntryId → Prop} (h : n.Evolves lost n')
    (himp : ∀ entry, lost entry → lost' entry) : n.Evolves lost' n' where
  sound := h.sound
  named := fun hnames => (h.named hnames).imp_right (himp _)
  kind := h.kind
  ground := h.ground

theorem Grows.trans (h : n.Grows n') (h' : n'.Grows n'') : n.Grows n'' :=
  (Evolves.trans h h').weaken fun _ hlost => hlost.elim id id

theorem Evolves.isRoot {lost : EntryId → Prop} (h : n.Evolves lost n')
    (hroot : n.IsRoot id ordinal top) : n'.IsRoot id ordinal top := by
  obtain ⟨ground, hground, htop⟩ := hroot
  obtain ⟨ground', hground', _, hroots, _⟩ := h.ground hground
  exact ⟨ground', hground', hroots ▸ htop⟩

theorem Evolves.inTree {lost : EntryId → Prop} (h : n.Evolves lost n')
    (htree : n.InTree id entry) : n'.InTree id entry ∨ lost entry := by
  obtain ⟨ordinal, top, bindings, hroot, hleads⟩ := htree
  rcases hleads.eq_or_bound with ⟨_, rfl⟩ | hbound
  · exact .inl ⟨ordinal, entry, [], h.isRoot hroot, .top⟩
  · exact (h.named ⟨hbound, ordinal, top, bindings, hroot, hleads⟩).imp_left And.right

/-! ### What stays in a tree -/

/-- A route stands as long as every name on it does. -/
theorem Leads.keep (h : n.Leads top bindings entry)
    (hbinds : ∀ {directory binding}, binding ∈ bindings → n.Binds directory binding →
      n'.Binds directory binding) : n'.Leads top bindings entry := by
  induction h with
  | top => exact .top
  | step _ hbinding ih =>
      exact (ih fun hmem => hbinds (List.mem_append_left _ hmem)).step
        (hbinds (List.mem_append_right _ (List.mem_singleton_self _)) hbinding)

theorem Leads.mono
    (hbinds : ∀ {directory binding}, n.Binds directory binding → n'.Binds directory binding)
    (h : n.Leads top bindings entry) : n'.Leads top bindings entry :=
  h.keep fun _ => hbinds

theorem InTree.mono
    (hroots : ∀ {id ordinal top}, n.IsRoot id ordinal top → n'.IsRoot id ordinal top)
    (hbinds : ∀ {directory binding}, n.Binds directory binding → n'.Binds directory binding)
    (h : n.InTree id entry) : n'.InTree id entry := by
  obtain ⟨ordinal, top, bindings, hroot, hleads⟩ := h
  exact ⟨ordinal, top, bindings, hroots hroot, hleads.mono hbinds⟩

theorem Names.mono
    (hroots : ∀ {id ordinal top}, n.IsRoot id ordinal top → n'.IsRoot id ordinal top)
    (hbinds : ∀ {directory binding}, n.Binds directory binding → n'.Binds directory binding)
    (h : n.Names id entry) : n'.Names id entry := by
  obtain ⟨⟨directory, binding, hbinding, hentry⟩, htree⟩ := h
  exact ⟨⟨directory, binding, hbinds hbinding, hentry⟩, htree.mono hroots hbinds⟩

/-- Where all names stay except those of one entry, everything else stays in its tree, provided
that the entry does so itself or has nothing below it. -/
theorem InTree.persist
    (hroots : ∀ {id ordinal top}, n.IsRoot id ordinal top → n'.IsRoot id ordinal top)
    (hbinds : ∀ {directory binding}, n.Binds directory binding → binding.entry ≠ moved →
      n'.Binds directory binding)
    (hmoved : ∀ {binding}, n.Binds moved binding → n.InTree id moved → n'.InTree id moved)
    (h : n.InTree id entry) (hne : entry ≠ moved) : n'.InTree id entry := by
  obtain ⟨ordinal, top, bindings, hroot, hleads⟩ := h
  induction hleads with
  | top => exact ⟨ordinal, top, [], hroots hroot, .top⟩
  | @step before parent binding hbefore hbinding ih =>
      have hparent : n'.InTree id parent := by
        by_cases h : parent = moved
        · subst h
          exact hmoved hbinding ⟨ordinal, top, before, hroot, hbefore⟩
        · exact ih h
      exact hparent.step (hbinds hbinding hne)

theorem Leads.persist
    (hbinds : ∀ {directory binding}, n.Binds directory binding → binding.entry ≠ moved →
      n'.Binds directory binding)
    (h : n.Leads top bindings entry) (hclear : ∀ binding ∈ bindings, binding.entry ≠ moved) :
    n'.Leads top bindings entry :=
  h.keep fun hmem hbinding => hbinds hbinding (hclear _ hmem)

/-! ### Changes that leave every name where it is -/

/-- A well-formed namespace with the same names as a sound one is sound, if what is open in it is
named. -/
theorem Sound.grows_of_same (hn : n.Sound) (hn' : n'.WellFormed)
    (hground : n'.ground? = n.ground?)
    (hbinds : ∀ {directory binding}, n'.Binds directory binding ↔ n.Binds directory binding)
    (hheld : ∀ lease ∈ n'.leases, n.Names lease.volume lease.entry)
    (hkind : ∀ {entry node}, n.node? entry = some node →
      ∃ node', n'.node? entry = some node' ∧ node'.kind = node.kind) : n.Grows n' := by
  have hroots : ∀ {id ordinal top}, n.IsRoot id ordinal top → n'.IsRoot id ordinal top := by
    intro id ordinal top h
    unfold IsRoot at h ⊢
    rwa [hground]
  have hnames : ∀ {id entry}, n.Names id entry → n'.Names id entry :=
    fun h => h.mono hroots hbinds.2
  refine ⟨⟨hn', ?_, fun hlease => hnames (hheld _ hlease)⟩, fun h => .inl (hnames h), hkind, ?_⟩
  · intro directory binding hbinding
    obtain ⟨id, ground, hid, htree, hkey⟩ := hn.keyed (hbinds.1 hbinding)
    exact ⟨id, ground, hground ▸ hid, htree.mono hroots hbinds.2, hkey⟩
  · intro id ground hid
    exact ⟨ground, hground ▸ hid, rfl, rfl, fun h => h⟩

theorem Sound.addNode (hn : n.Sound) (hfresh : n.node? entry = none) (hidle : node.IsIdle)
    (hbacked : ∀ file, node = .file file → file.inode.index < n.inodes) :
    n.Grows (n.setNode entry node) := by
  refine hn.grows_of_same (hn.toWellFormed.addNode hfresh hidle hbacked) rfl
    (binds_setNode_fresh hfresh hidle) (fun lease hlease => hn.held hlease) ?_
  exact fun hfound => ⟨_, node?_setNode_fresh hfresh hfound, rfl⟩

/-- An entry just made is loose. -/
theorem Sound.loose_addNode (hn : n.Sound) (hfresh : n.node? entry = none)
    (hidle : node.IsIdle) : (n.setNode entry node).Loose entry node.kind where
  unbound := by
    rintro ⟨directory, binding, hbinding, hentry⟩
    rw [binds_setNode_fresh hfresh hidle] at hbinding
    exact hn.unbound_of_fresh hfresh ⟨directory, binding, hbinding, hentry⟩
  rootless := hn.rootless_of_fresh hfresh
  node := ⟨node, node?_setNode_self, rfl⟩
  live := by
    intro file hfile
    obtain rfl : node = .file file := by simpa using hfile
    have hstate : file.state = .live 0 := hidle
    rw [hstate]
    exact nofun

theorem Loose.addNode (h : n.Loose entry kind) {new : EntryId} (hfresh : n.node? new = none)
    (hidle : node.IsIdle) : (n.setNode new node).Loose entry kind := by
  obtain ⟨found, hfound, hkind⟩ := h.node
  have hne : entry ≠ new := by
    rintro rfl
    rw [hfresh] at hfound
    cases hfound
  constructor
  case unbound =>
    rintro ⟨directory, binding, hbinding, hentry⟩
    exact h.unbound ⟨directory, binding, (binds_setNode_fresh hfresh hidle).1 hbinding, hentry⟩
  case rootless => exact h.rootless
  case node => exact ⟨found, (node?_setNode_of_ne hne).trans hfound, hkind⟩
  case live => exact fun hfile => h.live ((node?_setNode_of_ne hne).symm.trans hfile)

theorem Sound.setInodes {inodes : Nat} (hn : n.Sound) (hle : n.inodes ≤ inodes) :
    n.Grows { n with inodes } := by
  refine hn.grows_of_same ?_ rfl Iff.rfl (fun lease hlease => hn.held hlease)
    (fun h => ⟨_, h, rfl⟩)
  exact { hn with backed := fun hfile => Nat.lt_of_lt_of_le (hn.backed hfile) hle }

/-- From one namespace to another that has a new, loose entry and is otherwise the same. -/
structure Gains (n : Namespace) (entry : EntryId) (kind : Kind) (n' : Namespace) : Prop where
  grows : n.Grows n'
  loose : n'.Loose entry kind
  fresh : n.node? entry = none
  same : ∀ {other}, other ≠ entry → n'.node? other = n.node? other
  binds : ∀ {directory binding}, n'.Binds directory binding ↔ n.Binds directory binding
  ground : n'.ground? = n.ground?
  leases : n'.leases = n.leases

theorem Gains.kept (h : n.Gains entry kind n') {other : EntryId}
    (hother : n.node? other = some node) : n'.node? other = some node := by
  refine (h.same ?_).trans hother
  rintro rfl
  rw [h.fresh] at hother
  cases hother

/-! ### A name for a loose entry -/

theorem binds_attach (hnode : n.node? directory = some (.directory names))
    (hinsert : names.insert collation name kind entry = .ok names') {parent : EntryId} :
    (n.setNode directory (.directory names')).Binds parent binding ↔
      n.Binds parent binding ∨
        parent = directory ∧ binding = ⟨collation.key name, name, kind, entry⟩ := by
  obtain ⟨_, rfl⟩ := Directory.insert_eq_ok.1 hinsert
  rw [binds_setDirectory]
  by_cases h : parent = directory
  · subst h
    simp only [if_true, true_and, Directory.mem_insertOrdered, Binds, hnode, Option.some.injEq,
      Node.directory.injEq, exists_eq_left']
    exact or_comm
  · simp [h]

theorem WellFormed.attach (hn : n.WellFormed) (hnode : n.node? directory = some (.directory names))
    (hloose : n.Loose entry kind)
    (hinsert : names.insert collation name kind entry = .ok names') :
    (n.setNode directory (.directory names')).WellFormed := by
  obtain ⟨_, hnames'⟩ := Directory.insert_eq_ok.1 hinsert
  have hmem : ∀ binding ∈ names'.bindings,
      binding = ⟨collation.key name, name, kind, entry⟩ ∨ binding ∈ names.bindings := by
    intro binding hbinding
    rw [hnames'] at hbinding
    exact Directory.mem_insertOrdered.1 hbinding
  have hfree : ∀ binding ∈ names.bindings, binding.entry ≠ entry := by
    rintro binding hbinding rfl
    exact hloose.unbound ⟨directory, binding, ⟨names, hnode, hbinding⟩, rfl⟩
  refine hn.setDirectory hnode ((hn.ordered hnode).insert hinsert) ?_ ?_
  · intro binding hbinding
    rcases hmem binding hbinding with rfl | hold
    · exact .inr hloose
    · exact .inl hold
  · intro binding hbinding binding' hbinding' hentry
    rcases hmem binding hbinding with rfl | hold <;> rcases hmem binding' hbinding' with rfl | hold'
    · rfl
    · exact absurd hentry.symm (hfree binding' hold')
    · exact absurd hentry (hfree binding hold)
    · exact (hn.bound_once ⟨names, hnode, hold⟩ ⟨names, hnode, hold'⟩ hentry).2

theorem Sound.attach (hn : n.Sound) (hnode : n.node? directory = some (.directory names))
    (hground : n.ground? id = some ground) (htree : n.InTree id directory)
    (hloose : n.Loose entry kind)
    (hinsert : names.insert ground.collation name kind entry = .ok names') :
    n.Grows (n.setNode directory (.directory names')) := by
  have hbinds : ∀ {parent binding}, n.Binds parent binding →
      (n.setNode directory (.directory names')).Binds parent binding :=
    fun h => (binds_attach hnode hinsert).2 (.inl h)
  have htrees : ∀ {id entry}, n.InTree id entry →
      (n.setNode directory (.directory names')).InTree id entry :=
    fun h => h.mono isRoot_setNode.2 hbinds
  have hnames : ∀ {id entry}, n.Names id entry →
      (n.setNode directory (.directory names')).Names id entry :=
    fun h => h.mono isRoot_setNode.2 hbinds
  refine ⟨⟨hn.toWellFormed.attach hnode hloose hinsert, ?_, fun h => hnames (hn.held h)⟩,
    fun h => .inl (hnames h), kind_setNode _ hnode rfl, fun h => ⟨_, h, rfl, rfl, fun h => h⟩⟩
  intro parent binding hbinding
  rcases (binds_attach hnode hinsert).1 hbinding with hold | ⟨rfl, rfl⟩
  · obtain ⟨id', ground', hid', htree', hkey⟩ := hn.keyed hold
    exact ⟨id', ground', hid', htrees htree', hkey⟩
  · exact ⟨id, ground, hground, htrees htree, rfl⟩

/-! ### An entry taken out -/

theorem binds_detach (hn : n.WellFormed) (hnode : n.node? directory = some (.directory names))
    (hfind : names.find? collation name = some binding) {parent : EntryId} {other : Binding} :
    (n.setNode directory (.directory (names.erase collation name))).Binds parent other ↔
      n.Binds parent other ∧ other.entry ≠ binding.entry := by
  have hbinding : n.Binds directory binding := ⟨names, hnode, Directory.find?_mem hfind⟩
  rw [binds_setDirectory]
  by_cases h : parent = directory
  · subst h
    rw [if_pos rfl, Directory.mem_erase]
    constructor
    · rintro ⟨hmem, hkey⟩
      refine ⟨⟨names, hnode, hmem⟩, fun hentry => hkey ?_⟩
      rw [(hn.bound_once ⟨names, hnode, hmem⟩ hbinding hentry).2, Directory.find?_key hfind]
    · rintro ⟨hother, hentry⟩
      obtain ⟨found, hfound, hmem⟩ := hother
      obtain rfl : names = found := by simpa [hnode] using hfound
      refine ⟨hmem, fun hkey => hentry ?_⟩
      rw [(hn.ordered hnode).eq_of_key hmem (Directory.find?_mem hfind)
        (hkey.trans (Directory.find?_key hfind).symm)]
  · rw [if_neg h]
    refine ⟨fun hother => ⟨hother, fun hentry => h ?_⟩, And.left⟩
    exact (hn.bound_once hother hbinding hentry).1

theorem WellFormed.detach (hn : n.WellFormed) (hnode : n.node? directory = some (.directory names))
    (hfind : names.find? collation name = some binding) :
    (n.setNode directory (.directory (names.erase collation name))).WellFormed ∧
      (n.setNode directory (.directory (names.erase collation name))).Loose binding.entry
        binding.kind := by
  have hbinding : n.Binds directory binding := ⟨names, hnode, Directory.find?_mem hfind⟩
  have hmem : ∀ other ∈ (names.erase collation name).bindings, other ∈ names.bindings :=
    fun other hother => (Directory.mem_erase.1 hother).1
  refine ⟨hn.setDirectory hnode (hn.ordered hnode).erase (fun other hother =>
    .inl (hmem other hother)) ?_, ?_⟩
  · intro first hfirst second hsecond hentry
    exact (hn.bound_once ⟨names, hnode, hmem first hfirst⟩ ⟨names, hnode, hmem second hsecond⟩
      hentry).2
  · constructor
    case unbound =>
      rintro ⟨parent, other, hother, hentry⟩
      exact ((binds_detach hn hnode hfind).1 hother).2 hentry
    case rootless => exact fun hroot => hn.root_unbound hroot hbinding.bound
    case node =>
      obtain ⟨node, hold, hkind⟩ := hn.bound_kind hbinding
      obtain ⟨node', hnode', hkind'⟩ :=
        kind_setNode (.directory (names.erase collation name)) hnode rfl hold
      exact ⟨node', hnode', hkind'.trans hkind⟩
    case live =>
      exact fun hfile => hn.bound_live hbinding.bound ((file_setDirectory hnode).1 hfile)

/-- The namespace once an entry is out of use: a file is marked, anything else stays. -/
def retire (n : Namespace) (entry : EntryId) : Namespace :=
  match n.node? entry with
  | some (.file file) => n.setNode entry (.file { file with state := .pendingDeletion })
  | _ => n

@[simp]
theorem ground?_retire : (n.retire entry).ground? = n.ground? := by
  unfold retire
  split <;> rfl

@[simp]
theorem leases_retire : (n.retire entry).leases = n.leases := by
  unfold retire
  split <;> rfl

theorem node?_retire_of_ne {other : EntryId} (h : other ≠ entry) :
    (n.retire entry).node? other = n.node? other := by
  unfold retire
  split
  · exact node?_setNode_of_ne h
  · rfl

@[simp]
theorem binds_retire : (n.retire entry).Binds directory binding ↔ n.Binds directory binding := by
  unfold retire
  split
  case h_1 file hfile => exact binds_setFile hfile
  case h_2 => exact Iff.rfl

theorem kind_retire {other : EntryId} (hother : n.node? other = some node) :
    ∃ node', (n.retire entry).node? other = some node' ∧ node'.kind = node.kind := by
  unfold retire
  split
  case h_1 file hfile => exact kind_setNode _ hfile rfl hother
  case h_2 => exact ⟨node, hother, rfl⟩

theorem WellFormed.retire (hn : n.WellFormed) (hunbound : ¬n.Bound entry)
    (hopens : n.opens entry = 0) : (n.retire entry).WellFormed := by
  unfold Namespace.retire
  split
  case h_1 file hfile =>
    exact hn.setFile hfile rfl (fun hbound => absurd hbound hunbound) hopens.symm
      fun _ _ => rfl
  case h_2 => exact hn

theorem not_binds_of_idle (hnode : n.node? entry = some node) (hidle : node.IsIdle) :
    ¬n.Binds entry binding := by
  rintro ⟨names, hnames, hmem⟩
  obtain rfl : Node.directory names = node := Option.some.inj (hnames.symm.trans hnode)
  have hempty : names.bindings = [] := hidle
  rw [hempty] at hmem
  cases hmem

theorem WellFormed.opens_of_idle (hn : n.WellFormed) (hnode : n.node? entry = some node)
    (hidle : node.IsIdle) : n.opens entry = 0 := by
  cases node with
  | file file =>
      have hstate : file.state = .live 0 := hidle
      rw [← hn.counted hnode, FileNode.openHandles, hstate]
  | _ =>
      rw [opens_eq_zero]
      rintro lease hlease rfl
      obtain ⟨file, hfile⟩ := hn.leased hlease
      rw [hnode] at hfile
      cases hfile

/-- An entry on which nothing depends can be taken out, and it is all that is lost. -/
theorem Sound.remove (hn : n.Sound) (hnode : n.node? directory = some (.directory names))
    (hfind : names.find? collation name = some binding)
    (hentry : n.node? binding.entry = some node) (hidle : node.IsIdle) :
    n.Evolves (· = binding.entry)
      ((n.setNode directory (.directory (names.erase collation name))).retire binding.entry) := by
  obtain ⟨hdetached, hloose⟩ := hn.toWellFormed.detach hnode hfind
  have hopens : n.opens binding.entry = 0 := hn.opens_of_idle hentry hidle
  generalize hn' : (n.setNode directory (.directory (names.erase collation name))).retire
    binding.entry = n'
  have hground : n'.ground? = n.ground? := by simp [← hn']
  have hbinds : ∀ {parent other}, n'.Binds parent other ↔
      n.Binds parent other ∧ other.entry ≠ binding.entry := by
    intro parent other
    rw [← hn', binds_retire]
    exact binds_detach hn.toWellFormed hnode hfind
  have htrees : ∀ {id entry}, n.InTree id entry → entry ≠ binding.entry → n'.InTree id entry := by
    refine InTree.persist ?_ (fun h hne => hbinds.2 ⟨h, hne⟩)
      fun h => absurd h (not_binds_of_idle hentry hidle)
    intro id ordinal top hroot
    unfold IsRoot at hroot ⊢
    rwa [hground]
  have hnames : ∀ {id entry}, n.Names id entry → entry ≠ binding.entry → n'.Names id entry := by
    rintro id entry ⟨⟨parent, other, hother, rfl⟩, htree⟩ hne
    exact ⟨(hbinds.2 ⟨hother, hne⟩).bound, htrees htree hne⟩
  constructor
  case sound =>
    constructor
    case toWellFormed =>
      rw [← hn']
      exact hdetached.retire hloose.unbound hopens
    case keyed =>
      intro parent other hother
      obtain ⟨hold, _⟩ := hbinds.1 hother
      obtain ⟨id, ground, hid, htree, hkey⟩ := hn.keyed hold
      refine ⟨id, ground, hground ▸ hid, htrees htree ?_, hkey⟩
      rintro rfl
      exact not_binds_of_idle hentry hidle hold
    case held =>
      intro lease hlease
      have hlease : lease ∈ n.leases := by simpa [← hn'] using hlease
      exact hnames (hn.held hlease) (opens_eq_zero.1 hopens lease hlease)
  case named =>
    intro id entry h
    by_cases hne : entry = binding.entry
    · exact .inr hne
    · exact .inl (hnames h hne)
  case kind =>
    intro entry node h
    obtain ⟨node', hnode', hkind'⟩ :=
      kind_setNode (.directory (names.erase collation name)) hnode rfl h
    obtain ⟨node'', hnode'', hkind''⟩ := kind_retire hnode'
    exact ⟨node'', hn' ▸ hnode'', hkind''.trans hkind'⟩
  case ground =>
    intro id ground hid
    exact ⟨ground, hground ▸ hid, rfl, rfl, fun h => h⟩

theorem retire_setNode (h : directory ≠ entry) :
    (n.retire entry).setNode directory node = (n.setNode directory node).retire entry := by
  unfold retire
  rw [node?_setNode_of_ne h.symm]
  split
  · exact setNode_comm h.symm
  · rfl

/-- What makes the loss of an entry harmless: it is a link, a directory that had no names in it,
or a file that is not open afterwards. -/
def Spent (n n' : Namespace) (entry : EntryId) : Prop :=
  ∃ node, n.node? entry = some node ∧
    match node with
    | .directory names => names.bindings = []
    | .file _ => n'.opens entry = 0
    | .symlink _ => True

theorem WellFormed.spent_of_idle (hn : n.WellFormed) (hnode : n.node? entry = some node)
    (hidle : node.IsIdle) (hleases : n'.leases = n.leases) : n.Spent n' entry := by
  refine ⟨node, hnode, ?_⟩
  cases node with
  | directory names => exact hidle
  | file file =>
      change n'.leases.countP _ = 0
      rw [hleases]
      exact hn.opens_of_idle hnode hidle
  | symlink target => trivial

/-- A file that is not open afterwards. -/
def Abandoned (n n' : Namespace) (entry : EntryId) : Prop :=
  (∃ file, n.node? entry = some (.file file)) ∧ n'.opens entry = 0

theorem Abandoned.spent (h : n.Abandoned n' entry) : n.Spent n' entry := by
  obtain ⟨⟨file, hfile⟩, hopens⟩ := h
  exact ⟨.file file, hfile, hopens⟩

/-- A change that loses nothing may go before one that loses files that were closed. -/
theorem Sound.abandons {lost : EntryId → Prop} (hn : n.Sound) (h : n.Grows n')
    (h' : n'.Evolves lost n'') (hlost : ∀ entry, lost entry → n'.Abandoned n'' entry) :
    n.Evolves (n.Abandoned n'') n'' where
  sound := h'.sound
  named := by
    intro id entry hnames
    refine (h'.named ((h.named hnames).resolve_right not_false)).imp_right fun hentry => ?_
    obtain ⟨⟨file, hfile⟩, hopens⟩ := hlost entry hentry
    refine ⟨?_, hopens⟩
    -- the entry was a file before, since it was named and kinds do not change
    obtain ⟨⟨directory, binding, hbinding, rfl⟩, _⟩ := hnames
    obtain ⟨node, hnode, _⟩ := hn.bound_kind hbinding
    obtain ⟨node', hnode', hkind⟩ := h.kind hnode
    obtain rfl : Node.file file = node' := Option.some.inj (hfile.symm.trans hnode')
    cases node with
    | file old => exact ⟨old, hnode⟩
    | directory names => cases hkind
    | symlink target => cases hkind
  kind := (Evolves.trans h h').kind
  ground := (Evolves.trans h h').ground

/-! ### An entry moved within its volume -/

/-- An entry can be given a name elsewhere in the tree it is in, together with everything below
it, if the directory of the new name does not lie below the entry. -/
theorem Sound.transplant {newName : String} (hn : n.Sound) (hground : n.ground? id = some ground)
    (hsource : n.node? source = some (.directory names)) (hin : n.InTree id source)
    (hfind : names.find? ground.collation name = some binding)
    (hroot : n.IsRoot id ordinal top) (hroute : n.Leads top bindings target)
    (hclear : ∀ passed ∈ bindings, passed.entry ≠ binding.entry)
    (htarget : (n.setNode source (.directory (names.erase ground.collation name))).node? target =
      some (.directory targetNames))
    (hinsert : targetNames.insert ground.collation newName binding.kind binding.entry =
      .ok names') :
    n.Grows ((n.setNode source (.directory (names.erase ground.collation name))).setNode target
      (.directory names')) := by
  obtain ⟨hdetached, hloose⟩ := hn.toWellFormed.detach hsource hfind
  have hmoved : n.Binds source binding := ⟨names, hsource, Directory.find?_mem hfind⟩
  generalize hn' : (n.setNode source (.directory (names.erase ground.collation name))).setNode
    target (.directory names') = n'
  have hbinds : ∀ {parent other}, n'.Binds parent other ↔
      (n.Binds parent other ∧ other.entry ≠ binding.entry) ∨
        parent = target ∧
          other = ⟨ground.collation.key newName, newName, binding.kind, binding.entry⟩ := by
    intro parent other
    rw [← hn', binds_attach htarget hinsert, binds_detach hn.toWellFormed hsource hfind]
  have hkept : ∀ {parent other}, n.Binds parent other → other.entry ≠ binding.entry →
      n'.Binds parent other := fun h hne => hbinds.2 (.inl ⟨h, hne⟩)
  have hroots : ∀ {id ordinal top}, n.IsRoot id ordinal top → n'.IsRoot id ordinal top := by
    rw [← hn']
    exact fun h => h
  -- the way to the target does not pass the entry, so the entry arrives in the tree again
  have harrived : n'.InTree id target :=
    ⟨ordinal, top, bindings, hroots hroot, hroute.persist hkept hclear⟩
  have hnew : n'.Binds target
      ⟨ground.collation.key newName, newName, binding.kind, binding.entry⟩ :=
    hbinds.2 (.inr ⟨rfl, rfl⟩)
  have htrees : ∀ {id entry}, n.InTree id entry → n'.InTree id entry := by
    intro id' entry htree
    have hsame : n.InTree id' binding.entry → n'.InTree id' binding.entry := by
      intro h
      rw [hn.inTree_unique h (hin.step hmoved)]
      have hback := harrived.step hnew
      exact hback
    by_cases hne : entry = binding.entry
    · rw [hne] at htree ⊢
      exact hsame htree
    · exact htree.persist hroots hkept (fun _ => hsame) hne
  have hnames : ∀ {id entry}, n.Names id entry → n'.Names id entry := by
    rintro id entry ⟨⟨parent, other, hother, rfl⟩, htree⟩
    refine ⟨?_, htrees htree⟩
    by_cases hne : other.entry = binding.entry
    · rw [hne]
      exact hnew.bound
    · exact (hkept hother hne).bound
  constructor
  case sound =>
    constructor
    case toWellFormed =>
      rw [← hn']
      exact hdetached.attach htarget hloose hinsert
    case keyed =>
      intro parent other hother
      rcases hbinds.1 hother with ⟨hold, _⟩ | ⟨rfl, rfl⟩
      · obtain ⟨id', ground', hid', htree, hkey⟩ := hn.keyed hold
        exact ⟨id', ground', hn' ▸ hid', htrees htree, hkey⟩
      · exact ⟨id, ground, hn' ▸ hground, harrived, rfl⟩
    case held =>
      intro lease hlease
      rw [← hn'] at hlease
      exact hnames (hn.held hlease)
  case named => exact fun h => .inl (hnames h)
  case kind =>
    intro entry node h
    obtain ⟨node', hnode', hkind'⟩ :=
      kind_setNode (.directory (names.erase ground.collation name)) hsource rfl h
    obtain ⟨node'', hnode'', hkind''⟩ := kind_setNode (.directory names') htarget rfl hnode'
    exact ⟨node'', hn' ▸ hnode'', hkind''.trans hkind'⟩
  case ground =>
    intro id ground hid
    exact ⟨ground, hn' ▸ hid, rfl, rfl, fun h => h⟩

/-! ### Files opened and closed -/

theorem Sound.openFile {count : Nat} (hn : n.Sound) (hnode : n.node? entry = some (.file file))
    (hstate : file.state = .live count) (hinode : file'.inode = file.inode)
    (hstate' : file'.state = .live (count + 1)) (hnames : n.Names id entry) :
    n.Grows { n.setNode entry (.file file') with leases := n.leases ++ [⟨id, entry⟩] } := by
  refine hn.grows_of_same ?_ rfl (binds_setFile hnode) ?_ (kind_setNode _ hnode rfl)
  · refine hn.setFile hnode hinode (fun _ => ?_) ?_ ?_
    · rw [hstate']
      exact nofun
    · have hcount : count = n.opens entry := by
        rw [← hn.counted hnode, FileNode.openHandles, hstate]
      rw [List.countP_append, FileNode.openHandles, hstate', hcount]
      simp [opens]
    · intro other hne
      rw [List.countP_append]
      simp [opens, hne.symm]
  · intro lease hlease
    rcases List.mem_append.1 hlease with hlease | hlease
    · exact hn.held hlease
    · rw [List.mem_singleton.1 hlease]
      exact hnames

theorem Sound.closeFile {leases : List Lease} (hn : n.Sound)
    (hnode : n.node? entry = some (.file file)) (hleases : n.leases.Perm (⟨id, entry⟩ :: leases)) :
    n.Grows { n.setNode entry (.file file.release) with leases } := by
  have hopens : file.openHandles = leases.countP (·.entry = entry) + 1 := by
    rw [hn.counted hnode, opens, hleases.countP_eq]
    simp
  obtain ⟨count, hstate⟩ : ∃ count, file.state = .live (count + 1) := by
    unfold FileNode.openHandles at hopens
    split at hopens
    case h_1 count hcount => exact ⟨_, hcount.trans (congrArg FileState.live hopens)⟩
    case h_2 => cases hopens
  have hreleased : file.release = { file with state := .live count } := by
    simp [FileNode.release, hstate]
  refine hn.grows_of_same ?_ rfl (binds_setFile hnode) ?_ (kind_setNode _ hnode rfl)
  · refine hn.setFile hnode (by rw [hreleased]) (fun _ => by rw [hreleased]; exact nofun) ?_ ?_
    · rw [FileNode.openHandles, hstate] at hopens
      rw [hreleased, FileNode.openHandles]
      exact Nat.succ.inj hopens
    · intro other hne
      rw [opens, hleases.countP_eq]
      simp [hne.symm]
  · intro lease hlease
    exact hn.held (hleases.symm.subset (List.mem_cons_of_mem _ hlease))

/-! ### Volumes -/

section setOwners

variable {owners : Nat}

theorem isRoot_setOwners (hground : n.ground? id = some ground) :
    (n.setGround id { ground with owners }).IsRoot id' ordinal top ↔ n.IsRoot id' ordinal top := by
  unfold IsRoot
  by_cases h : id' = id
  · subst h
    simp [hground]
  · simp [h]

/-- The number of owners of a volume has no bearing on what the volume holds. -/
theorem Sound.setOwners (hn : n.Sound) (hground : n.ground? id = some ground) :
    (n.setGround id { ground with owners }).Sound := by
  have hroots : ∀ {id' ordinal top}, (n.setGround id { ground with owners }).IsRoot id' ordinal
      top ↔ n.IsRoot id' ordinal top := isRoot_setOwners hground
  have htrees : ∀ {id' entry}, n.InTree id' entry →
      (n.setGround id { ground with owners }).InTree id' entry :=
    fun h => h.mono hroots.2 fun hbinds => hbinds
  constructor
  case toWellFormed =>
    exact
      { hn with
        root_directory := fun h => hn.root_directory (hroots.1 h)
        root_once := fun h h' => hn.root_once (hroots.1 h) (hroots.1 h')
        root_unbound := fun h => hn.root_unbound (hroots.1 h) }
  case keyed =>
    intro directory binding hbinding
    obtain ⟨id', ground', hid', htree, hkey⟩ := hn.keyed hbinding
    by_cases h : id' = id
    · subst h
      obtain rfl : ground = ground' := Option.some.inj (hground.symm.trans hid')
      exact ⟨id', _, ground?_setGround_self, htrees htree, hkey⟩
    · exact ⟨id', ground', (ground?_setGround_of_ne h).trans hid', htrees htree, hkey⟩
  case held =>
    intro lease hlease
    exact (hn.held hlease).imp_right htrees

theorem Sound.grows_setOwners (hn : n.Sound) (hground : n.ground? id = some ground)
    (howners : 0 < ground.owners → 0 < owners) :
    n.Grows (n.setGround id { ground with owners }) where
  sound := hn.setOwners hground
  named := fun h => .inl (h.mono (isRoot_setOwners hground).2 fun hbinds => hbinds)
  kind := fun h => ⟨_, h, rfl⟩
  ground := by
    intro id' ground' hid'
    by_cases h : id' = id
    · subst h
      obtain rfl : ground = ground' := Option.some.inj (hground.symm.trans hid')
      exact ⟨_, ground?_setGround_self, rfl, rfl, howners⟩
    · exact ⟨ground', (ground?_setGround_of_ne h).trans hid', rfl, rfl, fun h => h⟩

end setOwners

/-- A volume can be founded on loose directories, each of which becomes one root. -/
theorem Sound.found (hn : n.Sound) (hfresh : n.ground? id = none) (hnodup : ground.roots.Nodup)
    (hloose : ∀ top ∈ ground.roots, n.Loose top .directory) : n.Grows (n.setGround id ground) := by
  have hold : ∀ {id' ground'}, n.ground? id' = some ground' →
      (n.setGround id ground).ground? id' = some ground' := by
    intro id' ground' h
    refine (ground?_setGround_of_ne ?_).trans h
    rintro rfl
    rw [hfresh] at h
    cases h
  have hroots : ∀ {id' ordinal top}, n.IsRoot id' ordinal top →
      (n.setGround id ground).IsRoot id' ordinal top := by
    rintro id' ordinal top ⟨ground', h, htop⟩
    exact ⟨ground', hold h, htop⟩
  have hcases : ∀ {id' ordinal top}, (n.setGround id ground).IsRoot id' ordinal top →
      n.IsRoot id' ordinal top ∨ id' = id ∧ ground.roots[ordinal]? = some top := by
    rintro id' ordinal top ⟨ground', h, htop⟩
    by_cases hid : id' = id
    · subst hid
      obtain rfl : ground = ground' := by simpa using h
      exact .inr ⟨rfl, htop⟩
    · exact .inl ⟨ground', (ground?_setGround_of_ne hid).symm.trans h, htop⟩
  have htrees : ∀ {id' entry}, n.InTree id' entry → (n.setGround id ground).InTree id' entry :=
    fun h => h.mono hroots fun hbinds => hbinds
  refine ⟨⟨?_, ?_, fun h => (hn.held h).imp_right htrees⟩, fun h => .inl (h.imp_right htrees),
    fun h => ⟨_, h, rfl⟩, fun h => ⟨_, hold h, rfl, rfl, fun h => h⟩⟩
  · refine { hn with root_directory := ?_, root_once := ?_, root_unbound := ?_ }
    · intro id' ordinal top h
      rcases hcases h with h | ⟨rfl, htop⟩
      · exact hn.root_directory h
      · obtain ⟨node, hnode, hkind⟩ := (hloose top (List.mem_of_getElem? htop)).node
        cases node with
        | directory names => exact ⟨names, hnode⟩
        | file file => cases hkind
        | symlink target => cases hkind
    · intro id' id'' ordinal ordinal' top h h'
      rcases hcases h with hroot | ⟨rfl, htop⟩ <;> rcases hcases h' with hroot' | ⟨rfl, htop'⟩
      · exact hn.root_once hroot hroot'
      · exact absurd hroot (hloose top (List.mem_of_getElem? htop')).rootless
      · exact absurd hroot' (hloose top (List.mem_of_getElem? htop)).rootless
      · exact ⟨rfl, (List.getElem?_inj (List.getElem?_eq_some_iff.1 htop).1 hnodup).1
          (htop.trans htop'.symm)⟩
    · intro id' ordinal top h
      rcases hcases h with h | ⟨rfl, htop⟩
      · exact hn.root_unbound h
      · exact (hloose top (List.mem_of_getElem? htop)).unbound
  · intro directory binding hbinding
    obtain ⟨id', ground', hid', htree, hkey⟩ := hn.keyed hbinding
    exact ⟨id', ground', hold hid', htrees htree, hkey⟩

end RamFs.Namespace
