import Mathlib.Data.Set.Card
import RamFs.Proofs.Namespace.Change
import RamFs.Proofs.Namespace.Skeleton

/-!
Inodes and the files that use them. An inode counts the files in use on it, which is the same as
counting their names once every such file has one. `Booked` is that account at any moment of a
call: a file may be on its way to a name that it does not have yet, and an inode may be owed a
name that it does not count yet. Making an entry, binding it and taking it out keep the account.
-/

namespace RamFs

/-- A file on its way to a name: the volume that it is to be in and its entry. -/
structure Arrival where
  volume : VolumeId
  entry : EntryId

namespace Namespace

/-- The files in use on an inode. -/
def users (n : Namespace) (inode : InodeId) : Set EntryId :=
  { entry | ∃ file, n.node? entry = some (.file file) ∧ file.inode = inode ∧
    file.state ≠ .pendingDeletion }

/-- The entry has a name in the volume or is about to get one. -/
def Belongs (n : Namespace) (coming : Option Arrival) (id : VolumeId) (entry : EntryId) : Prop :=
  n.Names id entry ∨ coming = some ⟨id, entry⟩

/-- Every inode counts the files in use on it, but for one name that it may be owed; each of them
has a name or is about to get one, and all of them are in the same volume. -/
structure Booked (n : Namespace) (tally : InodeId → Option Nat) (coming : Option Arrival)
    (owed : Option InodeId) : Prop where
  counted : ∀ {inode links}, tally inode = some links →
    (n.users inode).encard = (links + if owed = some inode then 1 else 0 : Nat)
  placed : ∀ {inode entry}, entry ∈ n.users inode → ∃ id, n.Belongs coming id entry
  together : ∀ {inode entry entry' id id'}, entry ∈ n.users inode → entry' ∈ n.users inode →
    n.Belongs coming id entry → n.Belongs coming id' entry' → id = id'

variable {n n' : Namespace} {tally tally' : InodeId → Option Nat} {coming coming' : Option Arrival}
  {owed : Option InodeId} {id : VolumeId} {inode : InodeId} {entry directory source : EntryId}
  {names names' : Directory} {file file' : FileNode} {node : Node} {ground : Ground}
  {kind : Kind} {collation : Collation} {name : String} {binding : Binding}

/-! ### Files in use -/

theorem mem_users_of_file (hnode : n.node? entry = some (.file file))
    (hlive : file.state ≠ .pendingDeletion) : entry ∈ n.users inode ↔ inode = file.inode := by
  constructor
  · rintro ⟨found, hfound, rfl, _⟩
    rw [Node.file.inj (Option.some.inj (hnode.symm.trans hfound))]
  · rintro rfl
    exact ⟨file, hnode, rfl, hlive⟩

theorem users_setDirectory (hnode : n.node? directory = some (.directory names)) :
    (n.setNode directory (.directory names')).users inode = n.users inode := by
  ext entry
  simp only [users, Set.mem_ofPred_eq, file_setDirectory hnode]

theorem users_setFile (hnode : n.node? entry = some (.file file))
    (hinode : file'.inode = file.inode) (hlive : file.state ≠ .pendingDeletion)
    (hlive' : file'.state ≠ .pendingDeletion) :
    (n.setNode entry (.file file')).users inode = n.users inode := by
  ext other
  unfold users
  by_cases h : other = entry
  · subst h
    simp [hnode, hinode, hlive, hlive']
  · simp [h]

theorem users_addNode (hfresh : n.node? entry = none) (hplain : ∀ file, node ≠ .file file) :
    (n.setNode entry node).users inode = n.users inode := by
  ext other
  unfold users
  by_cases h : other = entry
  · subst h
    simp [hfresh, hplain]
  · simp [h]

/-- A file that is retired uses its inode no more. -/
theorem users_retire : (n.retire entry).users inode = n.users inode \ {entry} := by
  ext other
  by_cases h : other = entry
  · subst h
    simp only [users, Set.mem_ofPred_eq, Set.mem_sdiff, Set.mem_singleton_iff, not_true, and_false,
      iff_false, not_exists, not_and]
    intro file hfile hinode
    unfold retire at hfile
    split at hfile
    case h_1 =>
      obtain rfl := Node.file.inj (Option.some.inj (node?_setNode_self.symm.trans hfile))
      simp
    case h_2 hnone => exact absurd hfile (hnone file)
  · simp [users, node?_retire_of_ne h, h]

theorem WellFormed.live_of_names (hn : n.WellFormed) (hnames : n.Names id entry)
    (hnode : n.node? entry = some (.file file)) : entry ∈ n.users file.inode :=
  ⟨file, hnode, rfl, hn.bound_live hnames.1 hnode⟩

/-! ### Names that stay -/

theorem Sound.names_of_bound (hn : n.Sound) (hbound : n.Bound entry) : ∃ id, n.Names id entry := by
  obtain ⟨directory, binding, hbinds, rfl⟩ := hbound
  obtain ⟨id, _, _, htree, _⟩ := hn.keyed hbinds
  exact ⟨id, hbinds.bound, htree.step hbinds⟩

/-- Where nothing is lost, an entry that had a name has it still, and in the same volume. -/
theorem Grows.names_iff (h : n.Grows n') (hn : n.Sound) (hbound : n'.Bound entry → n.Bound entry) :
    n'.Names id entry ↔ n.Names id entry := by
  constructor
  · intro hnames'
    obtain ⟨id', hnames⟩ := hn.names_of_bound (hbound hnames'.1)
    obtain rfl := h.sound.inTree_unique hnames'.2 ((h.named hnames).resolve_right not_false).2
    exact hnames
  · exact fun hnames => (h.named hnames).resolve_right not_false

/-- The account does not change as long as the same files are in use in the same volumes. -/
theorem Booked.congr (hb : n.Booked tally coming owed)
    (husers : ∀ inode, n'.users inode = n.users inode)
    (hbelongs : ∀ {id entry}, n'.Belongs coming' id entry ↔ n.Belongs coming id entry) :
    n'.Booked tally coming' owed where
  counted := fun h => husers _ ▸ hb.counted h
  placed := by
    intro inode entry h
    obtain ⟨id, hid⟩ := hb.placed (husers inode ▸ h)
    exact ⟨id, hbelongs.2 hid⟩
  together := fun h h' hid hid' =>
    hb.together (husers _ ▸ h) (husers _ ▸ h') (hbelongs.1 hid) (hbelongs.1 hid')

theorem Booked.grows (hb : n.Booked tally coming owed) (hn : n.Sound) (h : n.Grows n')
    (husers : ∀ inode, n'.users inode = n.users inode)
    (hbound : ∀ {entry}, n'.Bound entry → n.Bound entry) : n'.Booked tally coming owed :=
  hb.congr husers (or_congr_left (h.names_iff hn hbound))

/-- A file that gets the name it was on its way to. -/
theorem Booked.attach (hb : n.Booked tally (some ⟨id, entry⟩) owed) (hn : n.Sound)
    (h : n.Grows n') (husers : ∀ inode, n'.users inode = n.users inode)
    (hbound : ∀ {other}, n'.Bound other → n.Bound other ∨ other = entry)
    (hnames : n'.Names id entry) : n'.Booked tally none owed := by
  refine hb.congr husers fun {id' other} => ?_
  simp only [Belongs, reduceCtorEq, or_false, Option.some.injEq, Arrival.mk.injEq]
  constructor
  · intro hother
    rcases hbound hother.1 with hold | rfl
    · exact .inl ((h.names_iff hn fun _ => hold).1 hother)
    · exact .inr ⟨h.sound.inTree_unique hnames.2 hother.2, rfl⟩
  · rintro (hother | ⟨rfl, rfl⟩)
    · exact (h.named hother).resolve_right not_false
    · exact hnames

theorem bound_transplant {targetNames : Directory} {target other : EntryId}
    {collation' : Collation} {newName : String} (hn : n.WellFormed)
    (hsource : n.node? source = some (.directory names))
    (hfind : names.find? collation name = some binding)
    (htarget : (n.setNode source (.directory (names.erase collation name))).node? target =
      some (.directory targetNames))
    (hinsert : targetNames.insert collation' newName binding.kind binding.entry = .ok names')
    (hbound : ((n.setNode source (.directory (names.erase collation name))).setNode target
      (.directory names')).Bound other) : n.Bound other := by
  obtain ⟨parent, found, hbinds, rfl⟩ := hbound
  rw [binds_attach htarget hinsert, binds_detach hn hsource hfind] at hbinds
  rcases hbinds with ⟨hold, _⟩ | ⟨_, rfl⟩
  · exact hold.bound
  · exact ⟨source, binding, ⟨names, hsource, Directory.find?_mem hfind⟩, rfl⟩

/-- An entry may move within its volume, whatever it is. -/
theorem Booked.transplant {targetNames : Directory} {target : EntryId} {collation' : Collation}
    {newName : String} (hb : n.Booked tally coming owed) (hn : n.Sound)
    (hsource : n.node? source = some (.directory names))
    (hfind : names.find? collation name = some binding)
    (htarget : (n.setNode source (.directory (names.erase collation name))).node? target =
      some (.directory targetNames))
    (hinsert : targetNames.insert collation' newName binding.kind binding.entry = .ok names')
    (hgrows : n.Grows ((n.setNode source (.directory (names.erase collation name))).setNode target
      (.directory names'))) :
    ((n.setNode source (.directory (names.erase collation name))).setNode target
      (.directory names')).Booked tally coming owed := by
  refine hb.grows hn hgrows (fun inode => ?_)
    (bound_transplant hn.toWellFormed hsource hfind htarget hinsert)
  rw [users_setDirectory htarget, users_setDirectory hsource]

/-! ### Entries that come -/

theorem Gains.users_subset (h : n.Gains entry kind n') : n.users inode ⊆ n'.users inode :=
  fun _ ⟨file, hfile, huses⟩ => ⟨file, h.kept hfile, huses⟩

theorem Gains.fresh_user (h : n.Gains entry kind n') : entry ∉ n.users inode := by
  rintro ⟨file, hfile, _⟩
  rw [h.fresh] at hfile
  cases hfile

/-- Of the files in use on an inode, only the new entry can be new. -/
theorem Gains.users_cases (h : n.Gains entry kind n') {other : EntryId}
    (hother : other ∈ n'.users inode) : other ∈ n.users inode ∨ other = entry := by
  by_cases hne : other = entry
  · exact .inr hne
  · obtain ⟨file, hfile, huses⟩ := hother
    exact .inl ⟨file, (h.same hne).symm.trans hfile, huses⟩

theorem Gains.users_of_not_mem (h : n.Gains entry kind n') (hentry : entry ∉ n'.users inode) :
    n'.users inode = n.users inode := by
  refine Set.Subset.antisymm (fun other hother => ?_) h.users_subset
  refine (h.users_cases hother).resolve_right ?_
  rintro rfl
  exact hentry hother

theorem Gains.users_of_mem (h : n.Gains entry kind n') (hentry : entry ∈ n'.users inode) :
    n'.users inode = insert entry (n.users inode) := by
  refine Set.Subset.antisymm (fun other hother => (h.users_cases hother).symm) ?_
  exact Set.insert_subset hentry h.users_subset

/-- A new entry is on its way to a volume: the one in which its inode is in use already. -/
theorem Booked.gains (hb : n.Booked tally none none) (hn : n.Sound) (h : n.Gains entry kind n')
    (hcounted : ∀ {inode links}, tally' inode = some links →
      (n'.users inode).encard = (links + if owed = some inode then 1 else 0 : Nat))
    (hhome : ∀ {inode other id'}, entry ∈ n'.users inode → other ∈ n.users inode →
      n.Names id' other → id' = id) : n'.Booked tally' (some ⟨id, entry⟩) owed := by
  have hnames : ∀ {id' other}, n'.Names id' other ↔ n.Names id' other :=
    h.grows.names_iff hn fun ⟨directory, binding, hbinds, hentry⟩ =>
      ⟨directory, binding, h.binds.1 hbinds, hentry⟩
  -- what belongs somewhere was named there before, but for the new entry
  have hbelongs : ∀ {inode id' other}, other ∈ n'.users inode →
      n'.Belongs (some ⟨id, entry⟩) id' other →
      other ∈ n.users inode ∧ n.Names id' other ∨ other = entry ∧ id' = id := by
    rintro inode id' other hother (hold | hnew)
    · refine .inl ⟨(h.users_cases hother).resolve_right ?_, hnames.1 hold⟩
      rintro rfl
      exact hn.unbound_of_fresh h.fresh (hnames.1 hold).1
    · obtain ⟨rfl, rfl⟩ := (Arrival.mk.injEq ..).mp (Option.some.inj hnew)
      exact .inr ⟨rfl, rfl⟩
  constructor
  case counted => exact hcounted
  case placed =>
    intro inode other hother
    rcases h.users_cases hother with hold | rfl
    · obtain ⟨id', hid' | hnone⟩ := hb.placed hold
      · exact ⟨id', .inl (hnames.2 hid')⟩
      · cases hnone
    · exact ⟨id, .inr rfl⟩
  case together =>
    intro inode other other' id₁ id₂ hother hother' hid₁ hid₂
    rcases hbelongs hother hid₁ with ⟨hold, hnamed⟩ | ⟨rfl, rfl⟩ <;>
      rcases hbelongs hother' hid₂ with ⟨hold', hnamed'⟩ | ⟨rfl, rfl⟩
    · exact hb.together hold hold' (.inl hnamed) (.inl hnamed')
    · exact hhome hother' hold hnamed
    · exact (hhome hother hold' hnamed').symm
    · rfl

/-- A new entry that is no file uses no inode. -/
theorem Booked.gains_plain (hb : n.Booked tally none none) (hn : n.Sound)
    (h : n.Gains entry kind n') (hplain : ∀ file, n'.node? entry ≠ some (.file file)) :
    n'.Booked tally (some ⟨id, entry⟩) none := by
  have hentry : ∀ inode, entry ∉ n'.users inode := fun _ ⟨file, hfile, _⟩ => hplain file hfile
  refine hb.gains hn h (fun {inode links} htally => ?_) fun hmem => absurd hmem (hentry _)
  rw [h.users_of_not_mem (hentry inode)]
  exact hb.counted htally

/-- A new file on a new inode is the only one on it. -/
theorem Booked.gains_inode (hb : n.Booked tally none none) (hn : n.Sound)
    (h : n.Gains entry kind n') (hfile : n'.node? entry = some (.file file))
    (hlive : file.state ≠ .pendingDeletion) (hfresh : n.inodes ≤ file.inode.index) :
    n'.Booked (Function.update tally file.inode (some 1)) (some ⟨id, entry⟩) none := by
  have hmem : ∀ {inode}, entry ∈ n'.users inode ↔ inode = file.inode :=
    mem_users_of_file hfile hlive
  have hnone : n.users file.inode = ∅ := by
    refine Set.eq_empty_of_forall_notMem ?_
    rintro other ⟨found, hfound, hinode, _⟩
    have hbacked := hn.backed hfound
    rw [hinode] at hbacked
    exact Nat.not_lt.2 hfresh hbacked
  refine hb.gains hn h (fun {inode links} htally => ?_) fun {inode other id'} hentry hother _ => ?_
  · by_cases hinode : inode = file.inode
    · subst hinode
      rw [Function.update_self] at htally
      obtain rfl := Option.some.inj htally
      rw [h.users_of_mem (hmem.2 rfl), hnone]
      simp
    · rw [Function.update_of_ne hinode] at htally
      rw [h.users_of_not_mem fun hentry => hinode (hmem.1 hentry)]
      exact hb.counted htally
  · rw [hmem.1 hentry, hnone] at hother
    exact absurd hother (Set.notMem_empty _)

/-- A new file on an inode that is in use is a name that the inode does not count yet. -/
theorem Booked.gains_link (hb : n.Booked tally none none) (hn : n.Sound)
    (h : n.Gains entry kind n') (hfile : n'.node? entry = some (.file file))
    (hlive : file.state ≠ .pendingDeletion) (hsource : source ∈ n.users file.inode)
    (hnames : n.Names id source) : n'.Booked tally (some ⟨id, entry⟩) (some file.inode) := by
  have hmem : ∀ {inode}, entry ∈ n'.users inode ↔ inode = file.inode :=
    mem_users_of_file hfile hlive
  refine hb.gains hn h (fun {inode links} htally => ?_)
    fun {inode other id'} hentry hother hid' => ?_
  · have hcount := hb.counted htally
    simp only [reduceCtorEq, if_false, add_zero] at hcount
    by_cases hinode : inode = file.inode
    · subst hinode
      rw [h.users_of_mem (hmem.2 rfl), Set.encard_insert_of_notMem h.fresh_user, hcount, if_pos rfl]
      rfl
    · rw [h.users_of_not_mem fun hentry => hinode (hmem.1 hentry), hcount, if_neg]
      · rfl
      · rintro hsame
        exact hinode (Option.some.inj hsame).symm
  · rw [hmem.1 hentry] at hother
    exact hb.together hother hsource (.inl hid') (.inl hnames)

/-- An inode that counts the name it was owed. -/
theorem Booked.settle (hb : n.Booked tally coming (some inode)) :
    n.Booked (Function.update tally inode ((tally inode).map (· + 1))) coming none where
  counted := by
    intro other links h
    by_cases hother : other = inode
    · subst hother
      rw [Function.update_self] at h
      obtain ⟨before, hbefore, rfl⟩ := Option.map_eq_some_iff.1 h
      simpa using hb.counted hbefore
    · rw [Function.update_of_ne hother] at h
      simpa [Ne.symm hother] using hb.counted h
  placed := hb.placed
  together := hb.together

/-- An inode on which a file is in use counts it. -/
theorem Booked.counted_pos {links : Nat} (hb : n.Booked tally coming none)
    (huser : entry ∈ n.users inode) (hlinks : tally inode = some links) : 0 < links := by
  have hcount : (n.users inode).encard = links := hb.counted hlinks
  rw [Nat.pos_iff_ne_zero]
  rintro rfl
  rw [Nat.cast_zero, Set.encard_eq_zero] at hcount
  rw [hcount] at huser
  exact huser

/-! ### Entries that go -/

/-- The numbers of names once an entry is retired. -/
def forget (n : Namespace) (tally : InodeId → Option Nat) (entry : EntryId) :
    InodeId → Option Nat :=
  match n.node? entry with
  | some (.file file) => Function.update tally file.inode ((tally file.inode).map (· - 1))
  | _ => tally

theorem forget_of_mem (h : entry ∈ n.users inode) :
    n.forget tally entry inode = (tally inode).map (· - 1) := by
  obtain ⟨file, hfile, rfl, _⟩ := h
  unfold forget
  rw [hfile]
  exact Function.update_self ..

theorem forget_of_notMem (hnode : n.node? entry = some node) (hidle : node.IsIdle)
    (h : entry ∉ n.users inode) : n.forget tally entry inode = tally inode := by
  unfold forget
  rw [hnode]
  cases node with
  | file file =>
      refine Function.update_of_ne ?_ _ _
      rintro rfl
      have hstate : file.state = .live 0 := hidle
      exact h ⟨file, hnode, rfl, by rw [hstate]; exact nofun⟩
  | directory names => rfl
  | symlink target => rfl

/-- Taking out an entry on which nothing depends leaves the other files of its inode. -/
theorem Booked.remove (hb : n.Booked tally coming none) (hn : n.Sound)
    (hnode : n.node? directory = some (.directory names))
    (hfind : names.find? collation name = some binding)
    (hentry : n.node? binding.entry = some node) (hidle : node.IsIdle) :
    ((n.setNode directory (.directory (names.erase collation name))).retire
      binding.entry).Booked (n.forget tally binding.entry) coming none := by
  have hremove := hn.remove hnode hfind hentry hidle
  generalize hn' : (n.setNode directory (.directory (names.erase collation name))).retire
    binding.entry = n' at hremove ⊢
  have husers : ∀ inode, n'.users inode = n.users inode \ {binding.entry} := by
    intro inode
    rw [← hn', users_retire, users_setDirectory hnode]
  have hbinds : ∀ {parent other}, n'.Binds parent other → n.Binds parent other := by
    intro parent other h
    rw [← hn', binds_retire, binds_detach hn.toWellFormed hnode hfind] at h
    exact h.1
  have hroots : ∀ {id ordinal top}, n'.IsRoot id ordinal top → n.IsRoot id ordinal top := by
    intro id ordinal top h
    unfold IsRoot at h ⊢
    rwa [← hn', ground?_retire] at h
  have hbelongs : ∀ {id other}, n'.Belongs coming id other → n.Belongs coming id other :=
    fun h => h.imp_left fun hnames => hnames.mono hroots hbinds
  constructor
  case counted =>
    intro inode links h
    rw [husers]
    by_cases hmem : binding.entry ∈ n.users inode
    · rw [forget_of_mem hmem] at h
      obtain ⟨before, hbefore, rfl⟩ := Option.map_eq_some_iff.1 h
      have hcount := hb.counted hbefore
      rw [← Set.encard_sdiff_singleton_add_one hmem] at hcount
      simp only [reduceCtorEq, if_false, add_zero] at hcount ⊢
      -- the inode counts at least the entry that goes
      cases before with
      | zero => simp at hcount
      | succ before =>
          rw [Nat.cast_succ] at hcount
          exact WithTop.add_right_cancel ENat.one_ne_top hcount
    · rw [forget_of_notMem hentry hidle hmem] at h
      rw [Set.sdiff_singleton_eq_self hmem, hb.counted h]
  case placed =>
    intro inode other h
    rw [husers] at h
    obtain ⟨id, hid⟩ := hb.placed h.1
    refine ⟨id, hid.imp_left fun hnames => ?_⟩
    exact (hremove.named hnames).resolve_right h.2
  case together =>
    intro inode other other' id id' h h' hid hid'
    rw [husers] at h h'
    exact hb.together h.1 h'.1 (hbelongs hid) (hbelongs hid')

end Namespace

namespace World

variable {world after later : World} {lost lost' : EntryId → Prop}

def Booked (world : World) (coming : Option Arrival := none) (owed : Option InodeId := none) :
    Prop :=
  world.namespace.Booked world.tally coming owed

/-- From one world to a later one that has lost no other names and keeps the account of links if
it was kept before. -/
structure Advances (world : World) (lost : EntryId → Prop) (after : World) : Prop where
  evolves : world.namespace.Evolves lost after.namespace
  booked : world.Booked → after.Booked

/-- A step that loses nothing. -/
abbrev Expands (world after : World) : Prop :=
  world.Advances (fun _ => False) after

theorem Advances.of_same (hn : world.namespace.Sound) (hnames : after.namespace = world.namespace)
    (htally : after.tally = world.tally) : world.Expands after where
  evolves := hnames ▸ hn.grows
  booked := by
    unfold Booked
    rw [hnames, htally]
    exact fun hb => hb

/-- What volumes there are, and who owns them, has no bearing on the account. -/
theorem Advances.of_ground {id : VolumeId} {ground : Ground} (hn : world.namespace.Sound)
    (hnames : after.namespace = world.namespace.setGround id ground)
    (htally : after.tally = world.tally)
    (hgrows : world.namespace.Grows (world.namespace.setGround id ground)) :
    world.Expands after where
  evolves := hnames ▸ hgrows
  booked := by
    intro hb
    unfold Booked
    rw [hnames, htally]
    exact Namespace.Booked.grows hb hn hgrows (fun _ => rfl) fun hbound => hbound

theorem Advances.refl (hn : world.namespace.Sound) : world.Expands world :=
  .of_same hn rfl rfl

theorem Advances.trans (h : world.Advances lost after) (h' : after.Advances lost' later) :
    world.Advances (fun entry => lost entry ∨ lost' entry) later where
  evolves := h.evolves.trans h'.evolves
  booked := fun hb => h'.booked (h.booked hb)

theorem Expands.trans (h : world.Expands after) (h' : after.Expands later) :
    world.Expands later where
  evolves := Namespace.Grows.trans h.evolves h'.evolves
  booked := fun hb => h'.booked (h.booked hb)

theorem Advances.weaken (h : world.Advances lost after)
    (himp : ∀ entry, lost entry → lost' entry) : world.Advances lost' after where
  evolves := h.evolves.weaken himp
  booked := h.booked

/-- A step that loses nothing may go before one that loses files that were closed. -/
theorem Expands.abandons (h : world.Expands after) (hn : world.namespace.Sound)
    (h' : after.Advances (after.namespace.Abandoned later.namespace) later) :
    world.Advances (world.namespace.Abandoned later.namespace) later where
  evolves := hn.abandons h.evolves h'.evolves fun _ hlost => hlost
  booked := fun hb => h'.booked (h.booked hb)

end World

end RamFs
