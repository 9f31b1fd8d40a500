import RamFs.Proofs.Namespace.Skeleton
import RamFs.Proofs.Namespace.Walks

/-!
What the configuration of a volume asks of everything in its trees. A registry assigns to each
entry and each inode the configuration it falls under, those that are still to be made included.
A world complies with a registry if bound entries fall under the configuration of their
directory, roots under that of their volume, and every time and every store is as the
configuration asks. All this is said of single entries, inodes, volumes and handles, so that a
change of one of them has to be looked at on its own only.
-/

namespace RamFs

open RamFs.Action

/-- What a configuration asks of times and of the stores of files. Stamping, truncating and
writing under the configuration itself conform. -/
structure Standard where
  time : Config → Time → Prop
  store : Config → BlockStore → Prop
  time_now : ∀ config now, time config (config.resolution.truncate now)
  store_new : ∀ config, store config (.new config.limits.maxFileBlocks.toNat)
  store_write : ∀ {config} {before written : BlockStore} {offset bytes},
    store config before → before.write offset bytes = .ok written → store config written
  store_truncate : ∀ {config} {before : BlockStore} (size),
    store config before → store config (before.truncate size)
  store_transfer : ∀ {config} {before : BlockStore} (offset count source),
    store config before → store config (before.transferFrom offset count source).store

/-- The configurations that entries and inodes fall under and that volumes have. -/
structure Registry where
  entry : EntryId → Config
  inode : InodeId → Config
  volume : VolumeId → Config
  /-- What everything that is made next falls under. -/
  made : Config

def Standard.Times (s : Standard) (config : Config) (times : Times) : Prop :=
  s.time config times.created ∧ s.time config times.modified ∧ s.time config times.accessed

namespace Registry

/-- What the node leads to falls under the configuration. -/
def Holds (r : Registry) (config : Config) : Node → Prop
  | .directory names => ∀ binding ∈ names.bindings, r.entry binding.entry = config
  | .file file => r.inode file.inode = config
  | .symlink _ => True

/-- An entry may fall under the configuration. -/
structure Admits (s : Standard) (r : Registry) (config : Config) (entry : Entry) : Prop where
  times : s.Times config entry.times
  node : r.Holds config entry.node

/-- The volume is configured as registered, and so are its roots. -/
structure Grounds (r : Registry) (id : VolumeId) (volume : Volume) : Prop where
  config : volume.config = r.volume id
  roots : ∀ top ∈ volume.roots, r.entry top = r.volume id

/-- The entry of the handle falls under the configuration of its volume. -/
def Fits (r : Registry) (handle : Handle) : Prop :=
  r.volume handle.volume = r.entry handle.entry

/-- The handle fits for as long as it is open. -/
def Serves (r : Registry) (handle : Handle) : Prop :=
  handle.isOpen = true → r.Fits handle

end Registry

namespace Registry

variable {s : Standard} {r : Registry} {config : Config} {entry : Entry} {id : VolumeId}
  {volume : Volume}

theorem Grounds.now (h : r.Grounds id volume) (s : Standard) (world : World) :
    s.time (r.volume id) (world.now volume) := by
  rw [← h.config]
  exact s.time_now volume.config world.clock

namespace Admits

theorem touchModified {now : Time} (h : r.Admits s config entry) (hnow : s.time config now) :
    r.Admits s config (entry.touchModified now) :=
  ⟨⟨h.times.1, hnow, hnow⟩, h.node⟩

theorem touchAccessed {now : Time} (h : r.Admits s config entry) (hnow : s.time config now) :
    r.Admits s config (entry.touchAccessed now) :=
  ⟨⟨h.times.1, h.times.2.1, hnow⟩, h.node⟩

theorem withDirectory {names : Directory} (h : r.Admits s config entry)
    (hnames : r.Holds config (.directory names)) : r.Admits s config (entry.withDirectory names) :=
  ⟨h.times, hnames⟩

theorem withFile {file : FileNode} (h : r.Admits s config entry)
    (hfile : r.inode file.inode = config) : r.Admits s config (entry.withFile file) :=
  ⟨h.times, hfile⟩

theorem directory {names : Directory} (h : r.Admits s config entry)
    (hnames : entry.directory = .ok names) :
    ∀ binding ∈ names.bindings, r.entry binding.entry = config := by
  unfold Entry.directory at hnames
  split at hnames
  case h_1 hnode =>
    obtain rfl := Except.ok.inj hnames
    exact (hnode ▸ h.node : r.Holds config (.directory _))
  case h_2 => cases hnames

theorem file {file : FileNode} (h : r.Admits s config entry) (hfile : entry.file = .ok file) :
    r.inode file.inode = config :=
  (Entry.file_eq_ok.1 hfile ▸ h.node : r.Holds config (.file file))

end Admits

end Registry

/-! ### Every element of an array -/

/-- The property holds of every element and its place. -/
def Each {α : Type} (items : Array α) (holds : Nat → α → Prop) : Prop :=
  ∀ i item, items[i]? = some item → holds i item

namespace Each

variable {α : Type} {items : Array α} {holds : Nat → α → Prop}

theorem modify (h : Each items holds) {i : Nat} {change : α → α}
    (hchange : ∀ item, holds i item → holds i (change item)) :
    Each (items.modify i change) holds := by
  intro j item hitem
  rw [Array.getElem?_modify] at hitem
  split at hitem
  case isTrue hplace =>
    obtain ⟨before, hbefore, rfl⟩ := Option.map_eq_some_iff.1 hitem
    rw [← hplace] at hbefore ⊢
    exact hchange before (h i before hbefore)
  case isFalse => exact h j item hitem

theorem push (h : Each items holds) {new : α} (hnew : holds items.size new) :
    Each (items.push new) holds := by
  intro j item hitem
  rw [Array.getElem?_push] at hitem
  split at hitem
  case isTrue hplace =>
    rw [hplace, ← Option.some.inj hitem]
    exact hnew
  case isFalse => exact h j item hitem

end Each

/-! ### Worlds that comply -/

structure Complies (s : Standard) (r : Registry) (world : World) : Prop where
  entries : Each world.entries fun i entry => r.Admits s (r.entry ⟨i⟩) entry
  inodes : Each world.inodes fun i inode => s.store (r.inode ⟨i⟩) inode.store
  volumes : Each world.volumes fun i volume => r.Grounds ⟨i⟩ volume
  handles : Each world.handles fun _ handle => r.Serves handle
  new_entries : ∀ i, world.entries.size ≤ i → r.entry ⟨i⟩ = r.made
  new_inodes : ∀ i, world.inodes.size ≤ i → r.inode ⟨i⟩ = r.made
  new_volumes : ∀ i, world.volumes.size ≤ i → r.volume ⟨i⟩ = r.made

namespace Complies

variable {s : Standard} {r : Registry} {world : World}

theorem modifyEntry (h : Complies s r world) {id : EntryId} {change : Entry → Entry}
    (hchange : ∀ entry, r.Admits s (r.entry id) entry → r.Admits s (r.entry id) (change entry)) :
    Complies s r (world.modifyEntry id change) :=
  { h with
    entries := h.entries.modify hchange
    new_entries := fun i hi => h.new_entries i (by simpa [World.modifyEntry] using hi) }

theorem modifyInode (h : Complies s r world) {id : InodeId} {change : Inode → Inode}
    (hchange : ∀ inode, s.store (r.inode id) inode.store →
      s.store (r.inode id) (change inode).store) :
    Complies s r (world.modifyInode id change) :=
  { h with
    inodes := h.inodes.modify hchange
    new_inodes := fun i hi => h.new_inodes i (by simpa [World.modifyInode] using hi) }

theorem modifyVolume (h : Complies s r world) {id : VolumeId} {change : Volume → Volume}
    (hconfig : ∀ volume, (change volume).config = volume.config)
    (hroots : ∀ volume, (change volume).roots = volume.roots) :
    Complies s r (world.modifyVolume id change) :=
  { h with
    volumes := h.volumes.modify fun volume hvolume =>
      ⟨(hconfig volume).trans hvolume.config, (hroots volume).symm ▸ hvolume.roots⟩
    new_volumes := fun i hi => h.new_volumes i (by simpa [World.modifyVolume] using hi) }

theorem modifyHandle (h : Complies s r world) {id : HandleId} {change : Handle → Handle}
    (hchange : ∀ handle, r.Serves handle → r.Serves (change handle)) :
    Complies s r (world.modifyHandle id change) :=
  { h with handles := h.handles.modify hchange }

theorem addEntry (h : Complies s r world) {entry : Entry} (hentry : r.Admits s r.made entry) :
    Complies s r (world.addEntry entry).2 ∧ r.entry (world.addEntry entry).1 = r.made := by
  have hfresh : r.entry ⟨world.entries.size⟩ = r.made := h.new_entries _ (Nat.le_refl _)
  refine ⟨{ h with entries := h.entries.push (hfresh.symm ▸ hentry), new_entries := ?_ }, hfresh⟩
  intro i hi
  have hsize : (world.addEntry entry).2.entries.size = world.entries.size + 1 :=
    Array.size_push _
  exact h.new_entries i (by omega)

theorem addInode (h : Complies s r world) {inode : Inode} (hinode : s.store r.made inode.store) :
    Complies s r (world.addInode inode).2 ∧ r.inode (world.addInode inode).1 = r.made := by
  have hfresh : r.inode ⟨world.inodes.size⟩ = r.made := h.new_inodes _ (Nat.le_refl _)
  refine ⟨{ h with inodes := h.inodes.push (hfresh.symm ▸ hinode), new_inodes := ?_ }, hfresh⟩
  intro i hi
  have hsize : (world.addInode inode).2.inodes.size = world.inodes.size + 1 :=
    Array.size_push _
  exact h.new_inodes i (by omega)

theorem addVolume (h : Complies s r world) {volume : Volume} (hconfig : volume.config = r.made)
    (hroots : ∀ top ∈ volume.roots, r.entry top = r.made) :
    Complies s r (world.addVolume volume).2 := by
  have hfresh : r.volume ⟨world.volumes.size⟩ = r.made := h.new_volumes _ (Nat.le_refl _)
  have hvolume : r.Grounds ⟨world.volumes.size⟩ volume := ⟨hfresh.symm ▸ hconfig, hfresh.symm ▸ hroots⟩
  refine { h with volumes := h.volumes.push hvolume, new_volumes := ?_ }
  intro i hi
  have hsize : (world.addVolume volume).2.volumes.size = world.volumes.size + 1 :=
    Array.size_push _
  exact h.new_volumes i (by omega)

theorem addHandle (h : Complies s r world) {handle : Handle} (hhandle : r.Serves handle) :
    Complies s r (world.addHandle handle).2 :=
  { h with handles := h.handles.push hhandle }

/-! ### What queries find -/

variable {id : VolumeId} {volume : Volume} {goal : Goal} {followLinks : Bool}

theorem grounds (h : Complies s r world) (hvolume : world.volume id = .ok volume) :
    r.Grounds id volume :=
  h.volumes _ _ (World.volume_eq_ok hvolume)

theorem admits (h : Complies s r world) {id : EntryId} {entry : Entry}
    (hentry : world.entry id = .ok entry) : r.Admits s (r.entry id) entry :=
  h.entries _ _ (World.entry_eq_ok hentry)

theorem stored (h : Complies s r world) {id : InodeId} {inode : Inode}
    (hinode : world.inode id = .ok inode) : s.store (r.inode id) inode.store :=
  h.inodes _ _ (World.inode_eq_ok hinode)

theorem serves (h : Complies s r world) {id : HandleId} {handle : Handle}
    (hhandle : world.handle id = .ok handle) : r.Serves handle :=
  h.handles _ _ (by rw [← Array.getElem?_toList]; exact World.handle_eq_ok hhandle)

theorem bound (h : Complies s r world) {id : EntryId} {names : Directory}
    (hnames : world.directory id = .ok names) :
    ∀ binding ∈ names.bindings, r.entry binding.entry = r.entry id := by
  unfold World.directory at hnames
  obtain ⟨entry, hentry, hnames⟩ := exists_of_bind_ok hnames
  exact (h.admits hentry).directory hnames

/-- Whatever a route leads to falls under what its top falls under. -/
theorem leads (h : Complies s r world) {top entry : EntryId} {bindings : List Binding}
    (hleads : world.namespace.Leads top bindings entry) : r.entry entry = r.entry top := by
  induction hleads with
  | top => rfl
  | step _ hbinds ih =>
      obtain ⟨names, hnode, hmem⟩ := hbinds
      exact (h.bound (World.directory_eq_ok.2 hnode) _ hmem).trans ih

theorem trail (h : Complies s r world) (hvolume : r.Grounds id volume) {unseen : List EntryId}
    {root : Nat} {names : List String} {visit : Visit}
    (hvisit : (world.trail volume goal followLinks unseen root names).outcome = .ok visit) :
    r.entry visit.entry = r.volume id := by
  fun_induction World.trail world volume goal followLinks unseen root names with
  | case1 => cases hvisit
  | case2 unseen root names entry route walked hpass =>
      cases hvisit
      obtain ⟨_, top, htop, hpass⟩ := World.passFrom_eq_ok.1 hpass
      obtain ⟨bindings, hleads, _⟩ := World.pass_arrived hpass
      exact (h.leads hleads).trans (hvolume.roots top (List.mem_of_getElem? htop))
  | case3 => cases hvisit
  | case4 _ _ _ _ _ _ _ _ _ _ _ _ _ ih => exact ih hvisit
  | case5 => cases hvisit

theorem visit (h : Complies s r world) {text : String} {followLast : Bool} {visit : Visit}
    (hvisit : world.visit id text followLast = .ok (volume, visit)) :
    r.Grounds id volume ∧ r.entry visit.entry = r.volume id := by
  unfold World.visit at hvisit
  obtain ⟨found, hvolume, hvisit⟩ := exists_of_bind_ok hvisit
  obtain ⟨path, _, hvisit⟩ := exists_of_bind_ok hvisit
  obtain ⟨walked, hwalk, hvisit⟩ := exists_of_bind_ok hvisit
  cases hvisit
  exact ⟨h.grounds hvolume, h.trail (h.grounds hvolume) hwalk⟩

end Complies

end RamFs
