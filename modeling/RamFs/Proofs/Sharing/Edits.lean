import RamFs.Proofs.Contents.Flat
import RamFs.Proofs.Namespace.Durable
import RamFs.Proofs.Sessions.Writing
import RamFs.Proofs.Standards.Blocks

/-!
What an edit of one file shows through all names on all volumes. Every write, truncation or
transfer through a handle, and every truncation by path, puts a new store into one inode and stamps
the entry it went through. So all names of that inode show the new bytes, all other files show what
they showed, and no other entry has other times or another owner.
-/

namespace RamFs

open RamFs.Action

variable {world after : World} {touched : List EntryId} {inode : InodeId} {stored : Inode}
  {store : BlockStore} {entry : EntryId} {bytes : Bytes}

/-! ### What a file shows -/

/-- The contents as nothing but bytes under a ceiling. -/
def BlockStore.flat (store : BlockStore) : FlatFile :=
  ⟨store.maxBlocks, store.contents⟩

namespace World

/-- What an inode holds. -/
def flat? (world : World) (inode : InodeId) : Option FlatFile :=
  world.stores[inode.index]?.map BlockStore.flat

theorem flat?_of_inode (hstored : world.inode inode = .ok stored) :
    world.flat? inode = some stored.store.flat := by
  unfold flat?
  rw [stores_eq_some.2 ⟨stored, hstored, rfl⟩]
  rfl

/-- The attributes of the entry name the inode and count the bytes that the inode holds. -/
def Shows (world : World) (entry : EntryId) (inode : InodeId) (bytes : Bytes) : Prop :=
  ∃ found shown stored, world.entry entry = .ok found ∧ world.attributes found = .ok shown ∧
    shown.inode = some inode ∧ shown.size = bytes.length ∧ world.inode inode = .ok stored ∧
    stored.store.contents = bytes

theorem shows_iff : world.Shows entry inode bytes ↔ world.inodeOf? entry = some inode ∧
    ∃ store, world.stores[inode.index]? = some store ∧ store.contents = bytes := by
  constructor
  · rintro ⟨found, shown, stored, hfound, hshown, hinode, _, hstored, hbytes⟩
    refine ⟨?_, stored.store, stores_eq_some.2 ⟨stored, hstored, rfl⟩, hbytes⟩
    rw [inodeOf?_eq_some, node?_of_entry hfound]
    unfold World.attributes at hshown
    cases hnode : found.node with
    | directory names =>
        rw [hnode] at hshown
        cases hshown
        cases hinode
    | symlink target =>
        rw [hnode] at hshown
        cases hshown
        cases hinode
    | file file =>
        rw [hnode] at hshown
        obtain ⟨held, _, hshown⟩ := exists_of_bind_ok hshown
        cases hshown
        exact ⟨file, rfl, Option.some.inj hinode⟩
  · rintro ⟨hinode, store, hstore, rfl⟩
    obtain ⟨file, hnode, rfl⟩ := inodeOf?_eq_some.1 hinode
    obtain ⟨found, hfound, hkind⟩ := entry_of_node? hnode
    obtain ⟨stored, hstored, rfl⟩ := stores_eq_some.1 hstore
    refine ⟨found, ⟨.file, stored.size, stored.links, found.owner, found.times, some file.inode⟩,
      stored, hfound, ?_, rfl, (BlockStore.length_contents _).symm, hstored, rfl⟩
    unfold World.attributes
    rw [hkind]
    dsimp only
    rw [hstored]
    rfl

/-! ### One inode rewritten -/

theorem entry_modifyEntry {id other : EntryId} {change : Entry → Entry} :
    (world.modifyEntry id change).entry other =
      (world.entry other).map fun found => if other = id then change found else found := by
  unfold World.entry World.modifyEntry
  rw [Array.getElem?_modify]
  by_cases hsame : other = id
  · subst hsame
    rw [if_pos rfl]
    cases world.entries[other.index]? with
    | none => rfl
    | some found => exact congrArg Except.ok (if_pos rfl).symm
  · rw [if_neg fun hindex => hsame (congrArg EntryId.mk hindex.symm)]
    cases world.entries[other.index]? with
    | none => rfl
    | some found => exact congrArg Except.ok (if_neg hsame).symm

theorem entry_modifyEntry_self {id : EntryId} {found : Entry} (h : world.entry id = .ok found)
    (change : Entry → Entry) : (world.modifyEntry id change).entry id = .ok (change found) := by
  rw [entry_modifyEntry, h]
  exact congrArg Except.ok (if_pos rfl)

theorem entry_modifyEntry_of_ne {id other : EntryId} (hne : other ≠ id) (change : Entry → Entry) :
    (world.modifyEntry id change).entry other = world.entry other := by
  rw [entry_modifyEntry]
  cases world.entry other with
  | error failure => rfl
  | ok found => exact congrArg Except.ok (if_neg hne)

theorem entry_modifyInode {id : EntryId} (inode : InodeId) (change : Inode → Inode) :
    (world.modifyInode inode change).entry id = world.entry id := rfl

theorem handle_modifyHandle {id other : HandleId} {change : Handle → Handle} :
    (world.modifyHandle id change).handle other =
      (world.handle other).map fun held => if other = id then change held else held := by
  unfold World.handle World.modifyHandle
  rw [Array.getElem?_modify]
  by_cases hsame : other = id
  · subst hsame
    rw [if_pos rfl]
    cases world.handles[other.index]? with
    | none => rfl
    | some held => exact congrArg Except.ok (if_pos rfl).symm
  · rw [if_neg fun hindex => hsame (congrArg HandleId.mk hindex.symm)]
    cases world.handles[other.index]? with
    | none => rfl
    | some held => exact congrArg Except.ok (if_neg hsame).symm

/-- From one world to another in which one inode holds the store. Of the entries, those that are
touched may have other times. -/
structure Rewrites (world : World) (touched : List EntryId) (inode : InodeId) (store : BlockStore)
    (after : World) : Prop where
  skeleton : after.skeleton = world.skeleton
  own : after.stores[inode.index]? = some store
  others : ∀ {index}, index ≠ inode.index → after.stores[index]? = world.stores[index]?
  untouched : ∀ {entry}, entry ∉ touched → after.entry entry = world.entry entry
  stamped : ∀ {entry found}, world.entry entry = .ok found →
    ∃ times, after.entry entry = .ok { found with times }
  handles : ∀ {id held}, after.handle id = .ok held →
    ∃ before, world.handle id = .ok before ∧ held.entry = before.entry ∧ held.inode = before.inode

namespace Rewrites

theorem refl (hstored : world.inode inode = .ok stored) :
    world.Rewrites touched inode stored.store world where
  skeleton := rfl
  own := stores_eq_some.2 ⟨stored, hstored, rfl⟩
  others _ := rfl
  untouched _ := rfl
  stamped hfound := ⟨_, hfound⟩
  handles hheld := ⟨_, hheld, rfl, rfl⟩

variable {middle : World} {new : BlockStore}

theorem setStore (h : world.Rewrites touched inode store middle) {change : Inode → Inode}
    (hstored : middle.inode inode = .ok stored) (hchange : change stored = { stored with store := new }) :
    world.Rewrites touched inode new (middle.modifyInode inode change) := by
  have hsame : middle.modifyInode inode change =
      middle.modifyInode inode fun _ => { stored with store := new } := by
    unfold World.modifyInode
    congr 1
    apply Array.ext_getElem?
    intro i
    rw [Array.getElem?_modify, Array.getElem?_modify]
    split
    case isTrue hi =>
      subst hi
      rw [inode_eq_ok hstored, Option.map_some, Option.map_some, hchange]
    case isFalse => rfl
  have hstores : (middle.modifyInode inode fun _ => { stored with store := new }).stores =
      middle.stores.modify inode.index fun _ => new :=
    stores_modifyInode (fun _ => new) fun _ => rfl
  rw [hsame]
  constructor
  case skeleton =>
    have hlinks : { stored with store := new }.links = stored.links := rfl
    exact (skeleton_setInode hstored hlinks).trans h.skeleton
  case own =>
    rw [hstores, Array.getElem?_modify, if_pos rfl, h.own]
    rfl
  case others =>
    intro index hindex
    rw [hstores, Array.getElem?_modify, if_neg hindex.symm]
    exact h.others hindex
  case untouched => exact h.untouched
  case stamped => exact h.stamped
  case handles => exact h.handles

theorem setCursor (h : world.Rewrites touched inode store middle) {id : HandleId}
    {change : Handle → Handle} (hchange : ∀ held, ∃ position, change held = { held with position }) :
    world.Rewrites touched inode store (middle.modifyHandle id change) where
  skeleton := by
    refine (skeleton_modifyHandle fun held => ?_).trans h.skeleton
    obtain ⟨position, hheld⟩ := hchange held
    rw [hheld]
    rfl
  own := h.own
  others := h.others
  untouched := h.untouched
  stamped := h.stamped
  handles := by
    intro other held hheld
    rw [handle_modifyHandle] at hheld
    cases hknown : middle.handle other with
    | error failure =>
        rw [hknown] at hheld
        cases hheld
    | ok known =>
        rw [hknown] at hheld
        obtain ⟨before, hbefore, hentry, hinode⟩ := h.handles hknown
        obtain ⟨position, hposition⟩ := hchange known
        have hfields : held.entry = known.entry ∧ held.inode = known.inode := by
          rw [← Except.ok.inj hheld]
          dsimp only
          split
          · rw [hposition]
            exact ⟨rfl, rfl⟩
          · exact ⟨rfl, rfl⟩
        exact ⟨before, hbefore, hfields.1.trans hentry, hfields.2.trans hinode⟩

theorem stamp (h : world.Rewrites touched inode store middle) (hentry : entry ∈ touched)
    {change : Entry → Entry} (hchange : ∀ found, ∃ times, change found = { found with times }) :
    world.Rewrites touched inode store (middle.modifyEntry entry change) where
  skeleton := by
    refine (skeleton_modifyEntry_same fun found => ?_).trans h.skeleton
    obtain ⟨times, hfound⟩ := hchange found
    rw [hfound]
  own := h.own
  others := h.others
  untouched := by
    intro other hother
    have hne : other ≠ entry := fun hsame => hother (hsame ▸ hentry)
    exact (entry_modifyEntry_of_ne hne change).trans (h.untouched hother)
  stamped := by
    intro other found hfound
    obtain ⟨times, hmiddle⟩ := h.stamped hfound
    obtain ⟨later, hlater⟩ := hchange { found with times }
    by_cases hsame : other = entry
    · subst hsame
      exact ⟨later, (entry_modifyEntry_self hmiddle change).trans (congrArg Except.ok hlater)⟩
    · exact ⟨times, (entry_modifyEntry_of_ne hsame change).trans hmiddle⟩
  handles := h.handles

end Rewrites

/-- One inode is rewritten as the edit says of flat files. -/
def Revises (world : World) (touched : List EntryId) (inode : InodeId) (stored : Inode)
    (edit : FlatFile → FlatFile) (after : World) : Prop :=
  ∃ store, world.Rewrites touched inode store after ∧
    ∀ file, Agrees stored file → Agrees { stored with store } (edit file)

theorem Revises.congr {edit edit' : FlatFile → FlatFile}
    (h : world.Revises touched inode stored edit after)
    (hsame : ∀ file, Agrees stored file → edit file = edit' file) :
    world.Revises touched inode stored edit' after := by
  obtain ⟨store, hrewrites, hedit⟩ := h
  exact ⟨store, hrewrites, fun file hagrees => hsame file hagrees ▸ hedit file hagrees⟩

theorem Revises.refl (hstored : world.inode inode = .ok stored) :
    world.Revises touched inode stored id world :=
  ⟨stored.store, .refl hstored, fun _ hagrees => hagrees⟩

end World

/-! ### Through a handle -/

/-- The file after a write, which changes nothing if it is refused. -/
def FlatFile.written (file : FlatFile) (offset : Nat) (source : Bytes) : FlatFile :=
  match file.write offset source with
  | .ok written => written
  | .error _ => file

theorem FlatFile.written_of_ok {file written : FlatFile} {offset : Nat}
    (h : file.write offset bytes = .ok written) : file.written offset bytes = written := by
  unfold FlatFile.written
  rw [h]

theorem FlatFile.written_of_error {file : FlatFile} {offset : Nat} {failure : Failure}
    (h : file.write offset bytes = .error failure) : file.written offset bytes = file := by
  unfold FlatFile.written
  rw [h]

namespace Handle

/-- Where a write at the cursor begins. -/
def start (held : Handle) (file : FlatFile) : Nat :=
  if held.options.append then file.bytes.length else held.position

/-- A handle that may not write changes nothing. -/
def edit (held : Handle) (change : FlatFile → FlatFile) (file : FlatFile) : FlatFile :=
  match held.checkWritable with
  | .ok () => change file
  | .error _ => file

variable {held : Handle}

theorem stamp_rewrites {change : Entry → Time → Entry} (hentry : held.entry ∈ touched)
    (hchange : ∀ found now, ∃ times, change found now = { found with times }) :
    Maintains (world.Rewrites touched inode store) (held.stamp change) :=
  (maintains_ask fun _ _ _ _ => trivial).bind fun volume _ =>
    maintains_modify fun middle h => h.stamp hentry fun found => hchange found (middle.now volume)

theorem touchModified_rewrites (hentry : held.entry ∈ touched) :
    Maintains (world.Rewrites touched inode store) (held.stamp Entry.touchModified) :=
  stamp_rewrites hentry fun _ _ => ⟨_, rfl⟩

theorem touchAccessed_rewrites (hentry : held.entry ∈ touched) :
    Maintains (world.Rewrites touched inode store) (held.stamp Entry.touchAccessed) :=
  stamp_rewrites hentry fun _ _ => ⟨_, rfl⟩

end Handle

namespace HandleId

variable {id : HandleId} {held : Handle}

theorem setCursor_rewrites {position : Nat} :
    Maintains (world.Rewrites touched inode store) (id.setCursor position) :=
  maintains_modify fun _ h => h.setCursor fun _ => ⟨position, rfl⟩

theorem checked_refused {check : Handle → Except Failure Unit} {failure : Failure}
    (hheld : world.handle id = .ok held) (hcheck : check held = .error failure) :
    id.checked check world = (.error failure, world) := by
  unfold checked
  rw [bind_ask_ok hheld, hcheck]
  rfl

/-- An edit comes after the check that the handle may write. -/
theorem checked_revises {α : Type} {change : FlatFile → FlatFile} {next : Handle × Inode → Action α}
    (hheld : world.handle id = .ok held) (hstored : world.inode held.inode = .ok stored)
    (hnext : world.Revises touched held.inode stored change (next (held, stored) world).2) :
    world.Revises touched held.inode stored (held.edit change)
      ((id.checked Handle.checkWritable >>= next) world).2 := by
  unfold Handle.edit
  cases hcheck : held.checkWritable with
  | ok _ =>
      rw [bind_ok (checked_run hheld hcheck hstored)]
      exact hnext
  | error failure =>
      rw [bind_apply, checked_refused hheld hcheck]
      exact .refl hstored

/-- A store that is written is put in place before the rest is done, which leaves it there. -/
theorem put_revises {offset : Nat} {rest : Action Unit}
    (hstored : world.inode held.inode = .ok stored)
    (hrest : ∀ store, Maintains (world.Rewrites touched held.inode store) rest) :
    world.Revises touched held.inode stored (·.written offset bytes) ((do
      let store ← stored.store.write offset bytes
      held.setInode { stored with store }
      rest : Action Unit) world).2 := by
  cases hwrite : stored.store.write offset bytes with
  | error failure =>
      refine ⟨stored.store, .refl hstored, fun file hagrees => ?_⟩
      rcases hagrees.write offset bytes with ⟨store, _, hstore, _⟩ | ⟨_, hrefused⟩
      · cases hwrite.symm.trans hstore
      · change Agrees stored (file.written offset bytes)
        rwa [FlatFile.written_of_error hrefused]
  | ok store =>
      have hput : world.Rewrites touched held.inode store
          (held.setInode { stored with store } world).2 :=
        (World.Rewrites.refl hstored).setStore hstored rfl
      refine ⟨store, (hrest store _ hput).1, fun file hagrees => ?_⟩
      rcases hagrees.write offset bytes with ⟨store', written, hstore, hwritten, hnew⟩ | ⟨hrefused, _⟩
      · obtain rfl := Except.ok.inj (hwrite.symm.trans hstore)
        change Agrees _ (file.written offset bytes)
        rwa [FlatFile.written_of_ok hwritten]
      · cases hwrite.symm.trans hrefused

theorem writeAt_revises (hheld : world.handle id = .ok held)
    (hstored : world.inode held.inode = .ok stored) (offset : Nat) (bytes : Bytes) :
    world.Revises [held.entry] held.inode stored (held.edit (·.written offset bytes))
      (id.writeAt offset bytes world).2 :=
  checked_revises hheld hstored <| put_revises hstored fun _ =>
    Handle.touchModified_rewrites (List.mem_singleton_self _)

theorem write_revises (hheld : world.handle id = .ok held)
    (hstored : world.inode held.inode = .ok stored) (bytes : Bytes) :
    world.Revises [held.entry] held.inode stored
      (held.edit fun file => file.written (held.start file) bytes) (id.write bytes world).2 := by
  refine checked_revises hheld hstored <| (put_revises hstored fun _ => ?_).congr ?_
  · exact setCursor_rewrites.bind fun _ _ =>
      Handle.touchModified_rewrites (List.mem_singleton_self _)
  · intro file hagrees
    unfold Handle.start
    rw [← hagrees.size]

theorem truncate_revises (hheld : world.handle id = .ok held)
    (hstored : world.inode held.inode = .ok stored) (size : Nat) :
    world.Revises [held.entry] held.inode stored (held.edit (·.truncate size))
      (id.truncate size world).2 := by
  refine checked_revises hheld hstored ⟨stored.store.truncate size, ?_, fun file hagrees =>
    hagrees.truncate size⟩
  have hput : world.Rewrites [held.entry] held.inode (stored.store.truncate size)
      (held.setInode (stored.truncate size) world).2 :=
    (World.Rewrites.refl hstored).setStore hstored rfl
  have hrest : Maintains (world.Rewrites [held.entry] held.inode (stored.store.truncate size)) (do
      id.setCursor (min held.position size)
      held.stamp Entry.touchModified) :=
    setCursor_rewrites.bind fun _ _ => Handle.touchModified_rewrites (List.mem_singleton_self _)
  exact (hrest _ hput).1

theorem transferFrom_revises (hheld : world.handle id = .ok held)
    (hstored : world.inode held.inode = .ok stored) (hentry : held.entry ∈ touched)
    (offset count : Nat) (source : Source) :
    world.Revises touched held.inode stored
      (held.edit fun file => (file.transferFrom offset count source).2.1)
      (id.transferFrom offset count source world).2 := by
  unfold transferFrom Handle.edit
  rw [stateBind_apply]
  cases hcheck : held.checkWritable with
  | error failure =>
      have hrefused : (id.checked Handle.checkWritable).run world = (.error failure, world) :=
        checked_refused hheld hcheck
      rw [hrefused]
      exact .refl hstored
  | ok _ =>
      have hchecked : (id.checked Handle.checkWritable).run world = (.ok (held, stored), world) :=
        checked_run hheld hcheck hstored
      rw [hchecked]
      refine ⟨(stored.store.transferFrom offset count source).store, ?_, fun file hagrees => ?_⟩
      · dsimp only
        generalize stored.store.transferFrom offset count source = transfer
        have hput : world.Rewrites touched held.inode transfer.store
            (held.setInode { stored with store := transfer.store } world).2 :=
          (World.Rewrites.refl hstored).setStore hstored rfl
        rw [stateBind_apply]
        cases transfer.result with
        | error failure => exact hput
        | ok moved =>
            dsimp only
            split
            case isTrue => exact (Handle.touchModified_rewrites hentry _ hput).1
            case isFalse => exact hput
      · exact (hagrees.transferFrom offset count source).2.2

/-- The entry that a handle is on, if there is such a handle. -/
def entries (id : HandleId) (world : World) : List EntryId :=
  match world.handle id with
  | .ok held => [held.entry]
  | .error _ => []

theorem consumed_rewrites {before rest : Source} (hentries : id.entries world ⊆ touched) :
    Maintains (world.Rewrites touched inode store) (id.consumed before rest) := by
  unfold consumed
  have hfind : Maintains (world.Rewrites touched inode store) (Action.ask (·.handle id))
      (fun found : Handle => found.entry ∈ touched) := by
    refine maintains_ask fun middle found h hfound => hentries ?_
    obtain ⟨before, hbefore, hentry, _⟩ := h.handles hfound
    unfold entries
    rw [hbefore, hentry]
    exact List.mem_singleton_self _
  refine hfind.bind fun found hfound => ?_
  split
  case h_1 => exact maintains_pure trivial
  case h_2 =>
    split
    case isTrue =>
      exact setCursor_rewrites.bind fun _ _ => Handle.touchAccessed_rewrites hfound
    case isFalse => exact maintains_pure trivial

theorem transferFromHandle_revises (hheld : world.handle id = .ok held)
    (hstored : world.inode held.inode = .ok stored) (offset count : Nat) (other : HandleId) :
    world.Revises (held.entry :: other.entries world) held.inode stored
      (held.edit fun file => (file.transferFrom offset count (other.asSource world)).2.1)
      (id.transferFromHandle offset count other world).2 := by
  obtain ⟨store, hfilled, hedit⟩ := transferFrom_revises hheld hstored
    (List.mem_cons_self (l := other.entries world)) offset count (other.asSource world)
  refine ⟨store, ?_, hedit⟩
  unfold transferFromHandle
  rw [bind_ok (get_apply _)]
  have hrest : ∀ (result : Except Failure Nat) (rest : Source),
      Maintains (world.Rewrites (held.entry :: other.entries world) held.inode store) (do
        other.consumed (other.asSource world) rest
        result : Action Nat) := fun _ _ =>
    (consumed_rewrites (List.subset_cons_self ..)).bind fun _ _ => maintains_lift fun _ _ => trivial
  exact (hrest _ _ _ hfilled).1

end HandleId

namespace HandleCall

/-- What the call makes of the file of its handle, if it is an edit. -/
def edit? (world : World) (held : Handle) : HandleCall → Option (FlatFile → FlatFile)
  | write bytes | writeAll bytes => some fun file => file.written (held.start file) bytes
  | writeAt offset bytes => some (·.written offset bytes)
  | truncate length => some (·.truncate length)
  | transferFrom offset count source => some fun file => (file.transferFrom offset count source).2.1
  | transferFromHandle offset count other =>
    some fun file => (file.transferFrom offset count (other.asSource world)).2.1
  | _ => none

/-- The entries that an edit goes through. -/
def entries (world : World) (held : Handle) : HandleCall → List EntryId
  | transferFromHandle _ _ other => held.entry :: other.entries world
  | _ => [held.entry]

theorem revises {id : HandleId} {held : Handle} {call : HandleCall} {edit : FlatFile → FlatFile}
    (hheld : world.handle id = .ok held) (hstored : world.inode held.inode = .ok stored)
    (hedit : call.edit? world held = some edit) :
    world.Revises (call.entries world held) held.inode stored (held.edit edit)
      (call.perform id world) := by
  cases call with
  | write bytes =>
      cases hedit
      exact HandleId.write_revises hheld hstored bytes
  | writeAt offset bytes =>
      cases hedit
      exact HandleId.writeAt_revises hheld hstored offset bytes
  | writeAll bytes =>
      cases hedit
      change world.Revises _ _ _ _ (id.writeAll bytes world).2
      unfold HandleId.writeAll
      split
      case isTrue hempty =>
        refine (World.Revises.refl hstored).congr fun file _ => ?_
        have hsame : file.written (held.start file) [] = file := FlatFile.written_of_ok rfl
        rw [List.isEmpty_iff.1 hempty]
        unfold Handle.edit
        dsimp only
        rw [hsame]
        split <;> rfl
      case isFalse => exact HandleId.write_revises hheld hstored bytes
  | truncate size =>
      cases hedit
      exact HandleId.truncate_revises hheld hstored size
  | transferFrom offset count source =>
      cases hedit
      exact HandleId.transferFrom_revises hheld hstored (List.mem_singleton_self _) offset count source
  | transferFromHandle offset count other =>
      cases hedit
      exact HandleId.transferFromHandle_revises hheld hstored offset count other
  | _ => cases hedit

end HandleCall

/-! ### By path -/

theorem VolumeId.truncate_revises {id : VolumeId} {text : String} {size : Nat}
    (hn : world.namespace.Sound) (hrun : id.truncate text size world = (.ok (), after)) :
    ∃ volume visit inode stored, world.visit id text true = .ok (volume, visit) ∧
      world.inodeOf? visit.entry = some inode ∧ world.inode inode = .ok stored ∧
      world.Revises [visit.entry] inode stored (·.truncate size) after := by
  unfold VolumeId.truncate at hrun
  obtain ⟨⟨volume, visit⟩, hvisit, hrun⟩ := asked_of_bind_ok hrun
  obtain ⟨found, hfound, hrun⟩ := asked_of_bind_ok hrun
  obtain ⟨file, hfile, hrun⟩ := lifted_of_bind_ok hrun
  rw [bind_ok (modify_apply ..), bind_ok (get_apply _)] at hrun
  have hnode : world.namespace.node? visit.entry = some (.file file) :=
    Entry.file_eq_ok.1 hfile ▸ World.node?_of_entry hfound
  obtain ⟨stored, hstored⟩ := World.inode_of_lt (hn.backed hnode)
  refine ⟨volume, visit, file.inode, stored, hvisit, World.inodeOf?_eq_some.2 ⟨file, hnode, rfl⟩,
    hstored, stored.store.truncate size, ?_, fun file hagrees => hagrees.truncate size⟩
  cases hrun
  have hput : world.Rewrites [visit.entry] file.inode (stored.store.truncate size)
      (world.modifyInode file.inode (·.truncate size)) :=
    (World.Rewrites.refl hstored).setStore hstored rfl
  exact hput.stamp (List.mem_singleton_self _) fun _ => ⟨_, rfl⟩

/-! ### Through all names -/

/-- From one world to another in which one inode holds the bytes, as all its names show. Only the
entries that are touched may have other times, and nothing else shows anything else. -/
structure World.Edits (world : World) (touched : List EntryId) (inode : InodeId) (bytes : Bytes)
    (after : World) : Prop where
  /-- Every path leads where it led. -/
  visits : ∀ id text followLast, after.visit id text followLast = world.visit id text followLast
  shared : ∀ entry, world.inodeOf? entry = some inode → after.Shows entry inode bytes
  others : ∀ entry other old, other ≠ inode → world.Shows entry other old →
    after.Shows entry other old
  untouched : ∀ entry, entry ∉ touched → after.entry entry = world.entry entry
  touched : ∀ entry found, world.entry entry = .ok found →
    ∃ times, after.entry entry = .ok { found with times }

namespace World

theorem visit_congr {id : VolumeId} {text : String} {followLast : Bool}
    (hnode : after.namespace.node? = world.namespace.node?)
    (hvolumes : after.volumes = world.volumes) :
    after.visit id text followLast = world.visit id text followLast := by
  have hvolume : after.volume id = world.volume id := by
    unfold World.volume
    rw [hvolumes]
  unfold visit
  rw [hvolume]
  simp only [walk_congr hnode]

theorem inodeOf?_congr (hnode : after.namespace.node? = world.namespace.node?) :
    after.inodeOf? entry = world.inodeOf? entry := by
  apply Option.ext
  intro inode
  rw [inodeOf?_eq_some, inodeOf?_eq_some, hnode]

theorem Revises.edits {edit : FlatFile → FlatFile}
    (h : world.Revises touched inode stored edit after) (hvalid : stored.store.Valid) :
    world.Edits touched inode (edit stored.store.flat).bytes after := by
  obtain ⟨store, hrewrites, hedit⟩ := h
  have hnames := namespace_of_skeleton hrewrites.skeleton
  have hnode : after.namespace.node? = world.namespace.node? := congrArg Namespace.node? hnames
  have hagrees : Agrees { stored with store } (edit stored.store.flat) :=
    hedit _ ⟨hvalid, rfl, rfl⟩
  constructor
  case visits =>
    exact fun _ _ _ => visit_congr hnode (congrArg Skeleton.volumes hrewrites.skeleton)
  case shared =>
    intro entry hinode
    rw [shows_iff, inodeOf?_congr hnode]
    exact ⟨hinode, store, hrewrites.own, hagrees.contents⟩
  case others =>
    intro entry other old hother hshows
    rw [shows_iff, inodeOf?_congr hnode,
      hrewrites.others fun hindex => hother (congrArg InodeId.mk hindex)]
    exact shows_iff.1 hshows
  case untouched => exact fun _ hentry => hrewrites.untouched hentry
  case touched => exact fun _ _ hfound => hrewrites.stamped hfound

end World

/-- The file that a handle is open on is stored, and its store is sound. -/
theorem Reachable.file_of_handle {id : HandleId} {held : Handle} (h : Reachable world)
    (hheld : world.handle id = .ok held) :
    ∃ stored, world.inode held.inode = .ok stored ∧ stored.store.Valid := by
  obtain ⟨file, hnode, hinode⟩ := World.inodeOf?_eq_some.1 (h.tidy.tracks hheld).inode
  obtain ⟨stored, hstored⟩ := World.inode_of_lt (h.sound.backed hnode)
  rw [hinode] at hstored
  exact ⟨stored, hstored, h.stores_valid hstored⟩

/-- An edit through a handle shows through all names of the file, and nowhere else. -/
theorem HandleCall.edits {id : HandleId} {held : Handle} {call : HandleCall}
    {edit : FlatFile → FlatFile} (h : Reachable world) (hheld : world.handle id = .ok held)
    (hedit : call.edit? world held = some edit) :
    ∃ file, world.flat? held.inode = some file ∧
      world.Edits (call.entries world held) held.inode (held.edit edit file).bytes
        (call.perform id world) := by
  obtain ⟨stored, hstored, hvalid⟩ := h.file_of_handle hheld
  exact ⟨_, World.flat?_of_inode hstored, (revises hheld hstored hedit).edits hvalid⟩

/-- So does a truncation by path. -/
theorem VolumeId.truncate_edits {id : VolumeId} {text : String} {size : Nat} (h : Reachable world)
    (hrun : id.truncate text size world = (.ok (), after)) :
    ∃ volume visit inode file, world.visit id text true = .ok (volume, visit) ∧
      world.inodeOf? visit.entry = some inode ∧ world.flat? inode = some file ∧
      world.Edits [visit.entry] inode (file.truncate size).bytes after := by
  obtain ⟨volume, visit, inode, stored, hvisit, hinode, hstored, hrevises⟩ :=
    truncate_revises h.sound hrun
  exact ⟨volume, visit, inode, _, hvisit, hinode, World.flat?_of_inode hstored,
    hrevises.edits (h.stores_valid hstored)⟩

end RamFs
