import RamFs.Proofs.Sharing.Spared

/-!
Copies share nothing. A file that a copy or a move to another volume makes has an inode that no
entry had before, with the bytes of its source. Since a call writes into one inode at most, source
and copy go their own ways from then on.
-/

namespace RamFs

open RamFs.Action

variable {world after : World} {volume sourceVolume targetVolume : Volume} {src dst : Slot}
  {source entry : EntryId} {original inode : InodeId} {store : BlockStore}

namespace World

/-- The volume of a path and the slot that the path names. -/
def slotOf (world : World) (id : VolumeId) (text : String) : Except Failure (Volume × Slot) := do
  let volume ← world.volume id
  let path ← volume.parse text
  let slot ← world.slot id volume path
  return (volume, slot)

/-- What the name of a slot is bound to. -/
def bound? (world : World) (volume : Volume) (slot : Slot) : Option Binding :=
  match world.directory slot.directory with
  | .ok names => names.find? volume.collation slot.name
  | .error _ => none

theorem bound?_of_directory {names : Directory} (h : world.directory dst.directory = .ok names) :
    world.bound? volume dst = names.find? volume.collation dst.name := by
  unfold bound?
  rw [h]

/-- The source and its copy hold the same, each in an inode of its own. -/
def Twins (source entry : EntryId) (original inode : InodeId) (store : BlockStore)
    (world : World) : Prop :=
  (world.Spared original store ∧ world.inodeOf? source = some original) ∧
    world.stores[inode.index]? = some store ∧ world.inodeOf? entry = some inode

end World

theorem durable_twins (source entry : EntryId) (original inode : InodeId) (store : BlockStore) :
    Durable (World.Twins source entry original inode store) :=
  ((durable_spared original store).and (inodeOf_lasting source original)).and
    ((stores_lasting inode store).and (inodeOf_lasting entry inode))

/-! ### Copies made -/

/-- The file that is made takes the next inode. -/
theorem Action.duplicate_twins (volume : Volume) (keepAttributes : Bool)
    (h : world.Spared original store) (hinode : world.inodeOf? source = some original) :
    ∃ made, Action.duplicate volume source keepAttributes world = (.ok ⟨world.entries.size⟩, made) ∧
      made.Twins source ⟨world.entries.size⟩ original ⟨world.inodes.size⟩ store := by
  obtain ⟨file, hnode, rfl⟩ := World.inodeOf?_eq_some.1 hinode
  obtain ⟨found, hfound, hkind⟩ := World.entry_of_node? hnode
  obtain ⟨stored, hstored, rfl⟩ := World.stores_eq_some.1 h.2
  have hdurable := (durable_spared file.inode stored.store).and (inodeOf_lasting source file.inode)
  have hmade : ∀ times owner, World.Twins source ⟨world.entries.size⟩ file.inode
      ⟨world.inodes.size⟩ stored.store (((world.addInode stored.duplicate).2.addEntry
        ⟨times, owner, .file { inode := ⟨world.inodes.size⟩ }⟩).2) := by
    intro times owner
    refine ⟨hdurable.new_entry (hdurable.new_inode ⟨h, hinode⟩) rfl, ?_, ?_⟩
    · have hstores : (world.addInode stored.duplicate).2.stores = world.stores.push stored.store :=
        Array.map_push
      have hsize : world.inodes.size = world.stores.size := (Array.size_map ..).symm
      change (world.addInode stored.duplicate).2.stores[world.inodes.size]? = _
      rw [hstores, hsize, Array.getElem?_push_size]
    · refine World.inodeOf?_eq_some.2 ⟨{ inode := ⟨world.inodes.size⟩ }, ?_, rfl⟩
      rw [World.namespace_addEntry]
      exact Namespace.node?_setNode_self
  have hcopied : Action.duplicateNode found.node world =
      (.ok (.file { inode := ⟨world.inodes.size⟩ }), (world.addInode stored.duplicate).2) := by
    rw [hkind]
    unfold Action.duplicateNode
    dsimp only
    rw [bind_ask_ok hstored]
    rfl
  unfold Action.duplicate
  rw [bind_ask_ok hfound, bind_ok hcopied, bind_ok (get_apply _), add_apply]
  cases keepAttributes with
  | true => exact ⟨_, rfl, hmade found.times found.owner⟩
  | false => exact ⟨_, rfl, hmade _ _⟩

/-- What was bound last is found. -/
theorem Action.bind_finds {directory : EntryId} {collation : Collation} {name : String} {kind : Kind}
    {now : Time} (hrun : Action.bind directory collation name kind entry now world = (.ok (), after)) :
    ∃ names, after.directory directory = .ok names ∧
      names.find? collation name = some ⟨collation.key name, name, kind, entry⟩ := by
  unfold Action.bind at hrun
  obtain ⟨names, hnames, hrun⟩ := asked_of_bind_ok hrun
  obtain ⟨bound, hinsert, hrun⟩ := lifted_of_bind_ok hrun
  cases hrun
  refine ⟨bound, ?_, Directory.find?_inserted hinsert⟩
  obtain ⟨parent, hparent, _⟩ := World.entry_of_node? (World.directory_eq_ok.1 hnames)
  rw [World.directory_eq_ok, World.namespace_modifyEntry _ hparent]
  exact Namespace.node?_setNode_self

namespace Relocation

variable {op : Relocation} {sourceId targetId : VolumeId} {sourcePath targetPath : Path}
  {plan : Plan}

/-- The relocation makes a copy of its source: any copy does, and a move to another volume. -/
def Copies (op : Relocation) (sameVolume : Bool) : Prop :=
  op ≠ .link ∧ op.MakesEntry sameVolume

theorem Copies.arrival {sameVolume : Bool} (h : op.Copies sameVolume) (volume : Volume)
    (source : EntryId) : ∃ keepAttributes,
      op.arrival sameVolume volume source = Action.duplicate volume source keepAttributes := by
  obtain ⟨hlink, hmakes⟩ := h
  cases op with
  | copy options => exact ⟨options.copyAttributes, rfl⟩
  | move options =>
      rw [hmakes rfl]
      exact ⟨true, rfl⟩
  | link => exact absurd rfl hlink

theorem commit_twins (hcopies : op.Copies (src.volume = dst.volume))
    (hname : Path.IsName dst.name) (h : world.Spared original store)
    (hinode : world.inodeOf? plan.source.entry = some original)
    (hrun : op.commit sourceVolume targetVolume src dst plan world = (.ok (), after)) :
    after.Twins plan.source.entry ⟨world.entries.size⟩ original ⟨world.inodes.size⟩ store ∧
      after.bound? targetVolume dst = some ⟨targetVolume.collation.key dst.name, dst.name,
        plan.source.kind, ⟨world.entries.size⟩⟩ := by
  obtain ⟨keepAttributes, harrival⟩ := hcopies.arrival targetVolume plan.source.entry
  obtain ⟨made, hmake, htwins⟩ := Action.duplicate_twins targetVolume keepAttributes h hinode
  have hdurable := durable_twins plan.source.entry ⟨world.entries.size⟩ original
    ⟨world.inodes.size⟩ store
  rw [commit_eq, harrival, bind_ok hmake] at hrun
  obtain ⟨_, cleared, hclear, hrun⟩ := ran_of_bind_ok hrun
  obtain ⟨_, vacated, hvacate, hrun⟩ := ran_of_bind_ok hrun
  have hvacated := hdurable.vacate.after (hdurable.clear.after htwins hclear) hvacate
  refine ⟨(hdurable.settle hname).after hvacated hrun, ?_⟩
  unfold settle at hrun
  rw [bind_ok (get_apply _)] at hrun
  obtain ⟨names, hnames, hfind⟩ := Action.bind_finds hrun
  rw [World.bound?_of_directory hnames, hfind]

/-- A relocation that copies has found its source, and makes a twin of it if the target name
belongs to nothing or to another entry. -/
theorem run_twins (hn : world.namespace.Sound) (htidy : world.Tidy)
    (hcopies : op.Copies (sourceId = targetId))
    (hnames : ∀ name ∈ targetPath.elements, Path.IsName name)
    (hrun : op.run sourceId sourcePath targetId targetPath world = (.ok (), after)) :
    ∃ sourceVolume src targetVolume dst moving,
      world.volume sourceId = .ok sourceVolume ∧
      world.slot sourceId sourceVolume sourcePath = .ok src ∧
      world.volume targetId = .ok targetVolume ∧
      world.slot targetId targetVolume targetPath = .ok dst ∧
      world.bound? sourceVolume src = some moving ∧
      (moving.kind = .file → (∀ existing, world.bound? targetVolume dst = some existing →
          existing.entry ≠ moving.entry) →
        ∃ original store copied, world.inodeOf? moving.entry = some original ∧
          world.stores[original.index]? = some store ∧
          after.bound? targetVolume dst = some copied ∧ copied.kind = .file ∧
          after.Twins moving.entry copied.entry original ⟨world.inodes.size⟩ store) := by
  rw [run_eq] at hrun
  obtain ⟨decision, hdecision, hcarry⟩ := asked_of_bind_ok hrun
  obtain ⟨sourceVolume, targetVolume, src, dst, holds, sourceNames, targetNames, moving, hasked,
    hdecided⟩ := decision_asked hdecision
  refine ⟨sourceVolume, src, targetVolume, dst, moving, hasked.source_volume, hasked.source_slot,
    hasked.target_volume, hasked.target_slot,
    (World.bound?_of_directory hasked.source_names).trans hasked.source_found, ?_⟩
  intro hkind hdifferent
  rw [World.bound?_of_directory hasked.target_names] at hdifferent
  cases hother : (targetNames.find? targetVolume.collation dst.name).filter
      (·.entry = moving.entry) with
  | some same =>
      obtain ⟨hfind, hsame⟩ := Option.filter_eq_some_iff.1 hother
      exact absurd (of_decide_eq_true hsame) (hdifferent same hfind)
  | none =>
      rw [hother] at hdecided
      obtain ⟨plan, hplan, hdecided⟩ := exists_of_bind_ok hdecided
      obtain rfl := Except.ok.inj hdecided
      obtain ⟨rfl, _⟩ := plan_eq_ok hplan
      have hbinds : world.namespace.Binds src.directory moving :=
        ⟨sourceNames, World.directory_eq_ok.1 hasked.source_names,
          Directory.find?_mem hasked.source_found⟩
      obtain ⟨node, hnode, hfile⟩ := hn.bound_kind hbinds
      rw [hkind] at hfile
      cases node with
      | directory names => cases hfile
      | symlink target => cases hfile
      | file file =>
          obtain ⟨stored, hstored⟩ := World.inode_of_lt (hn.backed hnode)
          have hinode : world.inodeOf? moving.entry = some file.inode :=
            World.inodeOf?_eq_some.2 ⟨file, hnode, rfl⟩
          have hstore := World.stores_eq_some.2 ⟨stored, hstored, rfl⟩
          obtain ⟨rfl, _⟩ := World.slot_stands hasked.source_volume hasked.source_slot
          obtain ⟨rfl, _⟩ := World.slot_stands hasked.target_volume hasked.target_slot
          obtain ⟨htwins, hbound⟩ := commit_twins hcopies
            (World.slot_isName hnames hasked.target_slot) ⟨htidy, hstore⟩ hinode hcarry
          exact ⟨file.inode, stored.store, _, hinode, hstore, hbound, hkind, htwins⟩

end Relocation

/-! ### Going separate ways -/

/-- Whatever is called, the two entries keep their inodes, which are not the same, and a call
changes what one of them shows only if it may write into the inode of that one. -/
structure World.Separate (world : World) (first second : EntryId) (inode other : InodeId) :
    Prop where
  apart : inode ≠ other
  kept : ∀ calls : List Call, (calls.foldl Call.perform world).inodeOf? first = some inode ∧
    (calls.foldl Call.perform world).inodeOf? second = some other
  first_spared : ∀ (calls : List Call) (call : Call) (bytes : Bytes),
    call.written? (calls.foldl Call.perform world) ≠ some inode →
    (calls.foldl Call.perform world).Shows first inode bytes →
    (call.perform (calls.foldl Call.perform world)).Shows first inode bytes
  second_spared : ∀ (calls : List Call) (call : Call) (bytes : Bytes),
    call.written? (calls.foldl Call.perform world) ≠ some other →
    (calls.foldl Call.perform world).Shows second other bytes →
    (call.perform (calls.foldl Call.perform world)).Shows second other bytes

theorem Reachable.inodeOf_run (h : Reachable world) (hinode : world.inodeOf? entry = some inode)
    (calls : List Call) : (calls.foldl Call.perform world).inodeOf? entry = some inode := by
  induction calls generalizing world with
  | nil => exact hinode
  | cons call rest ih => exact ih (h.step call) (h.tidy.inodeOf_perform hinode call)

theorem Reachable.separate (h : Reachable world) {other : InodeId}
    (hsource : world.inodeOf? source = some original) (hother : world.inodeOf? entry = some other)
    (hapart : original ≠ other) : world.Separate source entry original other where
  apart := hapart
  kept calls := ⟨h.inodeOf_run hsource calls, h.inodeOf_run hother calls⟩
  first_spared calls _ _ hwritten hshows :=
    hshows.perform (h.run calls).sound (h.run calls).tidy hwritten
  second_spared calls _ _ hwritten hshows :=
    hshows.perform (h.run calls).sound (h.run calls).tidy hwritten

/-- From one world to another in which the slot is bound to a copy of a file. The copy has an inode
that no entry had, shows what the file shows, and is separate from it. -/
def World.Copies (world : World) (source : EntryId) (volume : Volume) (slot : Slot)
    (after : World) : Prop :=
  ∃ original inode bytes copied, world.Shows source original bytes ∧
    (∀ entry, world.inodeOf? entry ≠ some inode) ∧
    after.bound? volume slot = some copied ∧ copied.kind = .file ∧
    after.Shows source original bytes ∧ after.Shows copied.entry inode bytes ∧
    after.Separate source copied.entry original inode

/-- The call copies what is at one path to another, or moves it to another volume. -/
inductive PathCall.Copying (id : VolumeId) (source : String) (targetId : VolumeId)
    (target : String) : PathCall → Prop where
  | copy (options : CopyOptions) : Copying id source targetId target
    (.copy source targetId target options)
  | move (options : CopyOptions) : id ≠ targetId → Copying id source targetId target
    (.move source targetId target options)

/-- A copy is made as its options and its paths say once the paths are read. -/
theorem PathCall.Copying.runs {id targetId : VolumeId} {source target : String} {call : PathCall}
    (h : call.Copying id source targetId target)
    (hrun : call.act id world = (.ok (), after)) :
    ∃ op : Relocation, op.Copies (id = targetId) ∧ ∃ sourceVolume targetVolume sourcePath targetPath,
      world.volume id = .ok sourceVolume ∧ sourceVolume.parse source = .ok sourcePath ∧
      world.volume targetId = .ok targetVolume ∧ targetVolume.parse target = .ok targetPath ∧
      op.run id sourcePath targetId targetPath world = (.ok (), after) := by
  have hread : ∀ {op : Relocation}, (do
      let sourcePath ← (← Action.ask (·.volume id)).parse source
      let targetPath ← (← Action.ask (·.volume targetId)).parse target
      op.run id sourcePath targetId targetPath : Action Unit) world = (.ok (), after) →
      ∃ sourceVolume targetVolume sourcePath targetPath,
        world.volume id = .ok sourceVolume ∧ sourceVolume.parse source = .ok sourcePath ∧
        world.volume targetId = .ok targetVolume ∧ targetVolume.parse target = .ok targetPath ∧
        op.run id sourcePath targetId targetPath world = (.ok (), after) := by
    intro op hrun
    obtain ⟨sourceVolume, hsource, hrun⟩ := asked_of_bind_ok hrun
    obtain ⟨sourcePath, hsourcePath, hrun⟩ := lifted_of_bind_ok hrun
    obtain ⟨targetVolume, htarget, hrun⟩ := asked_of_bind_ok hrun
    obtain ⟨targetPath, htargetPath, hrun⟩ := lifted_of_bind_ok hrun
    exact ⟨sourceVolume, targetVolume, sourcePath, targetPath, hsource, hsourcePath, htarget,
      htargetPath, hrun⟩
  cases h with
  | copy options => exact ⟨.copy options, ⟨nofun, nofun⟩, hread hrun⟩
  | move options hacross =>
      exact ⟨.move options, ⟨nofun, fun _ => decide_eq_false hacross⟩, hread hrun⟩

theorem PathCall.Copying.copies {id targetId : VolumeId} {source target : String} {call : PathCall}
    (hcall : call.Copying id source targetId target) (h : Reachable world)
    (hrun : call.act id world = (.ok (), after)) :
    ∃ sourceVolume src targetVolume dst moving,
      world.slotOf id source = .ok (sourceVolume, src) ∧
      world.slotOf targetId target = .ok (targetVolume, dst) ∧
      world.bound? sourceVolume src = some moving ∧
      (moving.kind = .file → (∀ existing, world.bound? targetVolume dst = some existing →
          existing.entry ≠ moving.entry) →
        world.Copies moving.entry targetVolume dst after) := by
  have hafter : Reachable after := by
    have hstep := h.step (.onPath id call)
    change Reachable (call.act id world).2 at hstep
    rwa [hrun] at hstep
  obtain ⟨op, hcopies, volume, volume', sourcePath, targetPath, hvolume, hsource, hvolume', htarget,
    hrun⟩ := hcall.runs hrun
  obtain ⟨sourceVolume, src, targetVolume, dst, moving, hknown, hsrc, hknown', hdst, hmoving, htwins⟩ :=
    Relocation.run_twins h.sound h.tidy hcopies (Path.parse_isName htarget) hrun
  obtain rfl := Except.ok.inj (hknown.symm.trans hvolume)
  obtain rfl := Except.ok.inj (hknown'.symm.trans hvolume')
  refine ⟨sourceVolume, src, targetVolume, dst, moving, ?_, ?_, hmoving, fun hkind hdifferent => ?_⟩
  · unfold World.slotOf
    rw [hvolume, ok_bind, hsource, ok_bind, hsrc]
    rfl
  · unfold World.slotOf
    rw [hvolume', ok_bind, htarget, ok_bind, hdst]
    rfl
  obtain ⟨original, store, copied, hinode, hstore, hbound, hcopied,
    ⟨⟨⟨_, hkept⟩, hsame⟩, hnew, hmade⟩⟩ := htwins hkind hdifferent
  have hfresh : ∀ entry, world.inodeOf? entry ≠ some ⟨world.inodes.size⟩ := by
    intro entry hentry
    obtain ⟨file, hnode, hfile⟩ := World.inodeOf?_eq_some.1 hentry
    have hlt := h.sound.backed hnode
    rw [hfile] at hlt
    exact Nat.lt_irrefl _ hlt
  have hapart : original ≠ ⟨world.inodes.size⟩ := by
    rintro rfl
    exact hfresh _ hinode
  exact ⟨original, ⟨world.inodes.size⟩, store.contents, copied,
    World.shows_iff.2 ⟨hinode, store, hstore, rfl⟩, hfresh, hbound, hcopied,
    World.shows_iff.2 ⟨hsame, store, hkept, rfl⟩, World.shows_iff.2 ⟨hmade, store, hnew, rfl⟩,
    hafter.separate hsame hmade hapart⟩

/-- Names of one file share its bytes and nothing else, and copies share nothing. -/
theorem links_share_bytes_and_copies_nothing (h : Reachable world) :
    (∀ (id : HandleId) (held : Handle) (call : HandleCall) (edit : FlatFile → FlatFile),
      world.handle id = .ok held → call.edit? world held = some edit →
      ∃ file, world.flat? held.inode = some file ∧
        world.Edits (call.entries world held) held.inode (held.edit edit file).bytes
          (call.perform id world)) ∧
    (∀ (id : VolumeId) (text : String) (size : Nat) (after : World),
      id.truncate text size world = (.ok (), after) →
      ∃ volume visit inode file, world.visit id text true = .ok (volume, visit) ∧
        world.inodeOf? visit.entry = some inode ∧ world.flat? inode = some file ∧
        world.Edits [visit.entry] inode (file.truncate size).bytes after) ∧
    ∀ (id : VolumeId) (source : String) (targetId : VolumeId) (target : String) (call : PathCall)
      (after : World), call.Copying id source targetId target →
      call.act id world = (.ok (), after) →
      ∃ sourceVolume src targetVolume dst moving,
        world.slotOf id source = .ok (sourceVolume, src) ∧
        world.slotOf targetId target = .ok (targetVolume, dst) ∧
        world.bound? sourceVolume src = some moving ∧
        (moving.kind = .file → (∀ existing, world.bound? targetVolume dst = some existing →
            existing.entry ≠ moving.entry) →
          world.Copies moving.entry targetVolume dst after) :=
  ⟨fun _ _ _ _ hheld hedit => HandleCall.edits h hheld hedit,
    fun _ _ _ _ hrun => VolumeId.truncate_edits h hrun,
    fun _ _ _ _ _ _ hcall hrun => hcall.copies h hrun⟩

/-- Two volumes, and on the first of them a file with two names that is open for writing under the
first name. -/
def World.shared : World :=
  List.foldl Call.perform {} [.newVolume {}, .newVolume {}, .writeAll ⟨0⟩ "/a" [1, 2, 3],
    .onPath ⟨0⟩ (.createHardLink "/b" "/a"), .onPath ⟨0⟩ (.openFile "/a" .writing)]

theorem shared_bytes_and_copy :
    (HandleCall.perform ⟨1⟩ World.shared (.writeAt 1 [9])).Shows ⟨3⟩ ⟨0⟩ [1, 9, 3] ∧
      (HandleCall.perform ⟨1⟩ World.shared (.writeAt 1 [9])).entry ⟨3⟩ = World.shared.entry ⟨3⟩ ∧
      (VolumeId.truncate ⟨0⟩ "/b" 1 World.shared).2.Shows ⟨2⟩ ⟨0⟩ [1] ∧
      World.shared.Copies ⟨3⟩ ⟨{}, [⟨1⟩], 0, 1⟩ ⟨⟨1⟩, ⟨1⟩, [⟨1⟩], ⟨0, "/", [], true⟩, "c"⟩
        (PathCall.act ⟨0⟩ (.copy "/b" ⟨1⟩ "/c" {}) World.shared).2 := by
  have hreachable : Reachable World.shared := Reachable.start.run _
  obtain ⟨hedits, htruncates, hcopies⟩ := links_share_bytes_and_copies_nothing hreachable
  have hheld : World.shared.handle ⟨1⟩ = .ok { volume := ⟨0⟩, entry := ⟨2⟩, inode := ⟨0⟩
                                               path := ⟨0, "/", ["a"], true⟩, options := .writing } := by
    decide +kernel
  have hflat : World.shared.flat? ⟨0⟩ = some ⟨maxBlocks, [1, 2, 3]⟩ := by decide +kernel
  have hfirst : World.shared.inodeOf? ⟨2⟩ = some ⟨0⟩ := by decide +kernel
  have hsecond : World.shared.inodeOf? ⟨3⟩ = some ⟨0⟩ := by decide +kernel
  refine ⟨?_, ?_, ?_, ?_⟩
  · obtain ⟨file, hfile, hwritten⟩ := hedits ⟨1⟩ _ (.writeAt 1 [9]) _ hheld rfl
    obtain rfl := Option.some.inj (hflat.symm.trans hfile)
    exact hwritten.shared ⟨3⟩ hsecond
  · obtain ⟨file, _, hwritten⟩ := hedits ⟨1⟩ _ (.writeAt 1 [9]) _ hheld rfl
    exact hwritten.untouched ⟨3⟩ (by decide)
  · have hrun : (VolumeId.truncate ⟨0⟩ "/b" 1 World.shared).1 = .ok () := by decide +kernel
    obtain ⟨volume, visit, inode, file, hvisit, hinode, hfile, hcut⟩ :=
      htruncates ⟨0⟩ "/b" 1 _ (Prod.ext hrun rfl)
    have hentry : (World.shared.visit ⟨0⟩ "/b" true).map (·.2.entry) = .ok ⟨3⟩ := by decide +kernel
    rw [hvisit] at hentry
    rw [show visit.entry = ⟨3⟩ from Except.ok.inj hentry] at hinode
    obtain rfl := Option.some.inj (hsecond.symm.trans hinode)
    obtain rfl := Option.some.inj (hflat.symm.trans hfile)
    exact hcut.shared ⟨2⟩ hfirst
  · have hrun : (PathCall.act ⟨0⟩ (.copy "/b" ⟨1⟩ "/c" {}) World.shared).1 = .ok () := by
      decide +kernel
    obtain ⟨sourceVolume, src, targetVolume, dst, moving, hsource, htarget, hmoving, hcopy⟩ :=
      hcopies ⟨0⟩ "/b" ⟨1⟩ "/c" _ _ (.copy {}) (Prod.ext hrun rfl)
    have hsrc : World.shared.slotOf ⟨0⟩ "/b" = .ok (⟨{}, [⟨0⟩], 1, 1⟩,
        ⟨⟨0⟩, ⟨0⟩, [⟨0⟩], ⟨0, "/", [], true⟩, "b"⟩) := by decide +kernel
    have hdst : World.shared.slotOf ⟨1⟩ "/c" = .ok (⟨{}, [⟨1⟩], 0, 1⟩,
        ⟨⟨1⟩, ⟨1⟩, [⟨1⟩], ⟨0, "/", [], true⟩, "c"⟩) := by decide +kernel
    obtain ⟨rfl, rfl⟩ := Prod.mk.inj (Except.ok.inj (hsrc.symm.trans hsource))
    obtain ⟨rfl, rfl⟩ := Prod.mk.inj (Except.ok.inj (hdst.symm.trans htarget))
    have hbound : World.shared.bound? ⟨{}, [⟨0⟩], 1, 1⟩ ⟨⟨0⟩, ⟨0⟩, [⟨0⟩], ⟨0, "/", [], true⟩, "b"⟩ =
        some ⟨"b", "b", .file, ⟨3⟩⟩ := by decide +kernel
    have hfree : World.shared.bound? ⟨{}, [⟨1⟩], 0, 1⟩
        ⟨⟨1⟩, ⟨1⟩, [⟨1⟩], ⟨0, "/", [], true⟩, "c"⟩ = none := by decide +kernel
    obtain rfl := Option.some.inj (hbound.symm.trans hmoving)
    exact hcopy rfl fun existing hexisting => nomatch hfree.symm.trans hexisting

end RamFs
