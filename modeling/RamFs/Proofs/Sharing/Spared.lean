import RamFs.Proofs.Sharing.Edits

/-!
What calls leave alone. A call writes into one inode at most: that of the handle it writes through
or of the file that it cuts. Every other inode holds what it held, whether the call succeeds or
fails, and since files keep their inodes, every other file shows what it showed.
-/

namespace RamFs

open RamFs.Action

variable {world after : World} {inode : InodeId} {store : BlockStore}

/-! ### Stores -/

theorem stores_lasting (inode : InodeId) (store : BlockStore) :
    Lasting fun world => world.stores[inode.index]? = some store where
  attributes h _ := h
  file h _ _ := h
  directory h _ _ _ := h
  inode h hchange := (World.stores_modifyInode_same hchange).symm ▸ h
  volume h _ := h
  handle h _ := h
  new_entry h _ := h
  new_inode := by
    intro world new h
    have hstores : (world.addInode new).2.stores = world.stores.push new.store := Array.map_push
    have hlt := (Array.getElem?_eq_some_iff.1 h).1
    rw [hstores, Array.getElem?_push, if_neg (Nat.ne_of_lt hlt)]
    exact h
  new_volume h _ := h
  new_handle h _ := h
  clock h := h

/-- The world is tidy, and the inode holds the store. -/
def World.Spared (inode : InodeId) (store : BlockStore) (world : World) : Prop :=
  world.Tidy ∧ world.stores[inode.index]? = some store

theorem durable_spared (inode : InodeId) (store : BlockStore) :
    Durable (World.Spared inode store) :=
  durable_tidy.and (stores_lasting inode store)

instance quiet_stores : Quiet World.stores where
  times _ := rfl
  cursors _ := rfl
  locks := by
    intro world id stored locks hstored
    have hset : (world.modifyInode id fun _ => { stored with locks }).stores =
        world.stores.modify id.index fun _ => stored.store :=
      World.stores_modifyInode (fun _ => stored.store) fun _ => rfl
    rw [hset]
    apply Array.ext_getElem?
    intro i
    rw [Array.getElem?_modify]
    split
    case isTrue hi => rw [← hi, World.stores_eq_some.2 ⟨stored, hstored, rfl⟩]; rfl
    case isFalse => rfl

/-! ### Through handles -/

/-- The inode holds the store, and a handle is on another one. -/
structure World.Apart (world : World) (id : HandleId) (inode : InodeId) (store : BlockStore) :
    Prop where
  stores : world.stores[inode.index]? = some store
  apart : ∀ held, world.handle id = .ok held → held.inode ≠ inode

namespace HandleId

variable {id other : HandleId} {held : Handle}

theorem checked_apart {check : Handle → Except Failure Unit} :
    Maintains (fun world => world.Apart id inode store) (id.checked check)
      fun found => found.1.inode ≠ inode := by
  unfold checked
  refine (maintains_ask fun world held h hheld => h.apart held hheld).bind fun held hapart => ?_
  refine (maintains_lift fun _ _ => trivial).bind fun _ _ => ?_
  exact (maintains_ask fun _ _ _ _ => trivial).bind fun _ _ => maintains_pure hapart

theorem setInode_apart {new : Inode} (hapart : held.inode ≠ inode) :
    Maintains (fun world => world.Apart id inode store) (held.setInode new) := by
  refine maintains_modify fun world h => ⟨?_, h.apart⟩
  have hstores : (world.modifyInode held.inode fun _ => new).stores =
      world.stores.modify held.inode.index fun _ => new.store :=
    World.stores_modifyInode (fun _ => new.store) fun _ => rfl
  rw [hstores, Array.getElem?_modify, if_neg fun hindex => hapart (congrArg InodeId.mk hindex)]
  exact h.stores

theorem setCursor_apart {position : Nat} :
    Maintains (fun world => world.Apart id inode store) (other.setCursor position) := by
  refine maintains_modify fun world h => ⟨h.stores, fun held hheld => ?_⟩
  rw [World.handle_modifyHandle] at hheld
  cases hknown : world.handle id with
  | error failure =>
      rw [hknown] at hheld
      cases hheld
  | ok known =>
      rw [hknown] at hheld
      have hsame : held.inode = known.inode := by
        rw [← Except.ok.inj hheld]
        dsimp only
        split <;> rfl
      rw [hsame]
      exact h.apart known hknown

theorem stamp_apart {change : Entry → Time → Entry} :
    Maintains (fun world => world.Apart id inode store) (held.stamp change) :=
  (maintains_ask fun _ _ _ _ => trivial).bind fun _ _ =>
    maintains_modify fun _ h => ⟨h.stores, h.apart⟩

theorem writeAt_apart (offset : Nat) (bytes : Bytes) :
    Maintains (fun world => world.Apart id inode store) (id.writeAt offset bytes) :=
  checked_apart.bind fun _ hapart => (maintains_lift fun _ _ => trivial).bind fun _ _ =>
    (setInode_apart hapart).bind fun _ _ => stamp_apart

theorem write_apart (bytes : Bytes) :
    Maintains (fun world => world.Apart id inode store) (id.write bytes) :=
  checked_apart.bind fun _ hapart => (maintains_lift fun _ _ => trivial).bind fun _ _ =>
    (setInode_apart hapart).bind fun _ _ => setCursor_apart.bind fun _ _ => stamp_apart

theorem writeAll_apart (bytes : Bytes) :
    Maintains (fun world => world.Apart id inode store) (id.writeAll bytes) := by
  unfold writeAll
  split
  case isTrue => exact maintains_pure trivial
  case isFalse => exact write_apart bytes

theorem truncate_apart (size : Nat) :
    Maintains (fun world => world.Apart id inode store) (id.truncate size) :=
  checked_apart.bind fun _ hapart => (setInode_apart hapart).bind fun _ _ =>
    setCursor_apart.bind fun _ _ => stamp_apart

theorem transferFrom_apart (offset count : Nat) (source : Source) :
    ∀ world : World, world.Apart id inode store →
      (id.transferFrom offset count source world).2.Apart id inode store := by
  unfold transferFrom
  refine checked_apart.run_bind fun outcome hfound => ?_
  split
  case h_1 => exact fun _ h => h
  case h_2 held stored =>
    refine (setInode_apart (hfound _ rfl)).run_bind fun _ _ => ?_
    cases (stored.store.transferFrom offset count source).result with
    | error failure => exact fun _ h => h
    | ok moved =>
        dsimp only
        split
        case isTrue => exact stamp_apart.run_bind fun _ _ _ h => h
        case isFalse => exact fun _ h => h

theorem transferToHandle_apart (offset count : Nat) :
    Maintains (fun world => world.Apart other inode store)
      (id.transferToHandle offset count other) := by
  have hchecked : Maintains (fun world => world.Apart other inode store)
      (id.checked Handle.checkReadable) :=
    (maintains_ask fun _ _ _ _ => trivial).bind fun _ _ =>
      (maintains_lift fun _ _ => trivial).bind fun _ _ =>
        (maintains_ask fun _ _ _ _ => trivial).bind fun _ _ => maintains_pure trivial
  have houtgoing : Maintains (fun world => world.Apart other inode store)
      (id.outgoing offset count) := hchecked.bind fun _ _ => maintains_pure trivial
  refine houtgoing.bind fun _ _ => ?_
  refine (Maintains.forM (fun piece => (write_apart piece).throughStream) _).bind fun _ _ => ?_
  exact stamp_apart.bind fun _ _ => maintains_pure trivial

theorem consumed_apart (before rest : Source) :
    Maintains (fun world => world.Apart id inode store) (other.consumed before rest) := by
  unfold consumed
  refine (maintains_ask fun _ _ _ _ => trivial).bind fun _ _ => ?_
  split
  case h_1 => exact maintains_pure trivial
  case h_2 =>
    split
    case isTrue => exact setCursor_apart.bind fun _ _ => stamp_apart
    case isFalse => exact maintains_pure trivial

theorem transferFromHandle_apart (offset count : Nat) (other : HandleId) :
    Maintains (fun world => world.Apart id inode store)
      (id.transferFromHandle offset count other) := by
  unfold transferFromHandle
  refine maintains_get_bind fun world => ?_
  refine (maintains_liftState (transferFrom_apart offset count _)).bind fun _ _ => ?_
  exact (consumed_apart _ _).bind fun _ _ => maintains_lift fun _ _ => trivial

end HandleId

/-- The handle that the call writes through, if it does. -/
def HandleCall.writer? (id : HandleId) : HandleCall → Option HandleId
  | write _ | writeAt _ _ | writeAll _ | truncate _ | transferFrom _ _ _
  | transferFromHandle _ _ _ => some id
  | transferToHandle _ _ other => some other
  | _ => none

/-- What no handle writes to that the call writes through keeps its contents. -/
theorem HandleCall.spares {id : HandleId} {call : HandleCall} (h : world.Spared inode store)
    (hapart : ∀ writer held, call.writer? id = some writer → world.handle writer = .ok held →
      held.inode ≠ inode) : (call.perform id world).Spared inode store := by
  by_cases hclose : call = .close
  · subst hclose
    exact ((durable_spared inode store).close world h).1
  refine ⟨h.1.of_signs (perform_keeps id hclose), ?_⟩
  have hwriter : ∀ writer, call.writer? id = some writer → world.Apart writer inode store :=
    fun writer hwriter => ⟨h.2, fun held => hapart writer held hwriter⟩
  have hreads : (call.perform id world).stores = world.stores →
      (call.perform id world).stores[inode.index]? = some store := fun hsame => hsame ▸ h.2
  cases call with
  | write bytes => exact (HandleId.write_apart bytes world (hwriter id rfl)).1.stores
  | writeAt offset bytes => exact (HandleId.writeAt_apart offset bytes world (hwriter id rfl)).1.stores
  | writeAll bytes => exact (HandleId.writeAll_apart bytes world (hwriter id rfl)).1.stores
  | truncate size => exact (HandleId.truncate_apart size world (hwriter id rfl)).1.stores
  | transferFrom offset count source =>
      exact (HandleId.transferFrom_apart offset count source world (hwriter id rfl)).stores
  | transferToHandle offset count other =>
      exact (HandleId.transferToHandle_apart offset count world (hwriter other rfl)).1.stores
  | transferFromHandle offset count other =>
      exact (HandleId.transferFromHandle_apart offset count other world (hwriter id rfl)).1.stores
  | read count => exact hreads (id.read_keeps count world)
  | readAt offset count => exact hreads (id.readAt_keeps offset count world)
  | readToEnd => exact hreads (id.readToEnd_keeps world)
  | setPosition position => exact hreads (id.setPosition_keeps position world)
  | seek origin distance => exact hreads (id.seek_keeps origin distance world)
  | size => exact hreads (id.size_keeps world)
  | sync => exact hreads (id.sync_keeps world)
  | metadata => exact hreads (id.metadata_keeps world)
  | lock offset length cancelled => exact hreads (id.lock_keeps offset length cancelled world)
  | transferTo offset count sink => exact hreads (id.transferTo_keeps offset count sink world)
  | close => exact absurd rfl hclose

/-! ### Opening -/

/-- The inode of the file that opening a path finds. -/
def World.opened? (world : World) (id : VolumeId) (text : String) (options : OpenOptions) :
    Option InodeId :=
  let target := do
    let volume ← world.volume id
    let path ← volume.parse text
    (world.openTrail volume path options).outcome
  match target with
  | .ok (.existing entry _) => world.inodeOf? entry
  | _ => none

namespace VolumeId

variable {id : VolumeId} {text : String} {options : OpenOptions}

/-- Where a file is cut that is opened, the handle is on that file, and any other keeps its
contents. -/
theorem openFile_cuts (hn : world.namespace.Sound) (h : world.Spared inode store)
    (hcuts : (options.truncate && options.write) = true)
    (hother : world.opened? id text options ≠ some inode) {handle : HandleId}
    (hrun : id.openFile text options world = (.ok handle, after)) :
    after.Spared inode store ∧ after.Apart handle inode store := by
  obtain ⟨opening, htakes, hmake, -, hfresh⟩ :=
    (openFile_makes hn id text options).post_of_ok hrun
  have htaken : (world.modifyVolume id Volume.takePlace).Spared inode store :=
    (durable_spared inode store).volume h fun _ => ⟨rfl, rfl⟩
  have hnode : (world.modifyVolume id Volume.takePlace).namespace.node? = world.namespace.node? :=
    congrArg Namespace.node? (namespace_takePlace id world)
  have hmade : opening.made.Spared inode store := by
    have hlies := htaken.1.openTrail_lies (h.1.grounded htakes.volume)
      (Path.parse_isName htakes.parsed) htakes.found
    exact ((durable_spared inode store).entryToOpen hlies).after htaken hmake
  have hapart : opening.file.inode ≠ inode := by
    rintro rfl
    cases htarget : opening.target with
    | vacant directory path =>
        have hlt := (Array.getElem?_eq_some_iff.1 h.2).1
        rw [hfresh directory path htarget] at hlt
        exact absurd hlt (by rw [World.stores, Array.size_map]; exact Nat.lt_irrefl _)
    | existing entry path =>
        have hyields := htakes.yields
        rw [htarget] at hyields
        obtain ⟨hentry, _, hsame⟩ := hyields
        apply hother
        have hfound := htakes.found
        rw [World.openTrail_congr hnode, htarget] at hfound
        unfold World.opened?
        dsimp only
        rw [htakes.volume, ok_bind, htakes.parsed, ok_bind, hfound]
        have hfile := htakes.node
        rw [hsame, hnode, hentry] at hfile
        exact World.inodeOf?_eq_some.2 ⟨_, hfile, rfl⟩
  have hstores : after.stores[inode.index]? = some store := by
    rw [htakes.opens.stores, if_pos hcuts, Array.getElem?_modify,
      if_neg fun hindex => hapart (congrArg InodeId.mk hindex)]
    exact hmade.2
  have htidy := (durable_tidy.openFile fun _ => cuts_tidy).after h.1 hrun
  refine ⟨⟨htidy, hstores⟩, hstores, fun held hheld => ?_⟩
  rw [← Except.ok.inj (htakes.opens.handle.symm.trans hheld)]
  exact hapart

/-- Opening spares every file that it does not cut. -/
theorem openFile_spares (hn : world.namespace.Sound) (h : world.Spared inode store)
    (hother : (options.truncate && options.write) = true →
      world.opened? id text options ≠ some inode) :
    (id.openFile text options world).2.Spared inode store := by
  by_cases hcuts : (options.truncate && options.write) = true
  · rcases hrun : id.openFile text options world with ⟨failure | handle, after⟩
    · rw [(openFile_transacts hn id text options).unchanged hrun]
      exact h
    · exact (openFile_cuts hn h hcuts (hother hcuts) hrun).1
  · exact ((durable_spared inode store).openFile (fun h => absurd h hcuts) world h).1

theorem writeAll_spares {contents : Bytes} (hn : world.namespace.Sound)
    (h : world.Spared inode store)
    (hother : world.opened? id text { OpenOptions.creating with truncate := true } ≠ some inode) :
    (id.writeAll text contents world).2.Spared inode store := by
  rw [writeAll_eq]
  unfold session
  have hopened := openFile_spares hn h fun _ => hother
  rw [bind_apply]
  rcases hrun : id.openFile text { OpenOptions.creating with truncate := true } world with
    ⟨failure | handle, opened⟩
  · rw [hrun] at hopened
    exact hopened
  obtain ⟨hspared, hapart⟩ := openFile_cuts hn h rfl hother hrun
  have hworked : ((handle.writeAll contents).throughStream.attempt opened).2.Spared inode store :=
    ⟨hspared.1.of_signs (handle.writeAll_keeps contents opened),
      (HandleId.writeAll_apart contents opened hapart).1.stores⟩
  have hclosed : ∀ outcome : Except Failure Unit, Maintains (World.Spared inode store) (do
      handle.close
      outcome : Action Unit) :=
    fun _ => (durable_spared inode store).close.bind fun _ _ => maintains_lift fun _ _ => trivial
  exact (hclosed _ _ hworked).1

/-- A file that is truncated by path is the one that the path leads to. -/
theorem truncate_spares {size : Nat} (hn : world.namespace.Sound) (h : world.Spared inode store)
    (hother : ∀ volume visit, world.visit id text true = .ok (volume, visit) →
      world.inodeOf? visit.entry ≠ some inode) :
    (id.truncate text size world).2.Spared inode store := by
  rcases hrun : id.truncate text size world with ⟨failure | _, after⟩
  · rw [(truncate_transacts hn id text size).unchanged hrun]
    exact h
  · obtain ⟨volume, visit, cut, stored, hvisit, hinode, _, store', hrewrites, _⟩ :=
      truncate_revises hn hrun
    have hapart : inode ≠ cut := by
      rintro rfl
      exact hother volume visit hvisit hinode
    have hstore : after.stores[inode.index]? = world.stores[inode.index]? :=
      hrewrites.others fun hindex => hapart (congrArg InodeId.mk hindex)
    exact ⟨(durable_tidy.truncate cuts_tidy).after h.1 hrun, hstore.trans h.2⟩

end VolumeId

/-! ### Every call -/

/-- The inode that the call may write into, in the world it is made in. -/
def Call.written? (world : World) : Call → Option InodeId
  | onHandle id call => (call.writer? id).bind fun writer =>
    match world.handle writer with
    | .ok held => some held.inode
    | .error _ => none
  | onPath id (.truncate path _) =>
    match world.visit id path true with
    | .ok (_, visit) => world.inodeOf? visit.entry
    | .error _ => none
  | onPath id (.openFile path options) =>
    if options.truncate && options.write then world.opened? id path options else none
  | writeAll id path _ => world.opened? id path { OpenOptions.creating with truncate := true }
  | _ => none

theorem Call.spares {call : Call} (hn : world.namespace.Sound) (h : world.Spared inode store)
    (hother : call.written? world ≠ some inode) : (call.perform world).Spared inode store := by
  have hdurable := durable_spared inode store
  cases call with
  | setClock now => exact hdurable.clock h
  | newVolume config => exact (hdurable.newVolume world h).1
  | share id => exact hdurable.volume h fun _ => ⟨rfl, rfl⟩
  | drop id => exact hdurable.volume h fun _ => ⟨rfl, rfl⟩
  | releaseLock grant => exact (hdurable.releaseLock grant world h).1
  | readAll id path =>
      have hwork : ∀ handle : HandleId,
          Maintains (World.Spared inode store) handle.readToEnd.throughStream := by
        refine fun handle => maintains_of fun world h => ⟨?_, ?_⟩
        · exact h.1.of_signs (handle.readToEnd_keeps world)
        · exact (congrArg (·[inode.index]?) (handle.readToEnd_keeps world)).trans h.2
      refine (hdurable.session (fun hcuts => ?_) hwork world h).1
      cases hcuts
  | writeAll id path contents => exact VolumeId.writeAll_spares hn h hother
  | onHandle id call =>
      refine call.spares h fun writer held hwriter hheld hsame => hother ?_
      change (call.writer? id).bind _ = _
      rw [hwriter, Option.bind_some, hheld]
      exact congrArg some hsame
  | onPath id call =>
      cases call with
      | truncate path size =>
          refine VolumeId.truncate_spares hn h fun volume visit hvisit hsame => hother ?_
          change (match world.visit id path true with
            | .ok (_, visit) => world.inodeOf? visit.entry
            | .error _ => none) = _
          rw [hvisit]
          exact hsame
      | openFile path options =>
          have hopened : (id.openFile path options world).2.Spared inode store :=
            VolumeId.openFile_spares hn h fun hcuts hsame => hother ((if_pos hcuts).trans hsame)
          rwa [← bind_pure_world _ fun _ => ()] at hopened
      | _ =>
          refine (hdurable.act id _ (fun hcuts => ?_) world h).1
          cases hcuts

/-- What a file shows stays, but for calls that may write into its inode. -/
theorem World.Shows.perform {entry : EntryId} {bytes : Bytes} {call : Call}
    (h : world.Shows entry inode bytes) (hn : world.namespace.Sound) (htidy : world.Tidy)
    (hother : call.written? world ≠ some inode) : (call.perform world).Shows entry inode bytes := by
  obtain ⟨hinode, store, hstore, hbytes⟩ := shows_iff.1 h
  exact shows_iff.2 ⟨htidy.inodeOf_perform hinode call, store,
    (call.spares hn ⟨htidy, hstore⟩ hother).2, hbytes⟩

end RamFs
