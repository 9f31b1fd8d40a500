import RamFs.Proofs.Contents.Receiving
import RamFs.Proofs.Sessions.Opened
import RamFs.Proofs.Sharing.Spared

/-!
Changes and the times that show them. Whatever puts other bytes into a file stamps the entry that it
goes through with the time of the moment: calls through handles last of all, after everything in
them that can fail. The exception is a transfer that ends at a failure of its source. Its bytes
stay, and it stamps nothing.
-/

namespace RamFs

open RamFs.Action

variable {world middle after : World} {id other : HandleId} {held : Handle} {volume : Volume}
  {inode : InodeId} {entry : EntryId} {now : Time}

/-! ### What stays when bytes change -/

/-- What reading and writing through handles leave alone. -/
structure Frame where
  clock : Time
  volumes : Array Volume
  /-- The handles, without their cursors and locks. -/
  handle : HandleId → Except Failure Handle
  /-- The entries, without their times. -/
  entry : EntryId → Except Failure Entry

namespace World

def frame (world : World) : Frame where
  clock := world.clock
  volumes := world.volumes
  handle id := (world.handle id).map fun held => { held with position := 0, locks := [] }
  entry id := (world.entry id).map fun found => { found with times := .at 0 }

instance blind_frame : Blind frame where
  times := by
    intro world id change h
    have hentry : ∀ other, (world.modifyEntry id change).frame.entry other =
        world.frame.entry other := by
      intro other
      simp only [frame, entry_modifyEntry]
      cases world.entry other with
      | error failure => rfl
      | ok found =>
          simp only [Except.map]
          split
          · exact congrArg (fun entry : Entry => Except.ok { entry with times := .at 0 }) (h found)
          · rfl
    exact congrArg (Frame.mk _ _ _) (funext hentry)
  cursors := by
    intro world id change h
    have hhandle : ∀ other, (world.modifyHandle id change).frame.handle other =
        world.frame.handle other := by
      intro other
      simp only [frame, handle_modifyHandle]
      cases world.handle other with
      | error failure => rfl
      | ok held =>
          simp only [Except.map]
          split
          · exact congrArg (fun handle : Handle =>
              Except.ok { handle with position := 0, locks := [] }) (h held)
          · rfl
    exact congrArg (fun handle => Frame.mk _ _ handle _) (funext hhandle)
  locks _ := rfl
  contents _ := rfl

theorem volume_of_frame (h : after.frame = world.frame) (id : VolumeId) :
    after.volume id = world.volume id := by
  unfold World.volume
  rw [show after.volumes = world.volumes from congrArg Frame.volumes h]

theorem now_of_frame (h : after.frame = world.frame) (volume : Volume) :
    after.now volume = world.now volume :=
  congrArg volume.config.resolution.truncate (congrArg Frame.clock h)

theorem handle_of_frame (h : after.frame = world.frame) (hheld : after.handle id = .ok held) :
    ∃ position locks, world.handle id = .ok { held with position, locks } := by
  have hsame := congrFun (congrArg Frame.handle h) id
  simp only [frame, hheld] at hsame
  cases hknown : world.handle id with
  | error failure =>
      rw [hknown] at hsame
      cases hsame
  | ok known =>
      rw [hknown] at hsame
      refine ⟨known.position, known.locks, congrArg Except.ok ?_⟩
      obtain ⟨⟩ := known
      obtain ⟨⟩ := held
      simpa using (Except.ok.inj hsame).symm

theorem entry_of_frame {found : Entry} (h : after.frame = world.frame)
    (hfound : after.entry entry = .ok found) :
    ∃ times, world.entry entry = .ok { found with times } := by
  have hsame := congrFun (congrArg Frame.entry h) entry
  simp only [frame, hfound] at hsame
  cases hknown : world.entry entry with
  | error failure =>
      rw [hknown] at hsame
      cases hsame
  | ok known =>
      rw [hknown] at hsame
      refine ⟨known.times, congrArg Except.ok ?_⟩
      obtain ⟨⟩ := known
      obtain ⟨⟩ := found
      simpa using (Except.ok.inj hsame).symm

/-! ### Stamps -/

/-- The entry says that it was last changed and last read at the time. -/
def Stamped (world : World) (entry : EntryId) (now : Time) : Prop :=
  ∃ found, world.entry entry = .ok found ∧ found.times.modified = now ∧ found.times.accessed = now

/-- An entry that is stamped already may be read at that time once more. -/
theorem Stamped.touchAccessed {later : Time} (h : world.Stamped entry now) {other : EntryId}
    (hsame : other = entry → later = now) :
    (world.modifyEntry other (·.touchAccessed later)).Stamped entry now := by
  obtain ⟨found, hfound, hmodified, haccessed⟩ := h
  by_cases hother : other = entry
  · subst hother
    exact ⟨_, entry_modifyEntry_self hfound _, hmodified, hsame rfl⟩
  · exact ⟨found, (entry_modifyEntry_of_ne (Ne.symm hother) _).trans hfound, hmodified, haccessed⟩

theorem stamped_touchModified {found : Entry} (hfound : world.entry entry = .ok found) (now : Time) :
    (world.modifyEntry entry (·.touchModified now)).Stamped entry now :=
  ⟨_, entry_modifyEntry_self hfound _, rfl, rfl⟩

/-- From one world to another in which the file of a handle holds what it held, or was written while
the handle was open and has its entry stamped. -/
structure Dates (world : World) (held : Handle) (now : Time) (after : World) : Prop where
  frame : after.frame = world.frame
  dated : after.flat? held.inode = world.flat? held.inode ∨
    held.isOpen = true ∧ after.Stamped held.entry now

theorem Dates.refl : world.Dates held now world :=
  ⟨rfl, .inl rfl⟩

end World

/-- The handle is known, and so are its volume and its entry. -/
structure Handle.Stands (held : Handle) (id : HandleId) (volume : Volume) (world : World) :
    Prop where
  handle : world.handle id = .ok held
  volume : world.volume held.volume = .ok volume
  entry : ∃ found, world.entry held.entry = .ok found

/-- Other open handles on the entry of an open handle are on the same volume. -/
def World.Agreed (world : World) (held : Handle) : Prop :=
  ∀ reader known, world.handle reader = .ok known → known.isOpen = true → held.isOpen = true →
    known.entry = held.entry → known.volume = held.volume

namespace HandleId

/-! ### Writing -/

/-- What follows the check of a handle that may write: it knows the handle. -/
theorem checked_stamps {α : Type} {next : Handle × Inode → Action α}
    (h : held.Stands id volume world)
    (hnext : ∀ stored, Transacts (next (held, stored)) world fun _ after =>
      after.Stamped held.entry (world.now volume)) :
    Transacts (id.checked Handle.checkWritable >>= next) world fun _ after =>
      held.isOpen = true ∧ after.Stamped held.entry (world.now volume) := by
  refine checked_transacts fun handle stored hhandle hcheck _ => ?_
  obtain rfl := Except.ok.inj (h.handle.symm.trans hhandle)
  have hopen := Handle.checkOpen_eq_ok.1 (Handle.checkWritable_open hcheck)
  exact (hnext stored).mono fun _ _ hstamped => ⟨hopen, hstamped⟩

/-- A handle that has written ends in stamping its entry. -/
theorem writeAt_stamps (h : held.Stands id volume world) (offset : Nat) (bytes : Bytes) :
    Transacts (id.writeAt offset bytes) world fun _ after =>
      held.isOpen = true ∧ after.Stamped held.entry (world.now volume) := by
  obtain ⟨found, hfound⟩ := h.entry
  exact checked_stamps h fun stored => transacts_lift_bind fun store _ =>
    .of_ok (Handle.stamp_run _ h.volume) (World.stamped_touchModified hfound _)

theorem write_stamps (h : held.Stands id volume world) (bytes : Bytes) :
    Transacts (id.write bytes) world fun _ after =>
      held.isOpen = true ∧ after.Stamped held.entry (world.now volume) := by
  obtain ⟨found, hfound⟩ := h.entry
  exact checked_stamps h fun stored => transacts_lift_bind fun store _ =>
    .of_ok (Handle.stamp_run _ h.volume) (World.stamped_touchModified hfound _)

theorem truncate_stamps (h : held.Stands id volume world) (size : Nat) :
    Transacts (id.truncate size) world fun _ after =>
      held.isOpen = true ∧ after.Stamped held.entry (world.now volume) := by
  obtain ⟨found, hfound⟩ := h.entry
  exact checked_stamps h fun stored =>
    .of_ok (Handle.stamp_run _ h.volume) (World.stamped_touchModified hfound _)

/-- Within the frame the handle stands as it stood, so a step that changes nothing or stamps its
entry may be made at any time. -/
theorem maintains_dates {α : Type} {action : Action α} (h : held.Stands id volume world)
    (hkeeps : Keeps World.frame action)
    (hstamps : ∀ {known middle}, Handle.Stands known id volume middle →
      Transacts action middle fun _ after =>
        known.isOpen = true ∧ after.Stamped known.entry (middle.now volume)) :
    Maintains (world.Dates held (world.now volume)) action := by
  intro middle hdates
  have hframe := hdates.frame
  obtain ⟨position, locks, hmiddle⟩ := World.handle_of_frame hframe.symm h.handle
  obtain ⟨found, hfound⟩ := h.entry
  obtain ⟨times, hentry⟩ := World.entry_of_frame hframe.symm hfound
  have hknown : Handle.Stands { held with position, locks } id volume middle :=
    ⟨hmiddle, (World.volume_of_frame hframe _).trans h.volume, _, hentry⟩
  refine ⟨⟨(hkeeps middle).trans hframe, ?_⟩, fun _ _ => trivial⟩
  have htransacts := hstamps hknown
  rcases hrun : action middle with ⟨failure | value, after⟩
  · rw [htransacts.unchanged hrun]
    exact hdates.dated
  · have hstamped := htransacts.post_of_ok hrun
    rw [World.now_of_frame hframe] at hstamped
    exact .inr hstamped

theorem write_dates (h : held.Stands id volume world) (bytes : Bytes) :
    Maintains (world.Dates held (world.now volume)) (id.write bytes) :=
  maintains_dates h (id.write_keeps bytes) fun hknown => write_stamps hknown bytes

/-! ### Reading on the side -/

theorem setCursor_dates {position : Nat} :
    Maintains (world.Dates held now) (other.setCursor position) :=
  maintains_modify fun middle h => ⟨(other.setCursor_keeps position middle).trans h.frame, h.dated⟩

/-- Two open handles on one entry are on one volume, so it makes no difference which of them stamps
the entry. -/
theorem touchAccessed_dates {source : Handle} (hvolume : world.volume held.volume = .ok volume)
    (hsame : held.isOpen = true → source.entry = held.entry → source.volume = held.volume) :
    Maintains (world.Dates held (world.now volume)) (source.stamp Entry.touchAccessed) := by
  intro middle h
  refine ⟨⟨(source.touchAccessed_keeps middle).trans h.frame, ?_⟩, fun _ _ => trivial⟩
  unfold Handle.stamp
  rw [bind_apply, ask_apply, World.volume_of_frame h.frame]
  cases hfound : world.volume source.volume with
  | error failure => exact h.dated
  | ok found =>
      refine h.dated.imp (fun hflat => hflat) fun ⟨hopen, hstamped⟩ => ⟨hopen, ?_⟩
      refine hstamped.touchAccessed fun hentry => ?_
      rw [hsame hopen hentry, hvolume] at hfound
      rw [World.now_of_frame h.frame, Except.ok.inj hfound]

theorem ask_dates (hagreed : world.Agreed held) :
    Maintains (world.Dates held now) (Action.ask (·.handle other)) fun known =>
      known.isOpen = true → held.isOpen = true → known.entry = held.entry →
        known.volume = held.volume := by
  refine maintains_ask fun middle known h hfound => ?_
  obtain ⟨position, locks, hbefore⟩ := World.handle_of_frame h.frame hfound
  have hsame := hagreed other _ hbefore
  exact hsame

theorem outgoing_dates (hagreed : world.Agreed held) (offset count : Nat) :
    Maintains (world.Dates held now) (other.outgoing offset count) fun found =>
      held.isOpen = true → found.1.entry = held.entry → found.1.volume = held.volume := by
  unfold outgoing checked
  simp only [bind_assoc, pure_bind]
  refine (ask_dates hagreed).bind fun known hknown => ?_
  have hcheck : Maintains (world.Dates held now) (liftM known.checkReadable : Action Unit)
      fun _ => known.checkReadable = .ok () := maintains_lift fun _ h => h
  refine hcheck.bind fun _ hcheck => (maintains_ask fun _ _ _ _ => trivial).bind fun stored _ => ?_
  exact maintains_pure (hknown (Handle.checkOpen_eq_ok.1 (Handle.checkReadable_open hcheck)))

theorem transferToHandle_dates (h : held.Stands other volume world) (hagreed : world.Agreed held)
    (offset count : Nat) :
    Maintains (world.Dates held (world.now volume)) (id.transferToHandle offset count other) := by
  refine (outgoing_dates hagreed offset count).bind fun (source, pieces) hsame => ?_
  refine (Maintains.forM (fun piece => (write_dates h piece).throughStream) pieces).bind
    fun _ _ => ?_
  exact (touchAccessed_dates h.volume hsame).bind fun _ _ => maintains_pure trivial

theorem consumed_dates (hvolume : world.volume held.volume = .ok volume)
    (hagreed : world.Agreed held) (before rest : Source) :
    Maintains (world.Dates held (world.now volume)) (other.consumed before rest) := by
  unfold consumed
  refine (ask_dates hagreed).bind fun known hknown => ?_
  split
  case h_1 => exact maintains_pure trivial
  case h_2 hcheck =>
    have hopen := Handle.checkOpen_eq_ok.1 (Handle.checkReadable_open hcheck)
    split
    case isTrue =>
      exact setCursor_dates.bind fun _ _ => touchAccessed_dates hvolume (hknown hopen)
    case isFalse => exact maintains_pure trivial

/-! ### Transfers -/

end HandleId

theorem World.Revises.flat? {touched : List EntryId} {stored : Inode} {edit : FlatFile → FlatFile}
    (h : world.Revises touched inode stored edit after) (hvalid : stored.store.Valid) :
    after.flat? inode = some (edit stored.store.flat) := by
  obtain ⟨store, hrewrites, hedit⟩ := h
  have hagrees : Agrees { stored with store } (edit stored.store.flat) :=
    hedit _ ⟨hvalid, rfl, rfl⟩
  unfold World.flat?
  rw [hrewrites.own, Option.map_some]
  exact congrArg some (congrArg₂ FlatFile.mk hagrees.ceiling hagrees.contents)

/-- A transfer that changes a file has taken bytes and reports on them. -/
theorem FlatFile.transferFrom_changed {file : FlatFile} {offset count : Nat} {source : Source}
    (h : (file.transferFrom offset count source).2.1 ≠ file) :
    (source.drain count).taken ≠ [] ∧
      (file.transferFrom offset count source).1 = BlockStore.report (source.drain count) := by
  unfold FlatFile.transferFrom at h ⊢
  split
  case isTrue hpast => exact absurd (by rw [if_pos hpast]) h
  case isFalse hpast =>
    rw [if_neg hpast] at h
    split
    case isFalse hover => exact absurd (by rw [if_neg hover]) h
    case isTrue hfits =>
      refine ⟨fun hnone => h ?_, rfl⟩
      rw [if_pos hfits]
      dsimp only
      rw [hnone, splice_nil]

namespace HandleId

/-- A handle that may write reports what the transfer into its file reports. -/
theorem transferFrom_reports {stored : Inode} (hheld : world.handle id = .ok held)
    (hcheck : held.checkWritable = .ok ()) (hstored : world.inode held.inode = .ok stored)
    (offset count : Nat) (source : Source) :
    (id.transferFrom offset count source world).1.1 =
      (stored.store.transferFrom offset count source).result := by
  have hchecked : (id.checked Handle.checkWritable).run world = (.ok (held, stored), world) :=
    checked_run hheld hcheck hstored
  unfold transferFrom
  rw [stateBind_apply, hchecked]
  dsimp only
  generalize stored.store.transferFrom offset count source = transfer
  rw [stateBind_apply]
  cases transfer.result with
  | error failure => rfl
  | ok moved =>
      dsimp only
      split <;> rfl

/-- A transfer that succeeds and moves bytes ends in stamping the entry of the handle. -/
theorem transferFrom_stamps {stored : Inode} (h : held.Stands id volume world)
    (hcheck : held.checkWritable = .ok ()) (hstored : world.inode held.inode = .ok stored)
    {offset count moved : Nat} {source : Source}
    (hok : (stored.store.transferFrom offset count source).result = .ok moved) (hmoved : 0 < moved) :
    (id.transferFrom offset count source world).2.Stamped held.entry (world.now volume) := by
  obtain ⟨found, hfound⟩ := h.entry
  have hchecked : (id.checked Handle.checkWritable).run world = (.ok (held, stored), world) :=
    checked_run h.handle hcheck hstored
  unfold transferFrom
  rw [stateBind_apply, hchecked]
  dsimp only
  rw [hok, stateBind_apply]
  dsimp only
  rw [if_pos hmoved]
  let filled := world.modifyInode held.inode fun _ =>
    { stored with store := (stored.store.transferFrom offset count source).store }
  have hvolume : filled.volume held.volume = .ok volume := h.volume
  change (held.stamp Entry.touchModified filled).2.Stamped held.entry (filled.now volume)
  rw [Handle.stamp_run _ hvolume]
  exact World.stamped_touchModified hfound _

/-- A transfer either changes nothing, or stamps the entry, or ends at a failure of its source
although it has taken bytes. -/
theorem transferFrom_dates {stored : Inode} (h : held.Stands id volume world)
    (hstored : world.inode held.inode = .ok stored) (hvalid : stored.store.Valid)
    {offset count : Nat} {source : Source}
    (hwhole : ∀ error, (source.drain count).outcome = .error error →
      (source.drain count).taken ≠ [] →
        (id.transferFrom offset count source world).1.1 ≠ .error (.stream error)) :
    world.Dates held (world.now volume) (id.transferFrom offset count source world).2 := by
  refine ⟨id.transferFrom_keeps offset count source world, ?_⟩
  have hflat := (transferFrom_revises h.handle hstored (List.mem_singleton_self held.entry) offset
    count source).flat? hvalid
  rw [hflat, World.flat?_of_inode hstored]
  unfold Handle.edit
  cases hcheck : held.checkWritable with
  | error failure => exact .inl rfl
  | ok _ =>
      by_cases hsame : (stored.store.flat.transferFrom offset count source).2.1 = stored.store.flat
      · exact .inl (congrArg some hsame)
      obtain ⟨htaken, hreport⟩ := FlatFile.transferFrom_changed hsame
      have hresult := ((show Agrees stored stored.store.flat from ⟨hvalid, rfl, rfl⟩).transferFrom
        offset count source).1.trans hreport
      cases hdone : BlockStore.report (source.drain count) with
      | error failure =>
          obtain ⟨error, hended, rfl⟩ := BlockStore.report_eq_error.1 hdone
          have hcall := transferFrom_reports h.handle hcheck hstored offset count source
          exact absurd (hcall.trans (hresult.trans hdone)) (hwhole error hended htaken)
      | ok moved =>
          have hopen := Handle.checkOpen_eq_ok.1 (Handle.checkWritable_open hcheck)
          refine .inr ⟨hopen, transferFrom_stamps h hcheck hstored (hresult.trans hdone) ?_⟩
          rw [(BlockStore.report_eq_ok.1 hdone).1]
          exact List.length_pos_iff.2 htaken

/-- What another open file gives has no failure behind it. -/
theorem drain_asSource (other : HandleId) (world : World) (count : Nat)
    (h : ((other.asSource world).drain count).taken ≠ []) :
    ((other.asSource world).drain count).outcome = .ok () := by
  have hdata : ∀ bytes : Bytes, (Source.drain [.data bytes] count).outcome = .ok () := by
    intro bytes
    rw [Source.outcome_drain]
    unfold Source.obstacle?
    by_cases hflows : (Chunk.data bytes).flows = true
    · rw [List.dropWhile_cons_of_pos hflows]
      exact ite_self _
    · rw [List.dropWhile_cons_of_neg hflows]
      exact ite_self _
  have hfailure : ∀ error : StreamError, (Source.drain [.failure error] count).taken = [] := by
    intro error
    rw [Source.taken_drain]
    by_cases hflows : (Chunk.failure error).flows = true
    · rw [Source.flow_cons [] hflows]
      exact List.take_nil
    · rw [Source.flow_of_not_flows [] hflows]
      exact List.take_nil
  unfold asSource at h ⊢
  split at h
  case h_1 => exact absurd (hfailure _) h
  case h_2 =>
    split at h
    case h_1 | h_3 => exact absurd (hfailure _) h
    case h_2 => exact hdata _

theorem transferFromHandle_dates {stored : Inode} (h : held.Stands id volume world)
    (hagreed : world.Agreed held) (hstored : world.inode held.inode = .ok stored)
    (hvalid : stored.store.Valid) (offset count : Nat) (other : HandleId) :
    world.Dates held (world.now volume) (id.transferFromHandle offset count other world).2 := by
  have hfilled : world.Dates held (world.now volume)
      (id.transferFrom offset count (other.asSource world) world).2 :=
    transferFrom_dates h hstored hvalid fun error hended htaken => by
      cases hended.symm.trans (other.drain_asSource world count htaken)
  unfold transferFromHandle
  rw [bind_ok (get_apply _)]
  have hrest : ∀ (result : Except Failure Nat) (rest : Source),
      Maintains (world.Dates held (world.now volume)) (do
        other.consumed (other.asSource world) rest
        result : Action Nat) := fun _ _ =>
    (consumed_dates h.volume hagreed _ _).bind fun _ _ => maintains_lift fun _ _ => trivial
  exact (hrest _ _ _ hfilled).1

end HandleId

/-! ### Calls through handles -/

theorem Reachable.stands (h : Reachable world) (hheld : world.handle id = .ok held) :
    ∃ volume, held.Stands id volume world := by
  obtain ⟨hinode, volume, hvolume, -⟩ := h.tidy.tracks hheld
  obtain ⟨file, hnode, -⟩ := World.inodeOf?_eq_some.1 hinode
  obtain ⟨found, hfound, -⟩ := World.entry_of_node? hnode
  exact ⟨volume, hheld, hvolume, found, hfound⟩

theorem Reachable.agreed (h : Reachable world) (hheld : world.handle id = .ok held) :
    world.Agreed held := by
  intro reader known hknown hreader hopen hentry
  have hreads := (h.sound.held (World.lease_of_handle hknown hreader)).2
  have hholds := (h.sound.held (World.lease_of_handle hheld hopen)).2
  dsimp only at hreads hholds
  rw [hentry] at hreads
  exact h.sound.inTree_unique hreads hholds

namespace HandleCall

/-- The call takes bytes from a source and ends at a failure of the source. -/
def Breaks (id : HandleId) (world : World) : HandleCall → Prop
  | transferFrom offset count source => (source.drain count).taken ≠ [] ∧
      ∃ error, (id.transferFrom offset count source world).1.1 = .error (.stream error)
  | _ => False

theorem dates {call : HandleCall} {writer : HandleId} (h : Reachable world)
    (hheld : world.handle writer = .ok held) (hwriter : call.writer? id = some writer)
    (hwhole : ¬call.Breaks id world) :
    ∃ volume, world.volume held.volume = .ok volume ∧
      world.Dates held (world.now volume) (call.perform id world) := by
  obtain ⟨volume, hstands⟩ := h.stands hheld
  obtain ⟨stored, hstored, hvalid⟩ := h.file_of_handle hheld
  have hagreed := h.agreed hheld
  refine ⟨volume, hstands.volume, ?_⟩
  cases call with
  | write bytes =>
      cases hwriter
      exact (HandleId.write_dates hstands bytes world .refl).1
  | writeAt offset bytes =>
      cases hwriter
      exact (HandleId.maintains_dates hstands (id.writeAt_keeps offset bytes)
        (fun hknown => HandleId.writeAt_stamps hknown offset bytes) world .refl).1
  | writeAll bytes =>
      cases hwriter
      change world.Dates held _ (id.writeAll bytes world).2
      unfold HandleId.writeAll
      split
      case isTrue => exact .refl
      case isFalse => exact (HandleId.write_dates hstands bytes world .refl).1
  | truncate size =>
      cases hwriter
      exact (HandleId.maintains_dates hstands (id.truncate_keeps size)
        (fun hknown => HandleId.truncate_stamps hknown size) world .refl).1
  | transferFrom offset count source =>
      cases hwriter
      exact HandleId.transferFrom_dates hstands hstored hvalid fun error _ htaken hfailed =>
        hwhole ⟨htaken, error, hfailed⟩
  | transferToHandle offset count other =>
      cases hwriter
      exact (HandleId.transferToHandle_dates hstands hagreed offset count world .refl).1
  | transferFromHandle offset count other =>
      cases hwriter
      exact HandleId.transferFromHandle_dates hstands hagreed hstored hvalid offset count other
  | _ => cases hwriter

/-- The file whose bytes change is that of the handle which the call writes through. -/
theorem stamps {call : HandleCall} {file : FlatFile} (h : Reachable world)
    (hwhole : ¬call.Breaks id world) (hfile : world.flat? inode = some file)
    (hchanged : (call.perform id world).flat? inode ≠ some file) :
    ∃ writer held volume, call.writer? id = some writer ∧ world.handle writer = .ok held ∧
      held.inode = inode ∧ world.volume held.volume = .ok volume ∧
      (call.perform id world).Stamped held.entry (world.now volume) := by
  have hwritten : ∃ writer held, call.writer? id = some writer ∧ world.handle writer = .ok held ∧
      held.inode = inode := by
    by_contra hnone
    obtain ⟨store, hstore, rfl⟩ := Option.map_eq_some_iff.1 hfile
    refine hchanged (Option.map_eq_some_iff.2 ⟨store, (call.spares ⟨h.tidy, hstore⟩ ?_).2, rfl⟩)
    exact fun writer held hwriter hheld hinode => hnone ⟨writer, held, hwriter, hheld, hinode⟩
  obtain ⟨writer, held, hwriter, hheld, rfl⟩ := hwritten
  obtain ⟨volume, hvolume, hdates⟩ := dates h hheld hwriter hwhole
  refine ⟨writer, held, volume, hwriter, hheld, rfl, hvolume, ?_⟩
  rcases hdates.dated with hsame | ⟨-, hstamped⟩
  · exact absurd (hsame.trans hfile) hchanged
  · exact hstamped

end HandleCall

/-! ### By path -/

namespace VolumeId

variable {id : VolumeId} {text : String} {file : FlatFile}

theorem truncate_stamps {size : Nat} (h : Reachable world) (hfile : world.flat? inode = some file)
    (hchanged : (id.truncate text size world).2.flat? inode ≠ some file) :
    ∃ volume visit, world.visit id text true = .ok (volume, visit) ∧
      world.inodeOf? visit.entry = some inode ∧
      (id.truncate text size world).2.Stamped visit.entry (world.now volume) := by
  rcases hrun : id.truncate text size world with ⟨failure | _, after⟩
  · rw [hrun, (truncate_transacts h.sound id text size).unchanged hrun] at hchanged
    exact absurd hfile hchanged
  rw [hrun] at hchanged
  obtain ⟨volume, visit, cut, _, hvisit, hinode, _, store, hrewrites, _⟩ :=
    truncate_revises h.sound hrun
  obtain rfl : inode = cut := by
    by_contra hne
    have hstore : after.stores[inode.index]? = world.stores[inode.index]? :=
      hrewrites.others fun hindex => hne (congrArg InodeId.mk hindex)
    exact hchanged ((congrArg (Option.map BlockStore.flat) hstore).trans hfile)
  refine ⟨volume, visit, hvisit, hinode, ?_⟩
  unfold VolumeId.truncate at hrun
  rw [bind_ask_ok hvisit] at hrun
  obtain ⟨found, hfound, hrun⟩ := asked_of_bind_ok hrun
  obtain ⟨cut, _, hrun⟩ := lifted_of_bind_ok hrun
  have hentry : (world.modifyInode cut.inode (·.truncate size)).entry visit.entry = .ok found :=
    hfound
  rw [bind_ok (modify_apply ..), bind_ok (get_apply _)] at hrun
  cases hrun
  exact World.stamped_touchModified hentry _

theorem openFile_stamps {options : OpenOptions} (h : Reachable world)
    (hfile : world.flat? inode = some file)
    (hchanged : (id.openFile text options world).2.flat? inode ≠ some file) :
    ∃ handle held volume, (id.openFile text options world).1 = .ok handle ∧
      (id.openFile text options world).2.handle handle = .ok held ∧ held.inode = inode ∧
      world.volume id = .ok volume ∧
      (id.openFile text options world).2.Stamped held.entry (world.now volume) := by
  rcases hrun : id.openFile text options world with ⟨failure | handle, after⟩
  · rw [hrun, (openFile_transacts h.sound id text options).unchanged hrun] at hchanged
    exact absurd hfile hchanged
  rw [hrun] at hchanged
  obtain ⟨opening, htakes, hmake, hengage, -⟩ :=
    (id.openFile_makes h.sound text options).post_of_ok hrun
  have hopened := htakes.opened h.sound hmake hengage
  obtain ⟨store, hstore, rfl⟩ := Option.map_eq_some_iff.1 hfile
  obtain ⟨stored, hstored, rfl⟩ := World.stores_eq_some.1 hstore
  have hafter := hopened.inodes hstored
  obtain ⟨hinode, hcuts⟩ : inode = (opening.granted id options).inode ∧ options.cuts = true := by
    by_contra hkept
    rw [if_neg hkept] at hafter
    exact hchanged (World.flat?_of_inode hafter)
  refine ⟨handle, _, opening.volume, rfl, hopened.handle, hinode.symm, htakes.volume, ?_⟩
  rcases hopened.file with ⟨-, hold⟩ | ⟨-, _, _, hnew⟩
  · obtain ⟨found, known, _, _, hentry⟩ := hold.opened
    refine ⟨_, hentry, ?_⟩
    unfold Entry.opened
    rw [if_pos (show (opening.granted id options).options.cuts = true from hcuts)]
    exact ⟨rfl, rfl⟩
  · exact ⟨_, hnew.opened, rfl, rfl⟩

end VolumeId

/-- Every change of bytes is stamped. A call through a handle, a truncation by path and an opening
may succeed or fail; where the bytes of a file are others afterwards, the entry that the call went
through was last changed and last read at the time of the call. The exception is a transfer that has
taken bytes before its source fails. -/
theorem changed_bytes_are_stamped (h : Reachable world) :
    (∀ (id : HandleId) (call : HandleCall) inode file, ¬call.Breaks id world →
      world.flat? inode = some file → (call.perform id world).flat? inode ≠ some file →
      ∃ writer held volume, call.writer? id = some writer ∧ world.handle writer = .ok held ∧
        held.inode = inode ∧ world.volume held.volume = .ok volume ∧
        (call.perform id world).Stamped held.entry (world.now volume)) ∧
    (∀ (id : VolumeId) text size inode file, world.flat? inode = some file →
      (id.truncate text size world).2.flat? inode ≠ some file →
      ∃ volume visit, world.visit id text true = .ok (volume, visit) ∧
        world.inodeOf? visit.entry = some inode ∧
        (id.truncate text size world).2.Stamped visit.entry (world.now volume)) ∧
    ∀ (id : VolumeId) text options inode file, world.flat? inode = some file →
      (id.openFile text options world).2.flat? inode ≠ some file →
      ∃ handle held volume, (id.openFile text options world).1 = .ok handle ∧
        (id.openFile text options world).2.handle handle = .ok held ∧ held.inode = inode ∧
        world.volume id = .ok volume ∧
        (id.openFile text options world).2.Stamped held.entry (world.now volume) :=
  ⟨fun _ _ _ _ hwhole => HandleCall.stamps h hwhole, fun _ _ _ _ _ => VolumeId.truncate_stamps h,
    fun _ _ _ _ _ => VolumeId.openFile_stamps h⟩

/-- A file with one byte in it is open, and time has passed since it was written. -/
def World.outdated : World :=
  List.foldl Call.perform {} [.newVolume {}, .onPath ⟨0⟩ (.openFile "/f" .creating),
    .onHandle ⟨0⟩ (.write [1]), .setClock 9]

/-- A transfer, a truncation and an opening that change the file all stamp it. -/
theorem outdated_file_is_stamped :
    Reachable World.outdated ∧
    ((HandleCall.transferFrom 0 4 [.data [2, 3]]).perform ⟨0⟩ World.outdated).Stamped ⟨1⟩ 9 ∧
    (VolumeId.truncate ⟨0⟩ "/f" 0 World.outdated).2.Stamped ⟨1⟩ 9 ∧
    (VolumeId.openFile ⟨0⟩ "/f" { OpenOptions.creating with truncate := true }
      World.outdated).2.Stamped ⟨1⟩ 9 := by
  have hreach : Reachable World.outdated := Reachable.start.run _
  have hfile : World.outdated.flat? ⟨0⟩ = some ⟨maxBlocks, [1]⟩ := by decide +kernel
  have hheld : World.outdated.handle ⟨0⟩ =
      .ok ⟨⟨0⟩, ⟨1⟩, ⟨0⟩, ⟨0, "/", ["f"], true⟩, .creating, 1, [], true⟩ := by decide +kernel
  have hnow : ∀ {volume}, World.outdated.volume ⟨0⟩ = .ok volume →
      World.outdated.now volume = 9 := by
    intro volume hvolume
    have hclock : (World.outdated.volume ⟨0⟩).map World.outdated.now = .ok 9 := by decide +kernel
    rw [hvolume] at hclock
    exact Except.ok.inj hclock
  obtain ⟨hhandle, hpath, hopen⟩ := changed_bytes_are_stamped hreach
  refine ⟨hreach, ?_, ?_, ?_⟩
  · have hok : (HandleId.transferFrom ⟨0⟩ 0 4 [.data [2, 3]] World.outdated).1.1 = .ok 2 := by
      decide +kernel
    obtain ⟨_, held, _, hwriter, hfound, -, hvolume, hstamped⟩ :=
      hhandle ⟨0⟩ (.transferFrom 0 4 [.data [2, 3]]) ⟨0⟩ _
        (fun ⟨_, _, hfailed⟩ => by cases hok.symm.trans hfailed) hfile (by decide +kernel)
    cases hwriter
    obtain rfl := Except.ok.inj (hheld.symm.trans hfound)
    exact hnow hvolume ▸ hstamped
  · obtain ⟨volume, visit, hvisit, -, hstamped⟩ := hpath ⟨0⟩ "/f" 0 ⟨0⟩ _ hfile (by decide +kernel)
    have hfound : (World.outdated.visit ⟨0⟩ "/f" true).map (fun found =>
        (World.outdated.now found.1, found.2.entry)) = .ok (9, ⟨1⟩) := by decide +kernel
    rw [hvisit] at hfound
    obtain ⟨hclock, hentry⟩ := Prod.mk.inj (Except.ok.inj hfound)
    exact hclock ▸ hentry ▸ hstamped
  · obtain ⟨handle, held, volume, hrun, hfound, -, hvolume, hstamped⟩ :=
      hopen ⟨0⟩ "/f" { OpenOptions.creating with truncate := true } ⟨0⟩ _ hfile (by decide +kernel)
    have hsecond : (VolumeId.openFile ⟨0⟩ "/f" { OpenOptions.creating with truncate := true }
        World.outdated).1 = .ok ⟨1⟩ := by decide +kernel
    obtain rfl := Except.ok.inj (hsecond.symm.trans hrun)
    have hentry : ((VolumeId.openFile ⟨0⟩ "/f" { OpenOptions.creating with truncate := true }
        World.outdated).2.handle ⟨1⟩).map Handle.entry = .ok ⟨1⟩ := by decide +kernel
    rw [hfound] at hentry
    exact hnow hvolume ▸ Except.ok.inj hentry ▸ hstamped

/-- A transfer that fails stamps nothing, whether or not it has stored bytes. -/
theorem HandleId.failed_transfer_keeps_entries {offset count : Nat} {source : Source}
    {failure : Failure} (hfailed : (id.transferFrom offset count source world).1.1 = .error failure) :
    (id.transferFrom offset count source world).2.entries = world.entries := by
  have hchecked : ((id.checked Handle.checkWritable).run world).2.entries = world.entries :=
    id.checked_keeps _ world
  unfold transferFrom at hfailed ⊢
  rw [stateBind_apply] at hfailed ⊢
  rcases hrun : (id.checked Handle.checkWritable).run world with ⟨refusal | ⟨held, stored⟩, middle⟩
  · rw [hrun] at hchecked
    exact hchecked
  rw [hrun] at hfailed hchecked
  dsimp only at hfailed ⊢
  generalize stored.store.transferFrom offset count source = transfer at hfailed ⊢
  rw [stateBind_apply] at hfailed ⊢
  cases hresult : transfer.result with
  | error failure => exact hchecked
  | ok moved =>
      rw [hresult] at hfailed
      dsimp only at hfailed
      split at hfailed <;> cases hfailed

/-- The source gives two bytes and breaks. The file has the bytes, and its times are as they were. -/
theorem broken_transfer_is_not_stamped :
    let source : Source := [.data [2, 3], .failure ⟨.brokenPipe, "gone"⟩]
    let after := (HandleCall.transferFrom 0 4 source).perform ⟨0⟩ World.outdated
    Reachable World.outdated ∧ World.outdated.flat? ⟨0⟩ = some ⟨maxBlocks, [1]⟩ ∧
      after.flat? ⟨0⟩ = some ⟨maxBlocks, [2, 3]⟩ ∧ after.entries = World.outdated.entries ∧
      ¬after.Stamped ⟨1⟩ 9 := by
  intro source after
  have hfailed : (HandleId.transferFrom ⟨0⟩ 0 4 source World.outdated).1.1 =
      .error (.stream ⟨.brokenPipe, "gone"⟩) := by decide +kernel
  refine ⟨Reachable.start.run _, by decide +kernel, by decide +kernel,
    HandleId.failed_transfer_keeps_entries hfailed, ?_⟩
  rintro ⟨found, hfound, hmodified, -⟩
  have hold : (after.entry ⟨1⟩).map (·.times.modified) = .ok 0 := by decide +kernel
  rw [hfound] at hold
  cases hmodified.symm.trans (Except.ok.inj hold)

end RamFs
