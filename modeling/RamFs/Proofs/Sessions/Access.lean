import RamFs.Proofs.Cursors.Asides

/-!
What a handle was opened for. Every call on a handle makes its check before it does anything else,
and a call that is refused fails and leaves everything as it was. So a handle that was not opened to
write changes no byte, one that was not opened to read gives none away, and one that is closed does
nothing, however many calls there are.
-/

namespace RamFs

open RamFs.Action

variable {world after opened : World} {id : HandleId} {held : Handle} {inode : InodeId}
  {file : FlatFile} {call : HandleCall} {failure : Failure}

/-! ### Replies -/

/-- What a call on a handle answers. -/
inductive HandleReply where
  | bytes (result : Except Failure Bytes)
  | done (result : Except Failure Unit)
  | number (result : Except Failure Nat)
  | position (result : Except StreamError Nat)
  | attributes (result : Except Failure Attributes)
  | granted (result : Except Failure Grant)
  /-- With the sink as the transfer left it. -/
  | sent (result : Except Failure Nat) (sink : Sink)
  /-- With what the transfer left of the source. -/
  | taken (result : Except Failure Nat) (rest : Source)

namespace HandleReply

def isFailure : HandleReply → Bool
  | bytes (.error _) | done (.error _) | number (.error _) | position (.error _)
  | attributes (.error _) | granted (.error _) | sent (.error _) _ | taken (.error _) _ => true
  | _ => false

def sink? : HandleReply → Option Sink
  | sent _ sink => some sink
  | _ => none

end HandleReply

namespace HandleCall

def reply (id : HandleId) (world : World) : HandleCall → HandleReply
  | read count => .bytes (id.read count world).1
  | readAt offset count => .bytes (id.readAt offset count world).1
  | readToEnd => .bytes (id.readToEnd world).1
  | write bytes => .done (id.write bytes world).1
  | writeAt offset bytes => .done (id.writeAt offset bytes world).1
  | writeAll bytes => .done (id.writeAll bytes world).1
  | truncate length => .done (id.truncate length world).1
  | setPosition position => .done (id.setPosition position world).1
  | seek origin distance => .position (id.seek origin distance world).1
  | size => .number (id.size world).1
  | sync => .done (id.sync world).1
  | metadata => .attributes (id.metadata world).1
  | lock offset length cancelled => .granted (id.lock offset length cancelled world).1
  | transferTo offset count sink =>
    let (result, sink) := (id.transferTo offset count sink world).1
    .sent result sink
  | transferFrom offset count source =>
    let (result, rest) := (id.transferFrom offset count source world).1
    .taken result rest
  | transferToHandle offset count other => .number (id.transferToHandle offset count other world).1
  | transferFromHandle offset count other =>
    .number (id.transferFromHandle offset count other world).1
  | close => .done (id.close world).1

def sink? : HandleCall → Option Sink
  | transferTo _ _ sink => some sink
  | _ => none

/-! ### Refusals -/

/-- What a call asks of its handle. Closing asks nothing, and neither does writing all of no bytes. -/
def check : HandleCall → Handle → Except Failure Unit
  | read _ | readAt _ _ | readToEnd | transferTo _ _ _ | transferToHandle _ _ _ =>
    Handle.checkReadable
  | write _ | writeAt _ _ | truncate _ | transferFrom _ _ _ | transferFromHandle _ _ _ =>
    Handle.checkWritable
  | writeAll bytes => if bytes.isEmpty then fun _ => .ok () else Handle.checkWritable
  | close => fun _ => .ok ()
  | setPosition _ | seek _ _ | size | sync | metadata | lock _ _ _ => Handle.checkOpen

end HandleCall

namespace HandleId

variable {check : Handle → Except Failure Unit}

theorem checked_bind_refused {α : Type} {next : Handle × Inode → Action α}
    (hheld : world.handle id = .ok held) (hcheck : check held = .error failure) :
    (id.checked check >>= next) world = (.error failure, world) := by
  rw [bind_apply, checked_refused hheld hcheck]

theorem read_refused (hheld : world.handle id = .ok held)
    (hcheck : held.checkReadable = .error failure) (count : Nat) :
    id.read count world = (.error failure, world) := by
  have hread : id.readAt held.position count world = (.error failure, world) :=
    checked_bind_refused hheld hcheck
  unfold read
  rw [bind_ask_ok hheld, bind_apply, hread]

theorem asStream_refused {α : Type} {action : Action α}
    (hrun : action world = (.error failure, world)) :
    action.asStream world = (.error failure.toStreamError, world) := by
  unfold asStream
  rw [hrun]
  rfl

/-- A seek that is not refused for its target is refused for its handle. -/
theorem seek_refused (hheld : world.handle id = .ok held)
    (hcheck : held.checkOpen = .error failure) (origin : SeekOrigin) (distance : Int) :
    ∃ error, id.seek origin distance world = (.error error, world) := by
  have hmove : ∀ position, (id.setPosition position).asStream world =
      (.error failure.toStreamError, world) :=
    fun _ => asStream_refused (checked_bind_refused hheld hcheck)
  have hrest : ∀ base : Nat, ∃ error, (do
      let target := base + distance
      if target < 0 ∨ target > maxOffset then
        throw ⟨.invalidInput, "seek before start of file"⟩
      (id.setPosition target.toNat).asStream
      return target.toNat : StreamAction Nat) world = (.error error, world) := by
    intro base
    dsimp only
    split
    case isTrue => exact ⟨_, rfl⟩
    case isFalse =>
      rw [bind_apply, hmove]
      exact ⟨_, rfl⟩
  unfold seek
  cases origin with
  | start => exact hrest 0
  | current =>
      have hask : (Action.ask (·.handle id)).asStream world = (.ok held, world) := by
        unfold asStream
        rw [ask_apply, hheld]
        rfl
      dsimp only
      rw [bind_apply, hask]
      exact hrest held.position
  | finish =>
      have hsize : id.size.asStream world = (.error failure.toStreamError, world) :=
        asStream_refused (checked_bind_refused hheld hcheck)
      dsimp only
      rw [bind_apply, hsize]
      exact ⟨_, rfl⟩

theorem transferTo_refused (hheld : world.handle id = .ok held)
    (hcheck : held.checkReadable = .error failure) (offset count : Nat) (sink : Sink) :
    id.transferTo offset count sink world = ((.error failure, sink), world) := by
  have hrun : (id.outgoing offset count).run world = (.error failure, world) :=
    checked_bind_refused hheld hcheck
  unfold transferTo
  rw [stateBind_apply, hrun]
  rfl

theorem transferFrom_refused (hheld : world.handle id = .ok held)
    (hcheck : held.checkWritable = .error failure) (offset count : Nat) (source : Source) :
    id.transferFrom offset count source world = ((.error failure, source), world) := by
  have hrun : (id.checked Handle.checkWritable).run world = (.error failure, world) :=
    checked_refused hheld hcheck
  unfold transferFrom
  rw [stateBind_apply, hrun]
  rfl

theorem transferToHandle_refused_reader (hheld : world.handle id = .ok held)
    (hcheck : held.checkReadable = .error failure) (offset count : Nat) (other : HandleId) :
    id.transferToHandle offset count other world = (.error failure, world) := by
  have houtgoing : id.outgoing offset count world = (.error failure, world) :=
    checked_bind_refused hheld hcheck
  unfold transferToHandle
  rw [bind_apply, houtgoing]

/-- Nothing is accounted for where nothing was taken. -/
theorem consumed_same (id : HandleId) (source : Source) (world : World) :
    (id.consumed source source world).2 = world := by
  unfold consumed
  cases hheld : world.handle id with
  | error failure => rw [bind_apply, ask_apply, hheld]
  | ok held =>
      rw [bind_ask_ok hheld]
      cases held.checkReadable with
      | error failure => rfl
      | ok _ =>
          dsimp only
          rw [if_neg (not_not_intro rfl)]
          rfl

/-- The handle at the other end may be the one that is not there. -/
theorem transferFromHandle_refused (hheld : world.handle id = .ok held)
    (hcheck : held.checkWritable = .error failure) (offset count : Nat) (other : HandleId) :
    ∃ failure, id.transferFromHandle offset count other world = (.error failure, world) := by
  have hfill : (liftM (id.transferFrom offset count (other.asSource world)) :
      Action (Except Failure Nat × Source)) world =
        (.ok (.error failure, other.asSource world), world) :=
    congrArg (fun run : (Except Failure Nat × Source) × World => (Except.ok run.1, run.2))
      (transferFrom_refused hheld hcheck offset count _)
  have hsame := other.consumed_same (other.asSource world) world
  unfold transferFromHandle
  rw [bind_ok (get_apply _)]
  dsimp only
  rw [bind_ok hfill]
  dsimp only
  rw [bind_apply]
  rcases hrest : other.consumed (other.asSource world) (other.asSource world) world with
    ⟨refusal | _, rest⟩
  · rw [hrest] at hsame
    exact ⟨refusal, Prod.ext rfl hsame⟩
  · rw [hrest] at hsame
    exact ⟨failure, Prod.ext rfl hsame⟩

end HandleId

/-- A call that ran into a failure changes nothing, and its reply says so. -/
theorem HandleReply.of_failed {α : Type} {action : Action α}
    (wrap : Except Failure α → HandleReply)
    (hwrap : (wrap (.error failure)).isFailure = true ∧ (wrap (.error failure)).sink? = none)
    (hrun : action world = (.error failure, world)) :
    (action world).2 = world ∧ (wrap (action world).1).isFailure = true ∧
      (wrap (action world).1).sink? = none := by
  rw [hrun]
  exact ⟨rfl, hwrap⟩

/-- A call that is refused fails and changes nothing, and a sink is handed back as it was. -/
theorem HandleCall.refused (hheld : world.handle id = .ok held)
    (hcheck : call.check held = .error failure) :
    call.perform id world = world ∧ (call.reply id world).isFailure = true ∧
      (call.reply id world).sink? = call.sink? := by
  cases call with
  | read count =>
      exact HandleReply.of_failed .bytes ⟨rfl, rfl⟩ (HandleId.read_refused hheld hcheck count)
  | readAt | readToEnd =>
      exact HandleReply.of_failed .bytes ⟨rfl, rfl⟩ (HandleId.checked_bind_refused hheld hcheck)
  | write | writeAt | truncate | setPosition | sync =>
      exact HandleReply.of_failed .done ⟨rfl, rfl⟩ (HandleId.checked_bind_refused hheld hcheck)
  | writeAll bytes =>
      have hrun : id.writeAll bytes world = (.error failure, world) := by
        simp only [check] at hcheck
        unfold HandleId.writeAll
        by_cases hempty : bytes.isEmpty
        · rw [if_pos hempty] at hcheck
          cases hcheck
        · rw [if_neg hempty] at hcheck ⊢
          exact HandleId.checked_bind_refused hheld hcheck
      exact HandleReply.of_failed .done ⟨rfl, rfl⟩ hrun
  | seek origin distance =>
      obtain ⟨error, hrun⟩ := HandleId.seek_refused hheld hcheck origin distance
      simp only [perform, reply, hrun]
      exact ⟨trivial, rfl, rfl⟩
  | size =>
      exact HandleReply.of_failed .number ⟨rfl, rfl⟩ (HandleId.checked_bind_refused hheld hcheck)
  | metadata =>
      exact HandleReply.of_failed .attributes ⟨rfl, rfl⟩ (HandleId.checked_bind_refused hheld hcheck)
  | lock =>
      exact HandleReply.of_failed .granted ⟨rfl, rfl⟩ (HandleId.checked_bind_refused hheld hcheck)
  | transferTo offset count sink =>
      simp only [perform, reply, HandleId.transferTo_refused hheld hcheck]
      exact ⟨trivial, rfl, rfl⟩
  | transferFrom offset count source =>
      simp only [perform, reply, HandleId.transferFrom_refused hheld hcheck]
      exact ⟨trivial, rfl, rfl⟩
  | transferToHandle offset count other =>
      exact HandleReply.of_failed .number ⟨rfl, rfl⟩
        (HandleId.transferToHandle_refused_reader hheld hcheck offset count other)
  | transferFromHandle offset count other =>
      obtain ⟨_, hrun⟩ := HandleId.transferFromHandle_refused hheld hcheck offset count other
      exact HandleReply.of_failed .number ⟨rfl, rfl⟩ hrun
  | close => cases hcheck

/-! ### Closed handles -/

namespace HandleCall

theorem check_closed (hclosed : held.isOpen = false) (hclose : call ≠ .close)
    (hempty : call ≠ .writeAll []) : call.check held = .error .closed := by
  have hopen : held.checkOpen = .error .closed := by
    unfold Handle.checkOpen
    rw [hclosed]
    rfl
  have hreadable : held.checkReadable = .error .closed := by
    unfold Handle.checkReadable
    rw [hopen]
    rfl
  have hwritable : held.checkWritable = .error .closed := by
    unfold Handle.checkWritable
    rw [hopen]
    rfl
  cases call with
  | close => exact absurd rfl hclose
  | writeAll bytes =>
      have hsome : ¬bytes.isEmpty = true := fun hnone =>
        hempty (congrArg writeAll (List.isEmpty_iff.1 hnone))
      simp only [check]
      rw [if_neg hsome]
      exact hwritable
  | read | readAt | readToEnd | transferTo | transferToHandle => exact hreadable
  | write | writeAt | truncate | transferFrom | transferFromHandle => exact hwritable
  | setPosition | seek | size | sync | metadata | lock => exact hopen

/-- A closed handle does nothing. -/
theorem perform_closed (hheld : world.handle id = .ok held) (hclosed : held.isOpen = false) :
    call.perform id world = world := by
  by_cases hclose : call = .close
  · subst hclose
    refine HandleId.close_idle fun known hknown => ?_
    rw [← Except.ok.inj (hheld.symm.trans hknown)]
    exact hclosed
  by_cases hempty : call = .writeAll []
  · subst hempty
    rfl
  exact (refused hheld (check_closed hclosed hclose hempty)).1

end HandleCall

theorem HandleId.close_closes_handle (hheld : world.handle id = .ok held) :
    ∃ later, (id.close world).2.handle id = .ok later ∧ later.isOpen = false := by
  cases hopen : held.isOpen with
  | true =>
      refine ⟨held.shut, ?_, rfl⟩
      rw [World.handle_shut (close_handles hheld hopen), hheld]
      exact congrArg Except.ok (if_pos rfl)
  | false =>
      rw [close_idle fun known hknown => Except.ok.inj (hheld.symm.trans hknown) ▸ hopen]
      exact ⟨held, hheld, hopen⟩

/-! ### Handles that may not read -/

/-- The call gives no byte away: it returns none, a sink has received none, and nothing goes to
another open file. -/
structure HandleCall.Withholds (call : HandleCall) (id : HandleId) (world : World) : Prop where
  returned : ∀ bytes, call.reply id world ≠ .bytes (.ok bytes)
  delivered : (call.reply id world).sink? = call.sink?
  passed : ∀ offset count other, call = .transferToHandle offset count other →
    call.perform id world = world

theorem HandleCall.withholds (hheld : world.handle id = .ok held)
    (hcheck : held.checkReadable = .error failure) : call.Withholds id world := by
  have hrefused : call.check held = .error failure → call.Withholds id world := by
    intro hcheck
    obtain ⟨hsame, hfails, hsink⟩ := refused hheld hcheck
    refine ⟨fun bytes hreply => ?_, hsink, fun _ _ _ _ => hsame⟩
    rw [hreply] at hfails
    cases hfails
  cases call with
  | read | readAt | readToEnd | transferTo | transferToHandle => exact hrefused hcheck
  | _ => exact ⟨nofun, rfl, nofun⟩

theorem Handle.checkReadable_refused (hread : held.options.read = false) :
    ∃ failure, held.checkReadable = .error failure := by
  cases hcheck : held.checkReadable with
  | error failure => exact ⟨failure, rfl⟩
  | ok _ => cases hread.symm.trans (checkReadable_eq_ok.1 hcheck).2

/-- What is read from a handle that may not read is a failure. -/
theorem HandleId.asSource_refused (hheld : world.handle id = .ok held)
    (hcheck : held.checkReadable = .error failure) : (id.asSource world).remaining = [] := by
  unfold asSource
  rw [hheld]
  dsimp only
  rw [hcheck]
  rfl

/-! ### Handles that may not write -/

theorem HandleCall.writer_cases {writer : HandleId} (h : call.writer? id = some writer) :
    writer = id ∨ ∃ offset count, call = .transferToHandle offset count writer := by
  cases call with
  | transferToHandle offset count other =>
      obtain rfl := Option.some.inj h
      exact .inr ⟨offset, count, rfl⟩
  | write | writeAt | writeAll | truncate | transferFrom | transferFromHandle =>
      exact .inl (Option.some.inj h).symm
  | _ => cases h

namespace HandleId

/-- Calls on one handle, one after the other. -/
def performAll (id : HandleId) (world : World) (calls : List HandleCall) : World :=
  calls.foldl (fun world call => call.perform id world) world

theorem performAll_reaches (h : Reachable world) (calls : List HandleCall) :
    Reachable (id.performAll world calls) ∧ world.Ages (id.performAll world calls) := by
  induction calls generalizing world with
  | nil => exact ⟨h, .refl⟩
  | cons call calls ih =>
      obtain ⟨hreach, hages⟩ := ih (h.step (.onHandle id call))
      exact ⟨hreach, (call.ages id).trans hages⟩

/-- What has been closed stays closed, whatever was called before and is called after. -/
theorem closed_after (h : Reachable world) (hheld : world.handle id = .ok held)
    (before after : List HandleCall) :
    ∃ last, (id.performAll world (before ++ .close :: after)).handle id = .ok last ∧
      last.isOpen = false := by
  obtain ⟨hreach, hages⟩ := id.performAll_reaches h before
  obtain ⟨middle, hmiddle, -⟩ := hages.later hheld
  obtain ⟨shut, hshut, hclosed⟩ := id.close_closes_handle hmiddle
  obtain ⟨-, hages⟩ := id.performAll_reaches (hreach.step (.onHandle id .close)) after
  obtain ⟨last, hlast, hbecomes⟩ := hages.later hshut
  have hsplit : id.performAll world (before ++ .close :: after) =
      id.performAll (id.close (id.performAll world before)).2 after :=
    List.foldl_append
  refine ⟨last, hsplit ▸ hlast, Bool.eq_false_iff.2 fun hopen => ?_⟩
  cases hclosed.symm.trans (hbecomes.isOpen hopen)

theorem performAll_keeps {calls : List HandleCall} (h : Reachable world)
    (hheld : world.handle id = .ok held) (hwrite : held.options.write = false)
    (hfile : world.flat? inode = some file)
    (hothers : ∀ offset count other known, .transferToHandle offset count other ∈ calls →
      world.handle other = .ok known → known.checkWritable = .ok () → known.inode ≠ inode) :
    (id.performAll world calls).flat? inode = some file := by
  induction calls generalizing world held with
  | nil => exact hfile
  | cons call calls ih =>
      have hkept : ¬call.Writes id world inode := by
        rintro ⟨writer, known, hwriter, hknown, hinode, hcheck⟩
        rcases call.writer_cases hwriter with rfl | ⟨offset, count, rfl⟩
        · obtain rfl := Except.ok.inj (hheld.symm.trans hknown)
          cases hwrite.symm.trans (Handle.checkWritable_eq_ok.1 hcheck).2
        · exact hothers offset count writer known (List.mem_cons_self ..) hknown hcheck hinode
      have hages : world.Ages (call.perform id world) := call.ages id
      obtain ⟨later, hlater, hbecomes⟩ := hages.later hheld
      refine ih (h.step (.onHandle id call)) hlater (hbecomes.options ▸ hwrite)
        (HandleCall.flat?_perform h hfile hkept) ?_
      intro offset count other last hcall hlast hcheck
      obtain ⟨known, hknown, hbecomes⟩ := hages.before hlast
      rw [hbecomes.inode]
      exact hothers offset count other known (List.mem_cons_of_mem _ hcall) hknown
        (hbecomes.checkWritable hcheck)

end HandleId

/-- Access holds over whole sessions. A file that is opened without writing is not cut, and no call
on the handle changes a byte of any file, but for one that it sends bytes to through another handle
that may write. A handle that was opened without reading gives no byte away, to another open file
neither. Once it has been closed, no call changes anything, and each call fails but closing again and
writing all of no bytes, which does not ask the handle. -/
theorem access_holds_over_sessions {volume : VolumeId} {path : String} {options : OpenOptions}
    (h : Reachable world) (hrun : volume.openFile path options world = (.ok id, opened)) :
    (options.write = false →
      (∀ inode file, world.flat? inode = some file → opened.flat? inode = some file) ∧
      ∀ calls inode file, opened.flat? inode = some file →
        (∀ offset count other known, .transferToHandle offset count other ∈ calls →
          opened.handle other = .ok known → known.checkWritable = .ok () → known.inode ≠ inode) →
        (id.performAll opened calls).flat? inode = some file) ∧
    (options.read = false → ∀ calls (call : HandleCall),
      call.Withholds id (id.performAll opened calls) ∧
        (id.asSource (id.performAll opened calls)).remaining = []) ∧
    ∀ before after (call : HandleCall),
      let shut := id.performAll opened (before ++ .close :: after)
      call.perform id shut = shut ∧
        (call ≠ .close → call ≠ .writeAll [] → (call.reply id shut).isFailure = true) := by
  have hreach : Reachable opened := by
    have hopened := volume.openFile_reachable h path options
    rwa [hrun] at hopened
  obtain ⟨opening, htakes⟩ := (VolumeId.openFile_transacts h.sound volume path options).post_of_ok hrun
  have hheld := htakes.opens.handle
  refine ⟨fun hwrite => ⟨fun inode file hfile => ?_, fun calls inode file hfile hothers => ?_⟩,
    fun hread calls call => ?_, fun before after call => ?_⟩
  · obtain ⟨store, hstore, rfl⟩ := Option.map_eq_some_iff.1 hfile
    have hspared : (volume.openFile path options world).2.Spared inode store :=
      VolumeId.openFile_spares h.sound ⟨h.tidy, hstore⟩ fun hcuts => by simp [hwrite] at hcuts
    rw [hrun] at hspared
    exact Option.map_eq_some_iff.2 ⟨store, hspared.2, rfl⟩
  · exact HandleId.performAll_keeps hreach hheld hwrite hfile hothers
  · obtain ⟨later, hlater, hbecomes⟩ := (id.performAll_reaches hreach calls).2.later hheld
    obtain ⟨failure, hcheck⟩ :=
      Handle.checkReadable_refused ((congrArg (·.read) hbecomes.options).trans hread)
    exact ⟨HandleCall.withholds hlater hcheck, HandleId.asSource_refused hlater hcheck⟩
  · obtain ⟨last, hlast, hclosed⟩ := HandleId.closed_after hreach hheld before after
    refine ⟨HandleCall.perform_closed hlast hclosed, fun hclose hempty => ?_⟩
    exact (HandleCall.refused hlast (HandleCall.check_closed hclosed hclose hempty)).2.1

/-- A file of one byte, and another one that is open and empty. -/
def World.lent : World :=
  List.foldl Call.perform {} [.newVolume {}, .writeAll ⟨0⟩ "/f" [7],
    .onPath ⟨0⟩ (.openFile "/g" .creating)]

/-- Opened without writing, the file is not cut, and writes do not get through. Opened without
reading, it sends no byte to a sink. -/
theorem lent_file_is_guarded :
    (∃ opened, VolumeId.openFile ⟨0⟩ "/f" { truncate := true } World.lent = (.ok ⟨2⟩, opened) ∧
      opened.flat? ⟨0⟩ = some ⟨maxBlocks, [7]⟩ ∧
      (HandleId.performAll ⟨2⟩ opened [.write [9], .truncate 0]).flat? ⟨0⟩ =
        some ⟨maxBlocks, [7]⟩ ∧
      (HandleCall.size.reply ⟨2⟩ (HandleId.performAll ⟨2⟩ opened [.read 1, .close])).isFailure =
        true) ∧
    ∃ opened, VolumeId.openFile ⟨0⟩ "/f" { read := false, write := true } World.lent =
        (.ok ⟨2⟩, opened) ∧
      ((HandleCall.transferTo 0 9 {}).reply ⟨2⟩
        (HandleId.performAll ⟨2⟩ opened [.setPosition 0])).sink? = some {} := by
  have hreach : Reachable World.lent := Reachable.start.run _
  have hfile : World.lent.flat? ⟨0⟩ = some ⟨maxBlocks, [7]⟩ := by decide +kernel
  have hread : (VolumeId.openFile ⟨0⟩ "/f" { truncate := true } World.lent).1 = .ok ⟨2⟩ := by
    decide +kernel
  have hwrite : (VolumeId.openFile ⟨0⟩ "/f" { read := false, write := true } World.lent).1 =
      .ok ⟨2⟩ := by
    decide +kernel
  obtain ⟨hkeeps, -, hclosed⟩ := access_holds_over_sessions hreach (Prod.ext hread rfl)
  obtain ⟨-, hwithholds, -⟩ := access_holds_over_sessions hreach (Prod.ext hwrite rfl)
  obtain ⟨hopened, hworked⟩ := hkeeps rfl
  refine ⟨⟨_, Prod.ext hread rfl, hopened _ _ hfile, ?_, ?_⟩, _, Prod.ext hwrite rfl, ?_⟩
  · exact hworked _ _ _ (hopened _ _ hfile) fun _ _ _ _ hcall => by simp at hcall
  · exact (hclosed [.read 1] [] .size).2 nofun nofun
  · exact (hwithholds rfl [.setPosition 0] (.transferTo 0 9 {})).1.delivered

/-- A handle that may not write sends its byte to the open file, and when it has been closed it
succeeds in writing all of no bytes. -/
theorem lent_byte_gets_out :
    ∃ opened, Reachable World.lent ∧
      VolumeId.openFile ⟨0⟩ "/f" .reading World.lent = (.ok ⟨2⟩, opened) ∧
      OpenOptions.reading.write = false ∧ opened.flat? ⟨1⟩ = some ⟨maxBlocks, []⟩ ∧
      (HandleId.performAll ⟨2⟩ opened [.transferToHandle 0 1 ⟨1⟩]).flat? ⟨1⟩ =
        some ⟨maxBlocks, [7]⟩ ∧
      ((HandleCall.writeAll []).reply ⟨2⟩ (HandleId.performAll ⟨2⟩ opened [.close])).isFailure =
        false := by
  have hread : (VolumeId.openFile ⟨0⟩ "/f" .reading World.lent).1 = .ok ⟨2⟩ := by decide +kernel
  exact ⟨_, Reachable.start.run _, Prod.ext hread rfl, rfl, by decide +kernel, by decide +kernel,
    by decide +kernel⟩

end RamFs
