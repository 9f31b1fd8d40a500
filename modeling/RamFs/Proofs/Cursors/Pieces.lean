import RamFs.Proofs.Cursors.Asides

/-!
Reading and writing at the cursor, piece by piece. How the bytes are cut into pieces makes no
difference, wherever the cursor is: reads return what one read of them all would return, and writes
leave what one write of them all would leave. Calls in between that have to do with neither the
cursor nor the contents do not matter.
-/

namespace RamFs

open RamFs.Action

variable {world after : World} {id : HandleId} {held : Handle} {file : FlatFile}

/-! ### Flat files -/

theorem splice_splice (bytes : Bytes) (offset : Nat) (first second : Bytes) :
    splice (splice bytes offset first) (offset + first.length) second =
      splice bytes offset (first ++ second) := by
  by_cases hfirst : first = []
  · simp [hfirst]
  · exact splice_append hfirst

/-- Two reads one behind the other are one, also where the first comes to the end. -/
theorem take_drop_append (bytes : Bytes) (offset count later : Nat) :
    (bytes.drop offset).take count ++
        (bytes.drop (offset + ((bytes.drop offset).take count).length)).take later =
      (bytes.drop offset).take (count + later) := by
  rw [List.take_add, ← List.drop_drop]
  congr 2
  rw [List.length_take]
  rcases Nat.le_total count (bytes.drop offset).length with hcount | hcount
  · rw [Nat.min_eq_left hcount]
  · rw [Nat.min_eq_right hcount, List.drop_length, List.drop_eq_nil_of_le hcount]

namespace FlatFile

theorem getD_read? (file : FlatFile) (offset count : Nat) :
    (file.read? offset count).getD [] = (file.bytes.drop offset).take count := by
  unfold read?
  split
  case isTrue => rfl
  case isFalse hend => simp [List.drop_eq_nil_of_le (Nat.le_of_not_lt hend)]

theorem write_of_fits {offset : Nat} {bytes : Bytes}
    (hfits : bytes ≠ [] → BlockStore.Fits file.ceiling (offset + bytes.length)) :
    file.write offset bytes = .ok { file with bytes := splice file.bytes offset bytes } := by
  unfold write
  split
  case isTrue hempty => rw [hempty, splice_nil]
  case isFalse hsome => exact if_pos (hfits hsome)

end FlatFile

/-! ### One call -/

namespace HandleId

theorem size_run (h : world.On id held file) (hcheck : held.checkOpen = .ok ()) :
    id.size world = (.ok file.bytes.length, world) := by
  obtain ⟨stored, hstored, hagrees, rfl⟩ := h.stored
  unfold HandleId.size
  rw [bind_ok (checked_run h.handle hcheck hstored), ← hagrees.size]
  rfl

/-- A read at the cursor returns what there is from there on, and goes past it. -/
theorem read_run (h : world.On id held file) (hcheck : held.checkReadable = .ok ()) (count : Nat) :
    ∃ bytes after, id.read count world = (.ok bytes, after) ∧ world.Ages after ∧
      bytes = (file.bytes.drop held.position).take count ∧
      after.On id { held with position := held.position + bytes.length } file := by
  obtain ⟨volume, hstands⟩ := h.reachable.stands h.handle
  obtain ⟨stored, hstored, hagrees, rfl⟩ := h.stored
  let bytes := (stored.store.read? held.position count).getD []
  let read := world.modifyEntry held.entry (·.touchAccessed (world.now volume))
  let after := read.modifyHandle id fun handle =>
    { handle with position := held.position + bytes.length }
  have hread : id.readAt held.position count world = (.ok bytes, read) := by
    unfold readAt
    rw [bind_ok (checked_run h.handle hcheck hstored)]
    dsimp only
    rw [bind_ok (Handle.stamp_run _ hstands.volume), pure_apply]
  have hrun : id.read count world = (.ok bytes, after) := by
    unfold HandleId.read
    rw [bind_ask_ok h.handle, bind_ok hread]
    rfl
  have hhandle : read.handle id = .ok held := h.handle
  obtain ⟨hreach, hages⟩ := HandleCall.reaches (.read count) h.reachable (congrArg Prod.snd hrun)
  refine ⟨bytes, after, hrun, hages, ?_, hreach, World.handle_modifyHandle_self hhandle _, h.file⟩
  rw [← FlatFile.getD_read?, ← hagrees.read?]

/-- What is left to do where the inode is known: put it in place, move the cursor and stamp. -/
theorem put_run {volume : Volume} (h : held.Stands id volume world) (stored : Inode)
    (position : Nat) :
    ∃ after, (do
        held.setInode stored
        id.setCursor position
        held.stamp Entry.touchModified : Action Unit) world = (.ok (), after) ∧
      after.handle id = .ok { held with position } := by
  let put := world.modifyInode held.inode fun _ => stored
  let moved := put.modifyHandle id fun handle => { handle with position }
  have hput : held.setInode stored world = (.ok (), put) := rfl
  have hmoved : id.setCursor position put = (.ok (), moved) := rfl
  have hvolume : moved.volume held.volume = .ok volume := h.volume
  have hhandle : put.handle id = .ok held := h.handle
  refine ⟨moved.modifyEntry held.entry (·.touchModified (moved.now volume)), ?_,
    World.handle_modifyHandle_self hhandle _⟩
  rw [bind_ok hput, bind_ok hmoved]
  exact Handle.stamp_run _ hvolume

/-- A write at the cursor is refused and changes nothing, or does to the file what it does to a flat
one and leaves the cursor behind what it wrote. -/
theorem write_cases (h : world.On id held file) (bytes : Bytes) :
    (∃ failure, id.write bytes world = (.error failure, world) ∧
      (held.checkWritable = .ok () →
        file.write (held.start file) bytes = .error .capacityExceeded)) ∨
    ∃ written after, held.checkWritable = .ok () ∧
      file.write (held.start file) bytes = .ok written ∧ id.write bytes world = (.ok (), after) ∧
      world.Ages after ∧
      after.On id { held with position := held.start file + bytes.length } written := by
  obtain ⟨volume, hstands⟩ := h.reachable.stands h.handle
  obtain ⟨stored, hstored, hagrees, rfl⟩ := h.stored
  have hstart : (if held.options.append then stored.size else held.position) =
      held.start stored.store.flat := by
    unfold Handle.start
    rw [hagrees.size]
  have hrevised := (write_revises h.handle hstored bytes).flat? hagrees.valid
  cases hcheck : held.checkWritable with
  | error failure =>
      refine .inl ⟨failure, ?_, nofun⟩
      unfold write
      rw [bind_apply, checked_refused h.handle hcheck]
  | ok _ =>
      have hwrite : id.write bytes world = (do
          let store ← stored.store.write (held.start stored.store.flat) bytes
          held.setInode { stored with store }
          id.setCursor (held.start stored.store.flat + bytes.length)
          held.stamp Entry.touchModified : Action Unit) world := by
        unfold write
        rw [bind_ok (checked_run h.handle hcheck hstored)]
        dsimp only
        rw [hstart]
      rcases hagrees.write (held.start stored.store.flat) bytes with
        ⟨store, written, hstore, hwritten, -⟩ | ⟨hstore, hwritten⟩
      case inr =>
        refine .inl ⟨.capacityExceeded, ?_, fun _ => hwritten⟩
        rw [hwrite, hstore]
        rfl
      case inl =>
        obtain ⟨after, hput, hhandle⟩ := put_run hstands { stored with store }
          (held.start stored.store.flat + bytes.length)
        have hran : id.write bytes world = (.ok (), after) := by
          rw [hwrite, bind_lift_ok hstore]
          exact hput
        obtain ⟨hreach, hages⟩ :=
          HandleCall.reaches (.write bytes) h.reachable (congrArg Prod.snd hran)
        refine .inr ⟨written, after, rfl, hwritten, hran, hages, hreach, hhandle, ?_⟩
        rw [hran] at hrevised
        unfold Handle.edit at hrevised
        rw [hcheck] at hrevised
        exact hrevised.trans (congrArg some (FlatFile.written_of_ok hwritten))

end HandleId

/-! ### One call after another -/

namespace World.On

variable {steps : Steps Nat} {chunks : Steps Bytes}

theorem reads (h : world.On id held file) (hcheck : held.checkReadable = .ok ())
    (hasides : ∀ aside ∈ steps.asides, aside.2.Aside aside.1 world id held.inode) :
    ∃ (pieces : List Bytes) (after : World),
      world.interleaved id.read steps = (pieces.map .ok, after) ∧
      pieces.flatten = (file.bytes.drop held.position).take steps.inputs.sum ∧
      after.On id { held with position := held.position + pieces.flatten.length } file := by
  induction steps generalizing world held with
  | nil => exact ⟨[], world, rfl, by simp, h⟩
  | cons step steps ih =>
      cases step with
      | inl count =>
          obtain ⟨bytes, middle, hread, hages, hbytes, hmiddle⟩ := id.read_run h hcheck count
          obtain ⟨pieces, after, hrun, hpieces, hafter⟩ := ih hmiddle hcheck fun aside haside =>
            (hasides aside haside).of_ages hages
          refine ⟨bytes :: pieces, after, interleaved_inl hread hrun, ?_, ?_⟩
          · rw [List.flatten_cons, hpieces, Steps.inputs_inl, List.sum_cons, hbytes]
            exact take_drop_append _ _ _ _
          · rw [List.flatten_cons, List.length_append, ← Nat.add_assoc]
            exact hafter
      | inr aside =>
          obtain ⟨hfirst, hasides⟩ := List.forall_mem_cons.1 hasides
          obtain ⟨pieces, after, hrun, hrest⟩ := ih (hfirst.on h) hcheck fun aside haside =>
            (hasides aside haside).of_ages (HandleCall.ages _ _)
          exact ⟨pieces, after, hrun, hrest⟩

theorem writes (h : world.On id held file) (hcheck : held.checkWritable = .ok ())
    (happend : held.options.append = false)
    (hasides : ∀ aside ∈ chunks.asides, aside.2.Aside aside.1 world id held.inode)
    (hfits : chunks.inputs.flatten ≠ [] →
      BlockStore.Fits file.ceiling (held.position + chunks.inputs.flatten.length)) :
    ∃ after, world.interleaved id.write chunks = (chunks.inputs.map fun _ => .ok (), after) ∧
      after.On id { held with position := held.position + chunks.inputs.flatten.length }
        { file with bytes := splice file.bytes held.position chunks.inputs.flatten } := by
  induction chunks generalizing world held file with
  | nil => exact ⟨world, rfl, by simpa using h⟩
  | cons step steps ih =>
      cases step with
      | inl bytes =>
          rw [Steps.inputs_inl, List.flatten_cons, List.length_append] at hfits ⊢
          have hfirst : file.write held.position bytes =
              .ok { file with bytes := splice file.bytes held.position bytes } :=
            FlatFile.write_of_fits fun hsome => by
              obtain ⟨hmax, hceiling⟩ := hfits (by simp [hsome])
              constructor <;> omega
          have hstart : held.start file = held.position := by
            unfold Handle.start
            rw [happend, if_neg nofun]
          rcases id.write_cases h bytes with ⟨_, _, hrefused⟩ |
            ⟨written, middle, _, hwritten, hwrite, hages, hmiddle⟩
          · rw [hstart, hfirst] at hrefused
            cases hrefused hcheck
          rw [hstart] at hwritten hmiddle
          obtain rfl := Except.ok.inj (hfirst.symm.trans hwritten)
          obtain ⟨after, hrun, hafter⟩ := ih hmiddle hcheck happend
            (fun aside haside => (hasides aside haside).of_ages hages) fun hsome => by
              have hall := hfits (by simp [hsome])
              dsimp only
              rwa [Nat.add_assoc]
          refine ⟨after, interleaved_inl hwrite hrun, ?_⟩
          rw [← splice_splice, ← Nat.add_assoc]
          exact hafter
      | inr aside =>
          obtain ⟨hfirst, hasides⟩ := List.forall_mem_cons.1 hasides
          obtain ⟨after, hrun, hafter⟩ := ih (hfirst.on h) hcheck happend
            (fun aside haside => (hasides aside haside).of_ages (HandleCall.ages _ _)) hfits
          exact ⟨after, hrun, hafter⟩

end World.On

/-- How cursor I/O is cut up makes no difference. Through a handle that may read, reads one after the
other return what there is from the cursor on, up to the sum of their lengths, and move the cursor by
what they returned. Through a handle that may write and does not append, writes that fit leave the
file and the handle that one write of all their bytes leaves. Calls in between that are asides for
the handle, as every `readAt` and `transferTo` is, change neither. No positional call moves a cursor,
but for one at the other end of a transfer. A write that fails changes nothing. -/
theorem cursor_io_does_not_depend_on_cuts (h : Reachable world)
    (hheld : world.handle id = .ok held) :
    ∃ file, world.flat? held.inode = some file ∧
      (held.checkReadable = .ok () → ∀ steps : Steps Nat,
        (∀ aside ∈ steps.asides, aside.2.Aside aside.1 world id held.inode) →
        ∃ (pieces : List Bytes) (after : World),
          world.interleaved id.read steps = (pieces.map .ok, after) ∧
          pieces.flatten = (file.bytes.drop held.position).take steps.inputs.sum ∧
          after.handle id = .ok { held with position := held.position + pieces.flatten.length } ∧
          after.flat? held.inode = some file) ∧
      (held.checkWritable = .ok () → held.options.append = false → ∀ steps : Steps Bytes,
        (∀ aside ∈ steps.asides, aside.2.Aside aside.1 world id held.inode) →
        (steps.inputs.flatten ≠ [] →
          BlockStore.Fits file.ceiling (held.position + steps.inputs.flatten.length)) →
        ∃ after once, world.interleaved id.write steps = (steps.inputs.map fun _ => .ok (), after) ∧
          id.write steps.inputs.flatten world = (.ok (), once) ∧
          after.flat? held.inode = once.flat? held.inode ∧ after.handle id = once.handle id ∧
          once.flat? held.inode =
            some { file with bytes := splice file.bytes held.position steps.inputs.flatten } ∧
          once.handle id =
            .ok { held with position := held.position + steps.inputs.flatten.length }) ∧
      (∀ (other : HandleId) (call : HandleCall), call.isPositional = true →
        call.other? ≠ some id → (call.perform other world).handle id = world.handle id) ∧
      ∀ bytes failure after, id.write bytes world = (.error failure, after) → after = world := by
  obtain ⟨file, hon⟩ := h.on hheld
  refine ⟨file, hon.file, ?_, ?_, ?_, ?_⟩
  · intro hcheck steps hasides
    obtain ⟨pieces, after, hrun, hpieces, hafter⟩ := hon.reads hcheck hasides
    exact ⟨pieces, after, hrun, hpieces, hafter.handle, hafter.file⟩
  · intro hcheck happend steps hasides hfits
    obtain ⟨after, hrun, hafter⟩ := hon.writes hcheck happend hasides hfits
    -- one write is a session of one step
    let single : Steps Bytes := [.inl steps.inputs.flatten]
    have hsingle : single.inputs.flatten = steps.inputs.flatten := List.flatten_singleton
    have hnone : ∀ aside ∈ single.asides, aside.2.Aside aside.1 world id held.inode :=
      List.forall_mem_nil _
    obtain ⟨once, hone, honce⟩ := hon.writes hcheck happend hnone (hsingle ▸ hfits)
    rw [hsingle] at honce
    have hwrite : id.write steps.inputs.flatten world = (.ok (), once) := by
      obtain ⟨hresult, hworld⟩ := Prod.mk.inj hone
      exact Prod.ext (List.cons.inj hresult).1 hworld
    exact ⟨after, once, hrun, hwrite, hafter.file.trans honce.file.symm,
      hafter.handle.trans honce.handle.symm, honce.file, honce.handle⟩
  · exact fun other call hpositional hother => HandleCall.handle_of_positional hpositional hother
  · intro bytes failure after hrun
    rcases id.write_cases hon bytes with ⟨_, hrefused, -⟩ | ⟨_, _, -, -, hwritten, -⟩
    · exact congrArg Prod.snd (hrun.symm.trans hrefused)
    · cases hwritten.symm.trans hrun

/-- A file of three bytes under a ceiling of one block. It is open three times, with the cursor
behind the first byte, past the end, and as far out as a cursor can be. -/
def World.bookmarked : World :=
  List.foldl Call.perform {} [.newVolume { limits := { maxFileBlocks := 1 } },
    .writeAll ⟨0⟩ "/f" [1, 2, 3],
    .onPath ⟨0⟩ (.openFile "/f" .creating), .onHandle ⟨1⟩ (.setPosition 1),
    .onPath ⟨0⟩ (.openFile "/f" .creating), .onHandle ⟨2⟩ (.setPosition 5),
    .onPath ⟨0⟩ (.openFile "/f" .creating), .onHandle ⟨3⟩ (.setPosition maxOffset)]

/-- The first handle reads to the end in two pieces, the second fills a gap before it, and the third
has no room left. -/
theorem bookmarked_cuts_make_no_difference :
    (∃ (pieces : List Bytes) (after : World), World.bookmarked.interleaved (HandleId.read ⟨1⟩)
        [.inl 1, .inr (⟨2⟩, .readAt 0 9), .inl 5] = (pieces.map .ok, after) ∧
      pieces.flatten = [2, 3]) ∧
    (∃ after once, World.bookmarked.interleaved (HandleId.write ⟨2⟩)
        [.inl [7], .inr (⟨1⟩, .transferTo 0 9 {}), .inl [8]] = ([.ok (), .ok ()], after) ∧
      HandleId.write ⟨2⟩ [7, 8] World.bookmarked = (.ok (), once) ∧
      after.flat? ⟨0⟩ = once.flat? ⟨0⟩ ∧ once.flat? ⟨0⟩ = some ⟨1, [1, 2, 3, 0, 0, 7, 8]⟩) ∧
    HandleId.write ⟨3⟩ [9] World.bookmarked = (.error .capacityExceeded, World.bookmarked) := by
  have hreach : Reachable World.bookmarked := Reachable.start.run _
  have hfile : World.bookmarked.flat? ⟨0⟩ = some ⟨1, [1, 2, 3]⟩ := by decide +kernel
  let held (position : Nat) : Handle :=
    ⟨⟨0⟩, ⟨1⟩, ⟨0⟩, ⟨0, "/", ["f"], true⟩, .creating, position, [], true⟩
  have hfirst : World.bookmarked.handle ⟨1⟩ = .ok (held 1) := by decide +kernel
  have hsecond : World.bookmarked.handle ⟨2⟩ = .ok (held 5) := by decide +kernel
  have hthird : World.bookmarked.handle ⟨3⟩ = .ok (held maxOffset) := by decide +kernel
  obtain ⟨file, hfound, hreads, -⟩ := cursor_io_does_not_depend_on_cuts hreach hfirst
  obtain rfl := Option.some.inj (hfile.symm.trans hfound)
  obtain ⟨file, hfound, -, hwrites, -⟩ := cursor_io_does_not_depend_on_cuts hreach hsecond
  obtain rfl := Option.some.inj (hfile.symm.trans hfound)
  obtain ⟨-, -, -, -, -, hfails⟩ := cursor_io_does_not_depend_on_cuts hreach hthird
  refine ⟨?_, ?_, ?_⟩
  · obtain ⟨pieces, after, hrun, hpieces, -⟩ := hreads rfl
      [.inl 1, .inr (⟨2⟩, .readAt 0 9), .inl 5] (by simp [HandleCall.aside_readAt])
    exact ⟨pieces, after, hrun, hpieces⟩
  · obtain ⟨after, once, hrun, hone, hsame, -, honce, -⟩ := hwrites rfl rfl
      [.inl [7], .inr (⟨1⟩, .transferTo 0 9 {}), .inl [8]] (by simp [HandleCall.aside_transferTo])
      (by decide)
    exact ⟨after, once, hrun, hone, hsame, honce⟩
  · have hfailed : (HandleId.write ⟨3⟩ [9] World.bookmarked).1 = .error .capacityExceeded := by
      decide +kernel
    exact Prod.ext hfailed (hfails [9] _ _ (Prod.ext hfailed rfl))

end RamFs
