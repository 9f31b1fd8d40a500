import RamFs.Proofs.Contents.Receiving

/-!
Transfers out of a file. A sink takes what it is offered in pieces of its own, and a transfer
offers it the contents block by block; what arrives is the beginning of the range all the same, and
all of the range exactly if the transfer succeeds. What has arrived makes up the same bytes in a
file that takes them in.
-/

namespace RamFs

/-! ### What arrives -/

/-- Of the offered bytes some first part has arrived behind what was there before, and all of them
exactly if that is what is reported. -/
structure Delivers {ε : Type} (before offered : Bytes) (result : Except ε Unit) (after : Bytes) :
    Prop where
  arrived : ∃ first, first <+: offered ∧ after = before ++ first
  complete : result = .ok () ↔ after = before ++ offered

namespace Delivers

variable {ε : Type} {before first second middle after : Bytes} {result : Except ε Unit}

theorem nil : Delivers before [] (.ok () : Except ε Unit) before where
  arrived := ⟨[], List.prefix_rfl, (List.append_nil before).symm⟩
  complete := by simp

theorem nothing {error : ε} (h : first ≠ []) :
    Delivers before first (.error error) before where
  arrived := ⟨[], List.nil_prefix, (List.append_nil before).symm⟩
  complete := by simpa using h

/-- Once the first part is there, it is for the rest to arrive. -/
theorem behind (h : Delivers (before ++ first) second result after) :
    Delivers before (first ++ second) result after where
  arrived := by
    obtain ⟨found, hfound, rfl⟩ := h.arrived
    exact ⟨first ++ found, (List.prefix_append_right_inj first).2 hfound,
      List.append_assoc before first found⟩
  complete := by rw [h.complete, List.append_assoc]

/-- What is not reported as complete is not complete. -/
theorem length_lt {error : ε} (h : Delivers before first (.error error) after) :
    after.length < before.length + first.length := by
  obtain ⟨found, hfound, rfl⟩ := h.arrived
  have hlength := hfound.length_le
  rw [List.length_append]
  by_contra hall
  have hsame : found = first := hfound.eq_of_length (by omega)
  rw [hsame] at h
  cases h.complete.2 rfl

/-- Nothing is offered behind a part that did not all arrive. -/
theorem stopped {φ : Type} {error : ε} (h : Delivers before first (.error error) after)
    (failure : φ) : Delivers before (first ++ second) (.error failure) after where
  arrived := by
    obtain ⟨found, hfound, hafter⟩ := h.arrived
    exact ⟨found, hfound.trans (List.prefix_append first second), hafter⟩
  complete := by
    constructor
    · intro hok
      cases hok
    · intro hall
      have hlength := h.length_lt
      rw [hall] at hlength
      simp only [List.length_append] at hlength
      omega

end Delivers

namespace Sink

theorem received_of_write_error {sink after : Sink} {bytes : Bytes} {error : StreamError}
    (h : sink.write bytes = (.error error, after)) : after.received = sink.received := by
  unfold write at h
  dsimp only at h
  split at h
  · split at h
    · cases h
      rfl
    · cases h
  · cases h

theorem received_of_write_ok {sink after : Sink} {bytes : Bytes} {count : Nat}
    (h : sink.write bytes = (.ok count, after)) :
    after.received = sink.received ++ bytes.take count := by
  unfold write at h
  dsimp only at h
  split at h
  · split at h
    · cases h
    · cases h
      simp
  · cases h
    rfl

/-- The induction is on what is left to offer and to report, one call at a time. -/
theorem writeAll_delivers (sink : Sink) (bytes : Bytes) :
    Delivers sink.received bytes (sink.writeAll bytes).1 (sink.writeAll bytes).2.received := by
  fun_induction writeAll sink bytes with
  | case1 => exact Delivers.nil
  | case2 sink bytes hbytes error after hwrite hkind ih =>
    rwa [received_of_write_error hwrite] at ih
  | case3 sink bytes hbytes error after hwrite hkind =>
    rw [received_of_write_error hwrite]
    exact Delivers.nothing hbytes
  | case4 sink bytes hbytes after hwrite =>
    rw [received_of_write_ok hwrite, List.take_zero, List.append_nil]
    exact Delivers.nothing hbytes
  | case5 sink bytes hbytes count after hwrite hcount ih =>
    rw [received_of_write_ok hwrite] at ih
    have hrest := ih.behind
    rwa [List.take_append_drop] at hrest

/-- The interruption is reported once the sink is full; the call made after it takes nothing. -/
example : Sink.writeAll { room := some 2, failure := some ⟨.interrupted, "again"⟩ } [1, 2, 3] =
    (.error writeZero, { room := some 0, received := [1, 2] }) := by
  decide +kernel

end Sink

/-- Pieces arrive like one piece, if each of them arrives like that. The induction is on the
pieces. -/
theorem deliver_delivers {σ : Type} {writeAll : σ → Bytes → Except StreamError Unit × σ}
    {received : σ → Bytes}
    (hpiece : ∀ state piece, Delivers (received state) piece (writeAll state piece).1
      (received (writeAll state piece).2)) (state : σ) (pieces : List Bytes) :
    Delivers (received state) pieces.flatten (deliver writeAll state pieces).1
        (received (deliver writeAll state pieces).2) ∧
      ∀ failure, (deliver writeAll state pieces).1 = .error failure →
        ∃ error, failure = .stream error := by
  induction pieces generalizing state with
  | nil => exact ⟨Delivers.nil, fun failure hfailure => nomatch hfailure⟩
  | cons piece pieces ih =>
    have hfirst := hpiece state piece
    rw [deliver, List.flatten_cons]
    rcases hrun : writeAll state piece with ⟨outcome, after⟩
    rw [hrun] at hfirst
    cases outcome with
    | error error =>
      refine ⟨hfirst.stopped (Failure.stream error), fun failure hfailure => ⟨error, ?_⟩⟩
      cases hfailure
      rfl
    | ok =>
      obtain ⟨hlater, hfailures⟩ := ih after
      rw [hfirst.complete.1 rfl] at hlater
      exact ⟨hlater.behind, hfailures⟩

/-! ### Ranges of files -/

namespace BlockStore

variable {store : BlockStore} {offset count : Nat}

theorem flatten_outgoing (store : BlockStore) (offset count : Nat) :
    (store.outgoing offset count).flatten = (store.contents.drop offset).take count := by
  have hrange : min (offset + count) store.size - offset = min count (store.size - offset) := by
    omega
  rw [outgoing, flatten_slices, hrange, contents, take_drop_window]

/-- What a transfer out of a file has done, `range` being what it was to send. -/
structure Sent (range : Bytes) (before after : Sink) (result : Except Failure Nat) : Prop where
  arrived : ∃ first, first <+: range ∧ after.received = before.received ++ first
  complete : ∀ n, result = .ok n ↔
    after.received = before.received ++ range ∧ n = range.length
  failed : after.received ≠ before.received ++ range →
    ∃ error, result = .error (.stream error)

theorem transferTo_sent (store : BlockStore) (offset count : Nat) (sink : Sink) :
    let sent := store.transferTo offset count Sink.writeAll sink
    Sent ((store.contents.drop offset).take count) sink sent.2 sent.1 := by
  obtain ⟨hdelivers, hfailures⟩ := deliver_delivers Sink.writeAll_delivers sink
    (store.outgoing offset count)
  rw [flatten_outgoing] at hdelivers
  unfold transferTo
  dsimp only
  rw [flatten_outgoing]
  rcases hrun : deliver Sink.writeAll sink (store.outgoing offset count) with ⟨result, after⟩
  rw [hrun] at hdelivers hfailures
  refine ⟨hdelivers.arrived, fun n => ?_, fun hmissing => ?_⟩
  · rw [← hdelivers.complete]
    cases result with
    | ok => simp [Except.map, eq_comm]
    | error failure => simp [Except.map]
  · cases result with
    | ok => exact absurd (hdelivers.complete.1 rfl) hmissing
    | error failure =>
      obtain ⟨error, rfl⟩ := hfailures failure rfl
      exact ⟨error, rfl⟩

/-- A new file whose ceiling leaves room for it takes in all of a flow. -/
theorem new_received (ceiling : Nat) (source : Source)
    (hceiling : blocksFor source.flow.length ≤ max 1 (min ceiling RamFs.maxBlocks))
    (hmax : source.flow.length ≤ maxOffset) :
    ((new ceiling).transferFrom 0 source.flow.length source).result = .ok source.flow.length ∧
      ((new ceiling).transferFrom 0 source.flow.length source).store.contents = source.flow := by
  have hvalid := new_valid ceiling
  have hfits : Fits (new ceiling).maxBlocks (0 + source.flow.length) := by
    rw [Nat.zero_add]
    exact (hvalid.blocksFor_le_iff_fits hmax).1 hceiling
  have hreceived := hvalid.received source (Nat.zero_le _) hfits
  have htaken : source.flow.take source.flow.length = source.flow := List.take_length
  rw [htaken] at hreceived
  refine ⟨(hreceived.completed _).2 ⟨rfl, Or.inl (Nat.le_refl _)⟩, ?_⟩
  rw [hreceived.contents, contents_new]
  simp

end BlockStore

/-- A transfer out of a file delivers the beginning of its range, and succeeds exactly if it
delivers all of it; otherwise it fails with a failure of the stream. All that arrived then makes up
the contents of any new file that takes it in, if its ceiling leaves room for that many blocks. -/
theorem transfer_out_delivers_a_prefix {store : BlockStore} {ceiling : Nat}
    (h : store.Arises ceiling) (offset count : Nat) (sink : Sink) :
    let range := (store.contents.drop offset).take count
    let sent := store.transferTo offset count Sink.writeAll sink
    BlockStore.Sent range sink sent.2 sent.1 ∧
      (sink.received = [] → ∀ n, sent.1 = .ok n → ∀ fresh, blocksFor n ≤ fresh →
        ∀ source : Source, source.flow = sent.2.received →
          let copy := (Inode.new fresh).store.transferFrom 0 n source
          copy.result = .ok n ∧ copy.store.contents = range) := by
  intro range sent
  have hsent : BlockStore.Sent range sink sent.2 sent.1 := store.transferTo_sent offset count sink
  refine ⟨hsent, ?_⟩
  intro hempty n hok fresh hfresh source hflow copy
  obtain ⟨hall, rfl⟩ := (hsent.complete n).1 hok
  rw [hempty, List.nil_append] at hall
  rw [hall] at hflow
  have hlength : range.length ≤ store.size := by
    simp only [range, List.length_take, List.length_drop, BlockStore.length_contents]
    omega
  obtain ⟨hvalid, hmost⟩ := h.valid
  -- whatever the file that sends holds is within the ceiling of every file
  have hfew : blocksFor range.length ≤ maxBlocks := by
    rw [blocksFor_le_iff (by decide)]
    have hblocks : store.blocks.size ≤ maxBlocks := by
      refine Nat.le_trans hvalid.blocks_le ?_
      rw [hmost]
      exact Nat.max_le.2 ⟨by decide, Nat.min_le_right _ _⟩
    exact Nat.le_trans hlength
      (Nat.le_trans hvalid.size_le (Nat.mul_le_mul_left blockSize hblocks))
  have hcopy := BlockStore.new_received fresh source
    (by rw [hflow]; exact Nat.le_trans (Nat.le_min.2 ⟨hfresh, hfew⟩) (Nat.le_max_right _ _))
    (by rw [hflow]; exact Nat.le_trans hlength hvalid.size_le_max)
  rw [hflow] at hcopy
  exact hcopy

/-- Three bytes on both sides of a block end. A sink that takes one byte per call and two in all
gets the first two of them; one that takes two per call gets all, and so does a new file from it,
piece by piece. -/
theorem cramped_sink_gets_a_prefix :
    ∃ store : BlockStore, store.Arises 2 ∧
      BlockStore.Sent [1, 2, 3] { perCall := some 1, room := some 2 }
        { perCall := some 1, room := some 0, received := [1, 2] }
        (.error (.stream Sink.writeZero)) ∧
      (store.transferTo (blockSize - 2) 3 Sink.writeAll { perCall := some 1, room := some 2 }).2 =
        { perCall := some 1, room := some 0, received := [1, 2] } ∧
      ((Inode.new 1).store.transferFrom 0 3 [.data [1], .failure ⟨.interrupted, "again"⟩,
        .data [2, 3]]).store.contents = [1, 2, 3] := by
  have hfiles : ((blockFiles.run [Inode.new 2] [(0, .write (blockSize - 2) [1, 2, 3])]).2.map
      fun inode => (inode.store.read? (blockSize - 2) 3,
        (inode.store.transferTo (blockSize - 2) 3 Sink.writeAll
          { perCall := some 1, room := some 2 }),
        (inode.store.transferTo (blockSize - 2) 3 Sink.writeAll { perCall := some 2 }))) =
      [(some [1, 2, 3], (.error (.stream Sink.writeZero),
          { perCall := some 1, room := some 0, received := [1, 2] }),
        (.ok 3, { perCall := some 2, received := [1, 2, 3] }))] := by decide +kernel
  obtain ⟨inode, hinode, hfound⟩ := List.mem_map.1 (hfiles ▸ List.mem_cons_self)
  have harises : inode.store.Arises 2 := ⟨_, inode, hinode, rfl⟩
  simp only [Prod.mk.injEq] at hfound
  obtain ⟨hread, hcramped, hroomy⟩ := hfound
  have hrange : (inode.store.contents.drop (blockSize - 2)).take 3 = [1, 2, 3] := by
    rw [BlockStore.read?_eq] at hread
    split at hread
    · exact Option.some.inj hread
    · cases hread
  obtain ⟨hsent, _⟩ := transfer_out_delivers_a_prefix harises (blockSize - 2) 3
    { perCall := some 1, room := some 2 }
  obtain ⟨_, hcopy⟩ := transfer_out_delivers_a_prefix harises (blockSize - 2) 3
    { perCall := some 2 }
  rw [hrange, hcramped] at hsent
  rw [hrange, hroomy] at hcopy
  exact ⟨inode.store, harises, hsent, by rw [hcramped],
    (hcopy rfl 3 rfl 1 (by decide) _ (by decide)).2⟩

end RamFs
