import RamFs.Proofs.Contents.Store

/-!
Transfers into a store. `Source.drain` says what a reader takes that knows nothing of
blocks. A transfer reads block by block, with a limit of its own for each read, and still
takes the same bytes, ends for the same reason and leaves the same source; the bytes are
spliced into the contents. Once the whole range is known to fit, no block on the way can be
refused.
-/

namespace RamFs

/-! ### Draining a source -/

/-- What is taken from a source in any number of reads, how that ended, and what the
source has left. -/
structure Drained where
  taken : Bytes
  outcome : Except StreamError Unit
  rest : Source
  deriving DecidableEq

namespace Drained

/-- The same with bytes that were taken before. -/
def after (bytes : Bytes) (drained : Drained) : Drained :=
  { drained with taken := bytes ++ drained.taken }

end Drained

namespace Source

/-- Takes up to `count` bytes. Interruptions are passed over; any other failure, or data
without a byte in it, ends the taking early and is used up. -/
def drain : Source → Nat → Drained
  | source, 0 => ⟨[], .ok (), source⟩
  | [], _ + 1 => ⟨[], .ok (), []⟩
  | .failure error :: rest, count + 1 =>
    if error.kind = .interrupted then drain rest (count + 1) else ⟨[], .error error, rest⟩
  | .data bytes :: rest, count + 1 =>
    if bytes = [] then ⟨[], .ok (), rest⟩
    else if bytes.length ≤ count + 1 then (drain rest (count + 1 - bytes.length)).after bytes
    else ⟨bytes.take (count + 1), .ok (), .data (bytes.drop (count + 1)) :: rest⟩

@[simp]
theorem drain_zero (source : Source) : source.drain 0 = ⟨[], .ok (), source⟩ := by
  cases source <;> rfl

/-- A read brings no more bytes than it has room for. -/
theorem length_taken_readThrough_le (source : Source) (limit : Nat) (bytes : Bytes)
    (rest : Source) (h : source.readThrough limit = (.ok bytes, rest)) :
    bytes.length ≤ limit := by
  induction source with
  | nil =>
    cases h
    exact Nat.zero_le _
  | cons chunk tail ih =>
    cases chunk with
    | failure error =>
      rw [readThrough] at h
      split at h
      · exact ih h
      · cases h
    | data data =>
      have hread : Source.readThrough limit (.data data :: tail) =
          Source.read limit (.data data :: tail) := rfl
      rw [hread, Source.read] at h
      split at h
      · next hfits =>
        cases h
        exact hfits
      · cases h
        rw [List.length_take]
        omega

/-- Nothing is lost and nothing made up: what was taken and what is left are what was
there. -/
theorem taken_drain_append_remaining (source : Source) (count : Nat) :
    (source.drain count).taken ++ (source.drain count).rest.remaining = source.remaining := by
  fun_induction drain source count with
  | case1 | case2 => rfl
  | case3 _ _ _ _ ih => exact ih
  | case4 => rfl
  | case5 => simp [remaining]
  | case6 bytes rest count _ _ ih =>
    simp only [Drained.after, List.append_assoc, ih]
    rfl
  | case7 bytes rest count =>
    simp only [remaining, ← List.append_assoc, List.take_append_drop]

/-- Taking bytes in one go and taking them read by read, each read with a limit of its
own, come to the same. -/
theorem drain_eq_readThrough (source : Source) {limit count : Nat} (hlimit : 0 < limit)
    (hle : limit ≤ count) :
    source.drain count =
      match source.readThrough limit with
      | (.error error, rest) => ⟨[], .error error, rest⟩
      | (.ok bytes, rest) =>
        if bytes = [] then ⟨[], .ok (), rest⟩
        else (drain rest (count - bytes.length)).after bytes := by
  obtain ⟨more, rfl⟩ : ∃ more, count = more + 1 := ⟨count - 1, by omega⟩
  induction source with
  | nil => rfl
  | cons chunk rest ih =>
    cases chunk with
    | failure error =>
      rw [drain, readThrough]
      split
      · exact ih
      · rfl
    | data bytes =>
      have hread : Source.readThrough limit (.data bytes :: rest) =
          Source.read limit (.data bytes :: rest) := rfl
      rw [hread, Source.read, drain]
      by_cases hempty : bytes = []
      · subst hempty
        simp
      · have hpos : 0 < bytes.length := List.length_pos_iff.2 hempty
        by_cases hfits : bytes.length ≤ limit
        · simp only [if_neg hempty, if_pos hfits, if_pos (Nat.le_trans hfits hle)]
        · have htake : bytes.take limit ≠ [] := by
            intro h
            have := congrArg List.length h
            simp only [List.length_take, List.length_nil] at this
            omega
          have hlength : (bytes.take limit).length = limit := by
            rw [List.length_take]; omega
          simp only [if_neg hempty, if_neg hfits, if_neg htake, hlength]
          -- what a read leaves of the data is met again by the next one
          obtain hdone | ⟨left, hleft⟩ : limit = more + 1 ∨ ∃ left, more + 1 - limit = left + 1 :=
            (Nat.eq_or_lt_of_le hle).imp id fun h => ⟨more - limit, by omega⟩
          · subst hdone
            rw [if_neg hfits, Nat.sub_self, drain_zero]
            simp [Drained.after]
          · have hdrop : bytes.drop limit ≠ [] := by
              intro h
              have := congrArg List.length h
              simp only [List.length_drop, List.length_nil] at this
              omega
            rw [hleft, drain, if_neg hdrop, List.length_drop]
            by_cases hall : bytes.length ≤ more + 1
            · rw [if_pos hall, if_pos (by omega)]
              have hcount : left + 1 - (bytes.length - limit) = more + 1 - bytes.length := by
                omega
              simp only [Drained.after, hcount, ← List.append_assoc, List.take_append_drop]
            · rw [if_neg hall, if_neg (by omega)]
              have hsum : more + 1 = limit + (left + 1) := by omega
              simp only [Drained.after, hsum, List.take_add, List.drop_drop]

end Source

/-! ### Filling a store -/

namespace BlockStore

/-- How a transfer reports what it drained. -/
def report (drained : Drained) : Except Failure Nat :=
  match drained.outcome with
  | .ok () => .ok drained.taken.length
  | .error error => .error (.stream error)

theorem report_after (bytes : Bytes) (drained : Drained) :
    report (drained.after bytes) = (report drained).map (· + bytes.length) := by
  obtain ⟨taken, outcome, rest⟩ := drained
  cases outcome with
  | error error => rfl
  | ok => simp [report, Drained.after, Except.map, Nat.add_comm]

/-- One read of a transfer. Its block is always there, since the whole range fits. -/
theorem receivePiece_eq {store : BlockStore} {offset count : Nat} (hcount : 0 < count)
    (hvalid : store.Valid) (hfits : Fits store.maxBlocks (offset + count)) (source : Source) :
    let limit := min (blockSize - offset % blockSize) count
    let grown := store.grow (blocksFor (offset + limit))
    (0 < limit ∧ grown.Valid ∧ offset + limit ≤ blockSize * grown.blocks.size) ∧
      store.receivePiece offset count source =
        match source.readThrough limit with
        | (.error error, rest) => ⟨.error (.stream error), grown, rest⟩
        | (.ok bytes, rest) => ⟨.ok bytes, grown.overwrite offset bytes, rest⟩ := by
  intro limit grown
  have hmod := Nat.mod_lt offset blockSize_pos
  have hle : limit ≤ count := Nat.min_le_right _ _
  have hpiece : Fits store.maxBlocks (offset + limit) :=
    ⟨Nat.le_trans (Nat.add_le_add_left hle _) hfits.1,
      Nat.le_trans (Nat.add_le_add_left hle _) hfits.2⟩
  have hneeded := (hvalid.blocksFor_le_iff_fits hpiece.1).2 hpiece
  refine ⟨⟨Nat.lt_min.2 ⟨by omega, hcount⟩, grow_valid hvalid hneeded, ?_⟩, ?_⟩
  · rw [size_blocks_grow]
    exact Nat.le_trans (le_mul_blocksFor _) (Nat.mul_le_mul_left _ (Nat.le_max_right _ _))
  · have hreserve : store.reserve (offset + limit) = .ok grown := by
      rw [reserve_eq, if_pos hneeded]
    unfold receivePiece
    dsimp only
    split
    case h_1 failure hfailed => cases hfailed.symm.trans hreserve
    case h_2 found hfound =>
      obtain rfl : found = grown := Except.ok.inj (hfound.symm.trans hreserve)
      rfl

/-- A transfer takes what draining the source takes, splices it in and reports it. The
induction is on the bytes that are still to come, one read at a time. -/
theorem receive_spec (count : Nat) {store : BlockStore} {offset : Nat} (source : Source)
    (hvalid : store.Valid) (hoffset : offset ≤ store.size)
    (hfits : Fits store.maxBlocks (offset + count)) :
    let moved := store.receive offset count source
    let drained := source.drain count
    moved.result = report drained ∧ moved.source = drained.rest ∧ moved.store.Valid ∧
      moved.store.maxBlocks = store.maxBlocks ∧
      moved.store.contents = splice store.contents offset drained.taken := by
  induction count using Nat.strongRecOn generalizing store offset source with
  | ind count ih =>
    intro moved drained
    by_cases hcount : count = 0
    · subst hcount
      have hmoved : moved = ⟨.ok 0, store, source⟩ := by
        simp only [moved]
        rw [receive, dif_pos rfl]
      have hdrained : drained = ⟨[], .ok (), source⟩ := Source.drain_zero source
      rw [hmoved, hdrained, splice_nil]
      exact ⟨rfl, rfl, hvalid, rfl, rfl⟩
    · obtain ⟨⟨hlimit, hgrown, hroom⟩, hpiece⟩ :=
        receivePiece_eq (Nat.pos_of_ne_zero hcount) hvalid hfits source
      have hread := source.length_taken_readThrough_le
        (min (blockSize - offset % blockSize) count)
      have hdrained := source.drain_eq_readThrough hlimit (Nat.min_le_right _ count)
      simp only [moved, drained]
      rw [receive, dif_neg hcount, hdrained]
      simp only [hpiece]
      rcases hrun : source.readThrough (min (blockSize - offset % blockSize) count) with
        ⟨outcome, rest⟩
      cases outcome with
      | error error =>
        simp only [report, splice_nil, contents_grow]
        exact ⟨trivial, trivial, hgrown, rfl, trivial⟩
      | ok bytes =>
        have hbytes : bytes.length ≤ min (blockSize - offset % blockSize) count :=
          hread bytes rest hrun
        have hfit : offset + bytes.length ≤ blockSize *
            (store.grow (blocksFor (offset +
              min (blockSize - offset % blockSize) count))).blocks.size := by omega
        have hmax : offset + bytes.length ≤ maxOffset :=
          Nat.le_trans (by omega) hfits.1
        have hput := overwrite_valid hgrown hfit hmax
        by_cases hempty : bytes = []
        · subst hempty
          have hnothing (count : Nat) : (store.grow count).overwrite offset [] = store.grow count :=
            overwrite_nil hoffset
          simp only [hnothing, dif_pos, if_pos, splice_nil, contents_grow]
          exact ⟨rfl, trivial, hgrown, rfl, trivial⟩
        · have hpos : 0 < bytes.length := List.length_pos_iff.2 hempty
          have hsum : offset + bytes.length + (count - bytes.length) = offset + count := by omega
          have hinside (grown : BlockStore) :
              offset + bytes.length ≤ (grown.overwrite offset bytes).size :=
            Nat.le_max_right _ _
          obtain ⟨hresult, hsource, hstore, hceiling, hcontents⟩ :=
            ih (count - bytes.length) (by omega) rest hput (hinside _) (by rw [hsum]; exact hfits)
          simp only [dif_neg hempty, if_neg hempty]
          refine ⟨?_, hsource, hstore, hceiling, ?_⟩
          · rw [hresult, report_after]
          · rw [hcontents, contents_overwrite hgrown hfit hempty, contents_grow,
              splice_append hempty]
            rfl

theorem transferFrom_valid {store : BlockStore} (hvalid : store.Valid) (offset count : Nat)
    (source : Source) :
    (store.transferFrom offset count source).store.Valid ∧
      (store.transferFrom offset count source).store.maxBlocks = store.maxBlocks := by
  unfold transferFrom
  split
  case isTrue => exact ⟨hvalid, rfl⟩
  case isFalse hpast =>
    split
    case isTrue => exact ⟨hvalid, rfl⟩
    case isFalse hmax =>
      unfold checkCapacity
      by_cases hneeded : blocksFor (offset + count) ≤ store.maxBlocks
      · rw [if_pos hneeded]
        have hfits := (hvalid.blocksFor_le_iff_fits (Nat.le_of_not_lt hmax)).1 hneeded
        obtain ⟨_, _, hmoved, hceiling, _⟩ :=
          receive_spec count source hvalid (Nat.le_of_not_lt hpast) hfits
        exact ⟨hmoved, hceiling⟩
      · rw [if_neg hneeded]
        exact ⟨hvalid, rfl⟩

/-- A transfer that is refused because its range does not fit has not touched the store. -/
theorem transferFrom_of_overfull {store : BlockStore} (hvalid : store.Valid)
    (offset count : Nat) (source : Source)
    (hfull : (store.transferFrom offset count source).result = .error .capacityExceeded) :
    (store.transferFrom offset count source).store = store := by
  rw [transferFrom] at hfull ⊢
  by_cases hpast : offset > store.size
  · rw [if_pos hpast]
  · rw [if_neg hpast] at hfull ⊢
    by_cases hmax : offset + count > maxOffset
    · rw [if_pos hmax]
    · rw [if_neg hmax] at hfull ⊢
      by_cases hneeded : blocksFor (offset + count) ≤ store.maxBlocks
      · have hchecked : store.checkCapacity (offset + count) = .ok () := if_pos hneeded
        have hfits := (hvalid.blocksFor_le_iff_fits (Nat.le_of_not_lt hmax)).1 hneeded
        obtain ⟨hresult, _⟩ := receive_spec count source hvalid (Nat.le_of_not_lt hpast) hfits
        simp only [hchecked] at hfull
        rw [hresult, report] at hfull
        split at hfull <;> cases hfull
      · have hrefused : store.checkCapacity (offset + count) = .error .capacityExceeded :=
          if_neg hneeded
        simp only [hrefused]

end BlockStore

end RamFs
