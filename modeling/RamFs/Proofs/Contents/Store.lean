import RamFs.Proofs.Contents.Bytes

/-!
The contents of a store as one list of bytes, and what each operation makes of them. A
store is valid when its blocks hold its contents, are within its ceiling, and are zero from
the end of the contents on. Every operation keeps a store valid; a write splices bytes into
the contents, truncating takes the first of them.
-/

namespace RamFs

/-- The bytes with `source` written at `offset`. A gap before it is filled with zeros;
writing no bytes changes nothing. -/
def splice (bytes : Bytes) (offset : Nat) (source : Bytes) : Bytes :=
  if source = [] then bytes
  else
    bytes.take offset ++ List.replicate (offset - bytes.length) 0 ++ source ++
      bytes.drop (offset + source.length)

@[simp]
theorem splice_nil (bytes : Bytes) (offset : Nat) : splice bytes offset [] = bytes := by
  simp [splice]

theorem length_splice {bytes : Bytes} {offset : Nat} {source : Bytes} (h : source ≠ []) :
    (splice bytes offset source).length = max bytes.length (offset + source.length) := by
  simp only [splice, if_neg h, List.length_append, List.length_take, List.length_replicate,
    List.length_drop]
  omega

theorem getElem?_splice {bytes : Bytes} {offset : Nat} {source : Bytes} (h : source ≠ [])
    (i : Nat) :
    (splice bytes offset source)[i]? =
      if offset ≤ i ∧ i < offset + source.length then source[i - offset]?
      else if i < bytes.length then bytes[i]?
      else if i < offset then some 0
      else none := by
  have hpos : 0 < source.length := List.length_pos_iff.2 h
  simp only [splice, if_neg h, List.getElem?_append, List.getElem?_take, List.getElem?_drop,
    List.getElem?_replicate, List.length_append, List.length_take, List.length_replicate]
  by_cases hbefore : i < offset
  · rw [if_pos (show i < min offset bytes.length + (offset - bytes.length) + source.length by
      omega), if_pos (show i < min offset bytes.length + (offset - bytes.length) by omega),
      if_neg (show ¬ (offset ≤ i ∧ i < offset + source.length) by omega)]
    by_cases hlength : i < bytes.length
    · rw [if_pos (by omega), if_pos hbefore, if_pos hlength]
    · rw [if_neg (by omega), if_pos (by omega), if_neg hlength, if_pos hbefore]
  · have hgap : min offset bytes.length + (offset - bytes.length) = offset := by omega
    rw [hgap, if_neg hbefore]
    by_cases hinside : i < offset + source.length
    · rw [if_pos hinside, if_pos ⟨by omega, hinside⟩]
    · rw [if_neg hinside, if_neg (by omega), if_neg hbefore]
      have hshift : offset + source.length + (i - (offset + source.length)) = i := by omega
      rw [hshift]
      split
      · rfl
      · exact List.getElem?_eq_none (by omega)

/-- Two pieces written one behind the other are one piece. -/
theorem splice_append {bytes : Bytes} {offset : Nat} {first second : Bytes} (h : first ≠ []) :
    splice (splice bytes offset first) (offset + first.length) second =
      splice bytes offset (first ++ second) := by
  by_cases hsecond : second = []
  · simp [hsecond]
  · have hboth : first ++ second ≠ [] := by simp [h]
    apply List.ext_getElem?
    intro i
    rw [getElem?_splice hsecond, getElem?_splice hboth, length_splice h, getElem?_splice h,
      List.getElem?_append, List.length_append]
    have hpos : 0 < first.length := List.length_pos_iff.2 h
    have hpos' : 0 < second.length := List.length_pos_iff.2 hsecond
    by_cases hlate : offset + first.length ≤ i ∧ i < offset + first.length + second.length
    · rw [if_pos hlate, if_pos (by omega), if_neg (by omega)]
      congr 1
      omega
    · rw [if_neg hlate]
      by_cases hearly : offset ≤ i ∧ i < offset + first.length
      · rw [if_pos hearly, if_pos (by omega), if_pos (by omega), if_pos (by omega)]
      · rw [if_neg hearly, if_neg (by omega : ¬ (offset ≤ i ∧ i < offset + _))]
        split
        · rfl
        · rw [if_neg (by omega), if_neg (by omega), if_neg (by omega)]

/-! ### Numbers of blocks -/

theorem one_le_blocksFor (size : Nat) : 1 ≤ blocksFor size :=
  Nat.le_max_left _ _

theorem blocksFor_le_div_add_one (size : Nat) : blocksFor size ≤ size / blockSize + 1 :=
  Nat.max_le.2 ⟨Nat.le_add_left 1 _, Nat.add_le_add_left (Nat.min_le_left 1 _) _⟩

theorem blocksFor_le_iff {size count : Nat} (hcount : 1 ≤ count) :
    blocksFor size ≤ count ↔ size ≤ blockSize * count := by
  have hsplit := Nat.div_add_mod size blockSize
  have hmod := Nat.mod_lt size blockSize_pos
  simp only [blocksFor]
  constructor
  · intro h
    by_cases hrem : size % blockSize = 0
    · have hle : size / blockSize ≤ count := by omega
      have := Nat.mul_le_mul_left blockSize hle
      omega
    · have hle : size / blockSize + 1 ≤ count := by omega
      have := Nat.mul_le_mul_left blockSize hle
      rw [Nat.mul_add] at this
      omega
  · intro h
    by_cases hrem : size % blockSize = 0
    · have hle : size / blockSize ≤ count := by
        apply Nat.le_of_mul_le_mul_left _ blockSize_pos
        omega
      omega
    · have hlt : size / blockSize < count := by
        apply Nat.lt_of_mul_lt_mul_left (a := blockSize)
        omega
      omega

theorem le_mul_blocksFor (size : Nat) : size ≤ blockSize * blocksFor size :=
  (blocksFor_le_iff (one_le_blocksFor size)).1 (Nat.le_refl _)

namespace BlockStore

/-- The bytes that a store holds, in order. -/
def contents (store : BlockStore) : Bytes :=
  window store.blocks 0 store.size

structure Valid (store : BlockStore) : Prop where
  blocks_pos : 1 ≤ store.blocks.size
  blocks_le : store.blocks.size ≤ store.maxBlocks
  size_le : store.size ≤ blockSize * store.blocks.size
  size_le_max : store.size ≤ maxOffset
  clean : ∀ position, store.size ≤ position → byteAt store.blocks position = 0

@[simp]
theorem length_contents (store : BlockStore) : store.contents.length = store.size := by
  simp [contents]

theorem getElem?_contents (store : BlockStore) (i : Nat) :
    store.contents[i]? = if i < store.size then some (byteAt store.blocks i) else none := by
  simp [contents, getElem?_window]

theorem new_valid (ceiling : Nat) : (new ceiling).Valid where
  blocks_pos := Nat.le_refl 1
  blocks_le := Nat.le_max_left _ _
  size_le := Nat.zero_le _
  size_le_max := Nat.zero_le _
  clean := by
    intro position _
    have hempty : byteAt #[] position = 0 := Block.getD_zero _
    have happend := byteAt_append_zero #[] 1 position
    rw [hempty] at happend
    exact happend

@[simp]
theorem contents_new (ceiling : Nat) : (new ceiling).contents = [] := rfl

/-! ### Reading -/

/-- A read gives exactly the bytes of the contents that it asks for, and nothing at all
from the end on. -/
theorem read?_eq (store : BlockStore) (offset count : Nat) :
    store.read? offset count =
      if offset < store.contents.length then some ((store.contents.drop offset).take count)
      else none := by
  simp only [read?, length_contents]
  split
  · rw [flatten_slices, contents, take_drop_window]
  · rfl

/-- A read of as many bytes as there are gives all of them. -/
theorem read?_all (store : BlockStore) : (store.read? 0 store.size).getD [] = store.contents := by
  rw [read?_eq]
  split
  case isTrue => rw [Option.getD_some, List.drop_zero, ← length_contents, List.take_length]
  case isFalse hsize => exact (List.length_eq_zero_iff.1 (Nat.eq_zero_of_not_pos hsize)).symm

/-! ### Growing -/

/-- The store with zero blocks added until it has at least `count`. -/
def grow (store : BlockStore) (count : Nat) : BlockStore :=
  { store with
    blocks := store.blocks ++ Array.replicate (count - store.blocks.size) Block.zero }

theorem reserve_eq (store : BlockStore) (required : Nat) :
    store.reserve required =
      if blocksFor required ≤ store.maxBlocks then .ok (store.grow (blocksFor required))
      else .error .capacityExceeded := by
  simp only [reserve, checkCapacity]
  split <;> rfl

@[simp]
theorem byteAt_grow (store : BlockStore) (count position : Nat) :
    byteAt (store.grow count).blocks position = byteAt store.blocks position :=
  byteAt_append_zero store.blocks _ position

@[simp]
theorem size_blocks_grow (store : BlockStore) (count : Nat) :
    (store.grow count).blocks.size = max store.blocks.size count := by
  simp only [grow, Array.size_append, Array.size_replicate]
  omega

@[simp]
theorem contents_grow (store : BlockStore) (count : Nat) :
    (store.grow count).contents = store.contents := by
  apply List.ext_getElem?
  intro i
  rw [getElem?_contents, getElem?_contents, byteAt_grow]
  rfl

theorem grow_valid {store : BlockStore} (hvalid : store.Valid) {count : Nat}
    (hceiling : count ≤ store.maxBlocks) : (store.grow count).Valid where
  blocks_pos := by
    rw [size_blocks_grow]
    exact Nat.le_trans hvalid.blocks_pos (Nat.le_max_left _ _)
  blocks_le := by
    rw [size_blocks_grow]
    exact Nat.max_le.2 ⟨hvalid.blocks_le, hceiling⟩
  size_le := by
    rw [size_blocks_grow]
    exact Nat.le_trans hvalid.size_le (Nat.mul_le_mul_left _ (Nat.le_max_left _ _))
  size_le_max := hvalid.size_le_max
  clean := by
    intro position hposition
    rw [byteAt_grow]
    exact hvalid.clean position hposition

/-! ### Writing -/

@[simp]
theorem size_overwrite (store : BlockStore) (offset : Nat) (source : Bytes) :
    (store.overwrite offset source).size = max store.size (offset + source.length) := rfl

@[simp]
theorem blocks_overwrite (store : BlockStore) (offset : Nat) (source : Bytes) :
    (store.overwrite offset source).blocks = put store.blocks offset source := rfl

theorem size_blocks_overwrite (store : BlockStore) (offset : Nat) (source : Bytes) :
    (store.overwrite offset source).blocks.size = store.blocks.size :=
  size_put _ _ _

/-- Bytes laid into allocated blocks are spliced into the contents. -/
theorem contents_overwrite {store : BlockStore} (hvalid : store.Valid) {offset : Nat}
    {source : Bytes} (hfit : offset + source.length ≤ blockSize * store.blocks.size)
    (hsource : source ≠ []) :
    (store.overwrite offset source).contents = splice store.contents offset source := by
  have hpos : 0 < source.length := List.length_pos_iff.2 hsource
  apply List.ext_getElem?
  intro i
  rw [getElem?_contents, getElem?_splice hsource, length_contents, getElem?_contents,
    size_overwrite, blocks_overwrite, byteAt_put _ _ _ _ hfit]
  by_cases hinside : offset ≤ i ∧ i < offset + source.length
  · rw [if_pos hinside, if_pos hinside, if_pos (by omega), List.getD_eq_getElem?_getD,
      List.getElem?_eq_getElem (by omega)]
    rfl
  · rw [if_neg hinside, if_neg hinside]
    by_cases hold : i < store.size
    · rw [if_pos hold, if_pos hold, if_pos (by omega)]
    · rw [if_neg hold, hvalid.clean i (by omega)]
      by_cases hgap : i < offset
      · rw [if_pos hgap, if_pos (by omega)]
      · rw [if_neg hgap, if_neg (by omega)]

/-- Laying no bytes inside the contents changes nothing. -/
theorem overwrite_nil {store : BlockStore} {offset : Nat} (hoffset : offset ≤ store.size) :
    store.overwrite offset [] = store := by
  have hsize : max store.size (offset + 0) = store.size := by omega
  have hblocks : put store.blocks offset [] = store.blocks := by rw [put, dif_pos rfl]
  simp only [overwrite, List.length_nil, hsize, hblocks]

theorem overwrite_valid {store : BlockStore} (hvalid : store.Valid) {offset : Nat}
    {source : Bytes} (hfit : offset + source.length ≤ blockSize * store.blocks.size)
    (hmax : offset + source.length ≤ maxOffset) : (store.overwrite offset source).Valid where
  blocks_pos := by
    rw [size_blocks_overwrite]
    exact hvalid.blocks_pos
  blocks_le := by
    rw [size_blocks_overwrite]
    exact hvalid.blocks_le
  size_le := by
    rw [size_blocks_overwrite]
    exact Nat.max_le.2 ⟨hvalid.size_le, hfit⟩
  size_le_max := Nat.max_le.2 ⟨hvalid.size_le_max, hmax⟩
  clean := by
    intro position hposition
    rw [size_overwrite] at hposition
    rw [blocks_overwrite, byteAt_put _ _ _ _ hfit, if_neg (by omega)]
    exact hvalid.clean position (by omega)

/-- Whether contents that end at `finish` fit into a store. -/
def Fits (ceiling finish : Nat) : Prop :=
  finish ≤ maxOffset ∧ finish ≤ blockSize * ceiling

instance (ceiling finish : Nat) : Decidable (Fits ceiling finish) :=
  inferInstanceAs (Decidable (_ ∧ _))

theorem Valid.ceiling_pos {store : BlockStore} (hvalid : store.Valid) : 1 ≤ store.maxBlocks :=
  Nat.le_trans hvalid.blocks_pos hvalid.blocks_le

theorem Valid.blocksFor_le_iff_fits {store : BlockStore} (hvalid : store.Valid) {finish : Nat}
    (hmax : finish ≤ maxOffset) :
    blocksFor finish ≤ store.maxBlocks ↔ Fits store.maxBlocks finish := by
  rw [blocksFor_le_iff hvalid.ceiling_pos, Fits]
  exact ⟨fun h => ⟨hmax, h⟩, fun h => h.2⟩

/-- A write is refused exactly when its end does not fit, and then for that reason. -/
theorem write_eq {store : BlockStore} (hvalid : store.Valid) (offset : Nat) (source : Bytes) :
    store.write offset source =
      if source = [] then .ok store
      else if Fits store.maxBlocks (offset + source.length) then
        .ok ((store.grow (blocksFor (offset + source.length))).overwrite offset source)
      else .error .capacityExceeded := by
  rw [write]
  by_cases hsource : source = []
  · rw [if_pos hsource, if_pos hsource]
  · rw [if_neg hsource, if_neg hsource]
    by_cases hmax : offset + source.length ≤ maxOffset
    · rw [if_neg (by omega), reserve_eq]
      by_cases hfits : Fits store.maxBlocks (offset + source.length)
      · rw [if_pos ((hvalid.blocksFor_le_iff_fits hmax).2 hfits), if_pos hfits]
        rfl
      · rw [if_neg (mt (hvalid.blocksFor_le_iff_fits hmax).1 hfits), if_neg hfits]
        rfl
    · rw [if_pos (by omega), if_neg (fun h => hmax h.1)]

/-- What a write that is not refused leaves behind. -/
theorem written_spec {store : BlockStore} (hvalid : store.Valid) {offset : Nat}
    {source : Bytes} (hsource : source ≠ [])
    (hfits : Fits store.maxBlocks (offset + source.length)) :
    let written := (store.grow (blocksFor (offset + source.length))).overwrite offset source
    written.Valid ∧ written.maxBlocks = store.maxBlocks ∧
      written.contents = splice store.contents offset source := by
  have hneeded := (hvalid.blocksFor_le_iff_fits hfits.1).2 hfits
  have hgrown := grow_valid hvalid hneeded
  have hroom : offset + source.length ≤
      blockSize * (store.grow (blocksFor (offset + source.length))).blocks.size := by
    rw [size_blocks_grow]
    exact Nat.le_trans (le_mul_blocksFor _) (Nat.mul_le_mul_left _ (Nat.le_max_right _ _))
  refine ⟨overwrite_valid hgrown hroom hfits.1, rfl, ?_⟩
  rw [contents_overwrite hgrown hroom hsource, contents_grow]

theorem write_valid {store written : BlockStore} (hvalid : store.Valid) {offset : Nat}
    {source : Bytes} (hwrite : store.write offset source = .ok written) :
    written.Valid ∧ written.maxBlocks = store.maxBlocks := by
  rw [write_eq hvalid] at hwrite
  split at hwrite
  case isTrue =>
    cases hwrite
    exact ⟨hvalid, rfl⟩
  case isFalse hsource =>
    split at hwrite
    case isFalse => cases hwrite
    case isTrue hfits =>
      cases hwrite
      obtain ⟨hwritten, hceiling, _⟩ := written_spec hvalid hsource hfits
      exact ⟨hwritten, hceiling⟩

/-- What is written at the start of an empty store is all that it holds. -/
theorem contents_write_empty {store written : BlockStore} {source : Bytes}
    (hempty : store.size = 0) (hwrite : store.write 0 source = .ok written) :
    written.contents = source := by
  unfold write at hwrite
  split at hwrite
  case isTrue hsource =>
    cases hwrite
    rw [hsource]
    exact List.length_eq_zero_iff.1 (store.length_contents.trans hempty)
  case isFalse hsource =>
    rw [Nat.zero_add, reserve_eq] at hwrite
    split at hwrite
    case isTrue => cases hwrite
    case isFalse =>
      split at hwrite
      case isFalse => cases hwrite
      case isTrue =>
        cases hwrite
        have hfit : 0 + source.length ≤
            blockSize * (store.grow (blocksFor source.length)).blocks.size := by
          rw [size_blocks_grow, Nat.zero_add]
          exact Nat.le_trans (le_mul_blocksFor _) (Nat.mul_le_mul_left _ (Nat.le_max_right _ _))
        have hsize : (store.grow (blocksFor source.length)).size = 0 := hempty
        apply List.ext_getElem?
        intro i
        rw [getElem?_contents, size_overwrite, blocks_overwrite, byteAt_put _ _ _ _ hfit, hsize,
          Nat.zero_add, Nat.zero_max, Nat.sub_zero]
        split
        case isTrue hi =>
          rw [if_pos ⟨Nat.zero_le _, hi⟩, List.getD_eq_getElem?_getD, List.getElem?_eq_getElem hi]
          rfl
        case isFalse hi => exact (List.getElem?_eq_none (Nat.le_of_not_lt hi)).symm

/-! ### Truncating -/

/-- Truncating to nothing leaves nothing, whatever the blocks hold. -/
theorem size_truncate_zero (store : BlockStore) : (store.truncate 0).size = 0 := by
  unfold truncate
  split
  case isTrue hsize => exact Nat.le_zero.1 hsize
  case isFalse => rfl

/-- Truncating clears every byte from the new end on: the tail of the block it falls into,
and the blocks behind that one by dropping them. -/
theorem byteAt_truncate {store : BlockStore} (hvalid : store.Valid) {size : Nat}
    (hsize : size < store.size) (position : Nat) :
    byteAt (store.truncate size).blocks position =
      if position < size then byteAt store.blocks position else 0 := by
  have hblocks : size / blockSize < store.blocks.size := by
    apply (Nat.div_lt_iff_lt_mul blockSize_pos).2
    rw [Nat.mul_comm]
    exact Nat.lt_of_lt_of_le hsize hvalid.size_le
  have hmod := Nat.mod_lt position blockSize_pos
  have hwithin := Nat.mod_lt size blockSize_pos
  have hsplit := Nat.div_add_mod size blockSize
  have hsplit' := Nat.div_add_mod position blockSize
  have hlow : size ≤ blockSize * blocksFor size := le_mul_blocksFor size
  have hhigh := blocksFor_le_div_add_one size
  rw [truncate, if_neg (by omega), byteAt_take, byteAt_modify _ _ _ _ hblocks]
  by_cases hbefore : position < size
  · have hkept : position / blockSize < blocksFor size := by
      apply (Nat.div_lt_iff_lt_mul blockSize_pos).2
      rw [Nat.mul_comm]
      exact Nat.lt_of_lt_of_le hbefore hlow
    rw [if_pos hbefore, if_pos hkept]
    by_cases hblock : position / blockSize = size / blockSize
    · rw [hblock] at hsplit'
      rw [if_pos hblock, Block.clearFrom, Block.getD_overlay _ (by omega) hmod,
        if_neg (by omega), byteAt, hblock]
    · rw [if_neg hblock]
  · rw [if_neg hbefore]
    by_cases hkept : position / blockSize < blocksFor size
    · have hle : size / blockSize ≤ position / blockSize :=
        Nat.div_le_div_right (Nat.le_of_not_lt hbefore)
      have hblock : position / blockSize = size / blockSize := by omega
      rw [hblock] at hsplit'
      rw [if_pos hkept, if_pos hblock, Block.clearFrom, Block.getD_overlay _ (by omega) hmod,
        List.length_replicate, if_pos (by omega), List.getD_eq_getElem?_getD,
        List.getElem?_replicate]
      split <;> rfl
    · rw [if_neg hkept]

theorem truncate_spec {store : BlockStore} (hvalid : store.Valid) (size : Nat) :
    (store.truncate size).Valid ∧ (store.truncate size).maxBlocks = store.maxBlocks ∧
      (store.truncate size).contents = store.contents.take size := by
  by_cases hsize : store.size ≤ size
  · have hsame : store.truncate size = store := if_pos hsize
    rw [hsame, List.take_of_length_le (by rw [length_contents]; exact hsize)]
    exact ⟨hvalid, rfl, rfl⟩
  · have hlt : size < store.size := by omega
    have hnew : (store.truncate size).size = size := by rw [truncate, if_neg hsize]
    have hceiling : (store.truncate size).maxBlocks = store.maxBlocks := by
      rw [truncate, if_neg hsize]
    have hcount : (store.truncate size).blocks.size = min (blocksFor size) store.blocks.size := by
      rw [truncate, if_neg hsize]
      simp
    have hneeded : blocksFor size ≤ store.blocks.size :=
      (blocksFor_le_iff hvalid.blocks_pos).2 (by have := hvalid.size_le; omega)
    refine ⟨⟨?_, ?_, ?_, ?_, ?_⟩, hceiling, ?_⟩
    · rw [hcount]
      exact Nat.le_min.2 ⟨one_le_blocksFor size, hvalid.blocks_pos⟩
    · rw [hcount, hceiling]
      exact Nat.le_trans (Nat.min_le_right _ _) hvalid.blocks_le
    · rw [hcount, hnew, Nat.min_eq_left hneeded]
      exact le_mul_blocksFor size
    · rw [hnew]
      exact Nat.le_trans (Nat.le_of_lt hlt) hvalid.size_le_max
    · intro position hposition
      rw [hnew] at hposition
      rw [byteAt_truncate hvalid hlt, if_neg (by omega)]
    · apply List.ext_getElem?
      intro i
      rw [getElem?_contents, hnew, List.getElem?_take, getElem?_contents,
        byteAt_truncate hvalid hlt]
      by_cases hi : i < size
      · rw [if_pos hi, if_pos hi, if_pos hi, if_pos (by omega)]
      · rw [if_neg hi, if_neg hi]

end BlockStore

end RamFs
