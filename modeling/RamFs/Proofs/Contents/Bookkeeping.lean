import RamFs.Proofs.Contents.Flat

/-!
How many blocks a store has. It has those that its contents need, and of blocks that its contents
do not reach into one at most: a transfer allocates the block at the end before it knows whether
anything will come. The count is therefore no function of the size, but it is bound by the size
from both sides, in every state that any calls on a file and on its duplicates lead to.
-/

namespace RamFs

/-! ### What every call keeps -/

namespace Storage

variable {φ : Type} {storage : Storage φ} {P : φ → Prop}

/-- What holds of a file holds of whatever a call makes of it. -/
structure Keeps (storage : Storage φ) (P : φ → Prop) : Prop where
  write : ∀ {file written offset bytes}, P file →
    storage.write file offset bytes = .ok written → P written
  append : ∀ {file written offset bytes}, P file →
    storage.append file bytes = .ok (offset, written) → P written
  truncate : ∀ {file} size, P file → P (storage.truncate file size)
  transferFrom : ∀ {file} offset count source, P file →
    P (storage.transferFrom file offset count source).2.1
  duplicate : ∀ {file}, P file → P (storage.duplicate file)

theorem forall_mem_set {files : List φ} (hfiles : ∀ file ∈ files, P file) {file : φ}
    (hfile : P file) (index : Nat) : ∀ other ∈ files.set index file, P other := by
  intro other hother
  rcases List.mem_or_eq_of_mem_set hother with hold | rfl
  · exact hfiles other hold
  · exact hfile

/-- One call, on whichever file. -/
theorem Keeps.serve (h : storage.Keeps P) {files : List φ} (hfiles : ∀ file ∈ files, P file)
    (index : Nat) (call : FileCall) : ∀ file ∈ (storage.serve files index call).2, P file := by
  simp only [Storage.serve]
  cases hfile : files[index]? with
  | none => exact hfiles
  | some file =>
    have hholds : P file := hfiles file (List.mem_of_getElem? hfile)
    cases call with
    | size | read => exact hfiles
    | write offset bytes =>
      cases hwrite : storage.write file offset bytes with
      | error failure => simpa only [hwrite] using hfiles
      | ok written =>
        simpa only [hwrite] using forall_mem_set hfiles (h.write hholds hwrite) index
    | append bytes =>
      cases happend : storage.append file bytes with
      | error failure => simpa only [happend] using hfiles
      | ok appended =>
        obtain ⟨offset, written⟩ := appended
        simpa only [happend] using forall_mem_set hfiles (h.append hholds happend) index
    | truncate size => exact forall_mem_set hfiles (h.truncate size hholds) index
    | transferFrom offset count source =>
      exact forall_mem_set hfiles (h.transferFrom offset count source hholds) index
    | duplicate =>
      intro other hother
      rcases List.mem_append.1 hother with hold | hnew
      · exact hfiles other hold
      · rw [List.mem_singleton.1 hnew]
        exact h.duplicate hholds

theorem Keeps.run (h : storage.Keeps P) {files : List φ} (hfiles : ∀ file ∈ files, P file)
    (calls : List (Nat × FileCall)) : ∀ file ∈ (storage.run files calls).2, P file := by
  induction calls generalizing files with
  | nil => exact hfiles
  | cons call calls ih => exact ih (h.serve hfiles call.1 call.2)

end Storage

/-- For files in blocks it is enough to look at what becomes of the store. -/
theorem blockFiles_keeps {P : BlockStore → Prop}
    (hwrite : ∀ {store written offset bytes}, P store →
      store.write offset bytes = .ok written → P written)
    (htruncate : ∀ {store} size, P store → P (store.truncate size))
    (htransfer : ∀ {store} offset count source, P store →
      P (store.transferFrom offset count source).store) :
    blockFiles.Keeps fun inode => P inode.store where
  write := by
    intro inode written offset bytes hstore hwritten
    cases hrun : inode.store.write offset bytes with
    | error failure => simp [blockFiles, hrun, bind, Except.bind] at hwritten
    | ok store =>
      simp only [blockFiles, hrun, bind, Except.bind, pure, Except.pure, Except.ok.injEq]
        at hwritten
      subst hwritten
      exact hwrite hstore hrun
  append := by
    intro inode written offset bytes hstore hwritten
    cases hrun : inode.store.write inode.size bytes with
    | error failure => simp [blockFiles, Inode.append, hrun, bind, Except.bind] at hwritten
    | ok store =>
      simp only [blockFiles, Inode.append, hrun, bind, Except.bind, pure, Except.pure,
        Except.ok.injEq, Prod.mk.injEq] at hwritten
      obtain ⟨_, rfl⟩ := hwritten
      exact hwrite hstore hrun
  truncate size hstore := htruncate size hstore
  transferFrom offset count source hstore := htransfer offset count source hstore
  duplicate hstore := hstore

/-! ### Blocks and size -/

namespace BlockStore

variable {store written : BlockStore} {offset count : Nat} {source : Source}

/-- The store has the blocks that are full and one more at most. -/
def Trim (store : BlockStore) : Prop :=
  store.blocks.size ≤ store.size / blockSize + 1

theorem Trim.grow (h : store.Trim) (hcount : count ≤ store.size / blockSize + 1) :
    (store.grow count).Trim := by
  rw [Trim, size_blocks_grow]
  exact Nat.max_le.2 ⟨h, hcount⟩

theorem Trim.overwrite (h : store.Trim) (offset : Nat) (bytes : Bytes) :
    (store.overwrite offset bytes).Trim := by
  rw [Trim, size_blocks_overwrite, size_overwrite]
  have hsize := Nat.div_le_div_right (c := blockSize)
    (Nat.le_max_left store.size (offset + bytes.length))
  exact Nat.le_trans h (Nat.succ_le_succ hsize)

/-- What is read in one go ends in the block it begins in. -/
theorem blocksFor_piece_le (offset count : Nat) :
    blocksFor (offset + min (blockSize - offset % blockSize) count) ≤ offset / blockSize + 1 := by
  have hsplit := Nat.div_add_mod offset blockSize
  have hmod := Nat.mod_lt offset blockSize_pos
  rw [blocksFor_le_iff (Nat.le_add_left 1 _), Nat.mul_add]
  omega

theorem Trim.write (h : store.Trim) {bytes : Bytes}
    (hwrite : store.write offset bytes = .ok written) : written.Trim := by
  unfold BlockStore.write at hwrite
  split at hwrite
  case isTrue =>
    cases hwrite
    exact h
  case isFalse =>
    split at hwrite
    case isTrue => cases hwrite
    case isFalse =>
      rw [reserve_eq] at hwrite
      split at hwrite
      case isFalse => cases hwrite
      case isTrue =>
        cases hwrite
        rw [Trim, size_blocks_overwrite, size_blocks_grow, size_overwrite]
        have hold := Nat.div_le_div_right (c := blockSize)
          (Nat.le_max_left store.size (offset + bytes.length))
        have hnew := Nat.div_le_div_right (c := blockSize)
          (Nat.le_max_right store.size (offset + bytes.length))
        exact Nat.max_le.2 ⟨Nat.le_trans h (Nat.succ_le_succ hold),
          Nat.le_trans (blocksFor_le_div_add_one _) (Nat.succ_le_succ hnew)⟩

theorem Trim.truncate (h : store.Trim) (size : Nat) : (store.truncate size).Trim := by
  unfold BlockStore.truncate
  split
  case isTrue => exact h
  case isFalse =>
    simp only [Trim, Array.take_eq_extract, Array.size_extract, Nat.sub_zero]
    exact Nat.le_trans (Nat.min_le_left _ _) (blocksFor_le_div_add_one size)

/-- One read of a transfer allocates no block behind the one that the read is into. -/
theorem Trim.receivePiece (h : store.Trim) (hoffset : offset ≤ store.size) (count : Nat)
    (source : Source) :
    (store.receivePiece offset count source).store.Trim ∧
      ∀ bytes, (store.receivePiece offset count source).result = .ok bytes →
        offset + bytes.length ≤ (store.receivePiece offset count source).store.size := by
  have hgrown := h.grow (Nat.le_trans (blocksFor_piece_le offset count)
    (Nat.succ_le_succ (Nat.div_le_div_right hoffset)))
  unfold BlockStore.receivePiece
  dsimp only
  rw [reserve_eq]
  split
  case h_1 failure hrefused =>
    exact ⟨h, fun bytes hbytes => nomatch hbytes⟩
  case h_2 grown hreserved =>
    obtain rfl : store.grow _ = grown := by
      split at hreserved
      · exact Except.ok.inj hreserved
      · cases hreserved
    split
    case h_1 => exact ⟨hgrown, fun bytes hbytes => nomatch hbytes⟩
    case h_2 =>
      refine ⟨hgrown.overwrite _ _, fun bytes hbytes => ?_⟩
      cases hbytes
      exact Nat.le_max_right _ _

/-- The induction follows the transfer, one read at a time; the next read begins no later than
the contents end. -/
theorem Trim.receive (h : store.Trim) (hoffset : offset ≤ store.size) :
    (store.receive offset count source).store.Trim := by
  fun_induction BlockStore.receive store offset count source with
  | case1 => exact h
  | case2 store offset count source hcount piece failure hpiece =>
    exact (h.receivePiece hoffset count source).1
  | case3 store offset count source hcount piece hpiece =>
    exact (h.receivePiece hoffset count source).1
  | case4 store offset count source hcount piece bytes hpiece hbytes rest ih =>
    obtain ⟨hnext, hinside⟩ := h.receivePiece hoffset count source
    exact ih hnext (hinside bytes hpiece)

theorem Trim.transferFrom (h : store.Trim) (offset count : Nat) (source : Source) :
    (store.transferFrom offset count source).store.Trim := by
  unfold BlockStore.transferFrom
  split
  case isTrue => exact h
  case isFalse hinside =>
    split
    case isTrue => exact h
    case isFalse =>
      split
      · exact h
      · exact h.receive (Nat.le_of_not_lt hinside)

theorem Trim.new (ceiling : Nat) : (new ceiling).Trim :=
  Nat.le_add_left 1 _

/-! ### Stores of files -/

/-- The store of a file that any calls on an empty file and its duplicates lead to. -/
def Arises (store : BlockStore) (ceiling : Nat) : Prop :=
  ∃ calls, ∃ inode ∈ (blockFiles.run [Inode.new ceiling] calls).2, inode.store = store

theorem Arises.of_keeps {P : BlockStore → Prop} {ceiling : Nat} (h : store.Arises ceiling)
    (hkeeps : blockFiles.Keeps fun inode => P inode.store) (hnew : P (new ceiling)) : P store := by
  obtain ⟨calls, inode, hinode, rfl⟩ := h
  refine hkeeps.run ?_ calls inode hinode
  intro file hfile
  rw [List.mem_singleton.1 hfile]
  exact hnew

theorem Arises.trim {ceiling : Nat} (h : store.Arises ceiling) : store.Trim :=
  h.of_keeps (P := Trim) (blockFiles_keeps (fun h hwrite => h.write hwrite)
    (fun size h => h.truncate size) fun offset count source h => h.transferFrom offset count source)
    (Trim.new ceiling)

/-- The ceiling of a file is one for good. -/
theorem Arises.valid {ceiling : Nat} (h : store.Arises ceiling) :
    store.Valid ∧ store.maxBlocks = max 1 (min ceiling RamFs.maxBlocks) := by
  let P : BlockStore → Prop := fun store =>
    store.Valid ∧ store.maxBlocks = max 1 (min ceiling RamFs.maxBlocks)
  have hkeeps : blockFiles.Keeps fun inode => P inode.store := by
    apply blockFiles_keeps (P := P)
    case hwrite =>
      rintro store written offset bytes ⟨hvalid, hceiling⟩ hwrite
      obtain ⟨hwritten, hsame⟩ := write_valid hvalid hwrite
      exact ⟨hwritten, hsame.trans hceiling⟩
    case htruncate =>
      rintro store size ⟨hvalid, hceiling⟩
      obtain ⟨htruncated, hsame, _⟩ := truncate_spec hvalid size
      exact ⟨htruncated, hsame.trans hceiling⟩
    case htransfer =>
      rintro store offset count source ⟨hvalid, hceiling⟩
      obtain ⟨hfilled, hsame⟩ := transferFrom_valid hvalid offset count source
      exact ⟨hfilled, hsame.trans hceiling⟩
  exact h.of_keeps (P := P) hkeeps ⟨new_valid ceiling, rfl⟩

end BlockStore

end RamFs
