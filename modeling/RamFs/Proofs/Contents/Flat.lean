import Mathlib.Data.List.Forall2
import RamFs.Proofs.Contents.Transfer

/-!
Files that are nothing but a list of bytes under a ceiling, and the proof that files kept in
blocks behave like them. A run makes any calls on any number of files; it begins with one
empty file, and further files come from duplicating others. Files of either kind give the
same reply to every call of every run, and show the same sizes and bytes after it.
-/

namespace RamFs

/-! ### Files and calls -/

/-- A way to keep the contents of files. -/
structure Storage (φ : Type) where
  size : φ → Nat
  read? : φ → Nat → Nat → Option Bytes
  write : φ → Nat → Bytes → Except Failure φ
  append : φ → Bytes → Except Failure (Nat × φ)
  truncate : φ → Nat → φ
  /-- The outcome, the file and what the source has left. -/
  transferFrom : φ → Nat → Nat → Source → Except Failure Nat × φ × Source
  duplicate : φ → φ

inductive FileCall where
  | size
  | read (offset count : Nat)
  | write (offset : Nat) (bytes : Bytes)
  | append (bytes : Bytes)
  | truncate (size : Nat)
  | transferFrom (offset count : Nat) (source : Source)
  | duplicate

inductive FileReply where
  | size (size : Nat)
  | bytes (found : Option Bytes)
  | written (result : Except Failure Unit)
  /-- Where the bytes landed. -/
  | appended (result : Except Failure Nat)
  | moved (result : Except Failure Nat) (rest : Source)
  | done
  | noSuchFile

namespace FileReply

/-- Whether the call was refused because the contents would not fit. -/
def isOverfull : FileReply → Prop
  | written result => result = .error .capacityExceeded
  | appended result => result = .error .capacityExceeded
  | moved result _ => result = .error .capacityExceeded
  | _ => False

end FileReply

namespace Storage

variable {φ : Type}

/-- One call on the file with the given number. A duplicate gets the next free number. -/
def serve (storage : Storage φ) (files : List φ) (index : Nat) (call : FileCall) :
    FileReply × List φ :=
  match files[index]? with
  | none => (.noSuchFile, files)
  | some file =>
    match call with
    | .size => (.size (storage.size file), files)
    | .read offset count => (.bytes (storage.read? file offset count), files)
    | .write offset bytes =>
      match storage.write file offset bytes with
      | .ok file => (.written (.ok ()), files.set index file)
      | .error failure => (.written (.error failure), files)
    | .append bytes =>
      match storage.append file bytes with
      | .ok (offset, file) => (.appended (.ok offset), files.set index file)
      | .error failure => (.appended (.error failure), files)
    | .truncate size => (.done, files.set index (storage.truncate file size))
    | .transferFrom offset count source =>
      let (result, file, rest) := storage.transferFrom file offset count source
      (.moved result rest, files.set index file)
    | .duplicate => (.done, files ++ [storage.duplicate file])

/-- Calls in order, each with the number of its file: the replies, and the files then. -/
def run (storage : Storage φ) : List φ → List (Nat × FileCall) → List FileReply × List φ
  | files, [] => ([], files)
  | files, (index, call) :: calls =>
    let (reply, files) := storage.serve files index call
    let (replies, files) := storage.run files calls
    (reply :: replies, files)

end Storage

/-- Contents kept in blocks. -/
def blockFiles : Storage Inode where
  size := Inode.size
  read? inode := inode.store.read?
  write inode offset bytes := do
    let store ← inode.store.write offset bytes
    return { inode with store }
  append := Inode.append
  truncate := Inode.truncate
  transferFrom inode offset count source :=
    let moved := inode.store.transferFrom offset count source
    (moved.result, { inode with store := moved.store }, moved.source)
  duplicate := Inode.duplicate

/-! ### Flat files -/

structure FlatFile where
  /-- Ceiling on the number of blocks that the contents would take. -/
  ceiling : Nat
  bytes : Bytes
  deriving DecidableEq, Repr

namespace FlatFile

def read? (file : FlatFile) (offset count : Nat) : Option Bytes :=
  if offset < file.bytes.length then some ((file.bytes.drop offset).take count) else none

def write (file : FlatFile) (offset : Nat) (source : Bytes) : Except Failure FlatFile :=
  if source = [] then .ok file
  else if BlockStore.Fits file.ceiling (offset + source.length) then
    .ok { file with bytes := splice file.bytes offset source }
  else .error .capacityExceeded

def append (file : FlatFile) (source : Bytes) : Except Failure (Nat × FlatFile) := do
  let written ← file.write file.bytes.length source
  return (file.bytes.length, written)

def truncate (file : FlatFile) (size : Nat) : FlatFile :=
  { file with bytes := file.bytes.take size }

/-- Splices in what the source gives, whether or not the source fails in the end. -/
def transferFrom (file : FlatFile) (offset count : Nat) (source : Source) :
    Except Failure Nat × FlatFile × Source :=
  if offset > file.bytes.length then (.ok 0, file, source)
  else if BlockStore.Fits file.ceiling (offset + count) then
    let drained := source.drain count
    (BlockStore.report drained, { file with bytes := splice file.bytes offset drained.taken },
      drained.rest)
  else (.error .capacityExceeded, file, source)

end FlatFile

/-- Contents kept as they are. -/
def flatFiles : Storage FlatFile where
  size file := file.bytes.length
  read? := FlatFile.read?
  write := FlatFile.write
  append := FlatFile.append
  truncate := FlatFile.truncate
  transferFrom := FlatFile.transferFrom
  duplicate := id

/-! ### Agreement -/

/-- A file in blocks and a flat file with the same contents under the same ceiling. -/
structure Agrees (inode : Inode) (file : FlatFile) : Prop where
  valid : inode.store.Valid
  ceiling : inode.store.maxBlocks = file.ceiling
  contents : inode.store.contents = file.bytes

namespace Agrees

variable {inode : Inode} {file : FlatFile}

theorem size (h : Agrees inode file) : inode.size = file.bytes.length := by
  rw [← h.contents, BlockStore.length_contents]
  rfl

theorem read? (h : Agrees inode file) (offset count : Nat) :
    inode.store.read? offset count = file.read? offset count := by
  rw [BlockStore.read?_eq, h.contents]
  rfl

theorem new (ceiling : Nat) :
    Agrees (Inode.new ceiling) ⟨max 1 (min ceiling maxBlocks), []⟩ where
  valid := BlockStore.new_valid ceiling
  ceiling := rfl
  contents := rfl

/-- Agreement is about the contents; the locks and the names of an inode do not matter. -/
theorem duplicate (h : Agrees inode file) : Agrees inode.duplicate file :=
  ⟨h.valid, h.ceiling, h.contents⟩

theorem truncate (h : Agrees inode file) (size : Nat) :
    Agrees (inode.truncate size) (file.truncate size) := by
  obtain ⟨hvalid, hceiling, hcontents⟩ := BlockStore.truncate_spec h.valid size
  refine ⟨hvalid, hceiling.trans h.ceiling, ?_⟩
  exact hcontents.trans (by rw [h.contents]; rfl)

/-- A write succeeds on both files or is refused on both. -/
theorem write (h : Agrees inode file) (offset : Nat) (source : Bytes) :
    (∃ store written, inode.store.write offset source = .ok store ∧
        file.write offset source = .ok written ∧ Agrees { inode with store } written) ∨
      (inode.store.write offset source = .error .capacityExceeded ∧
        file.write offset source = .error .capacityExceeded) := by
  rw [BlockStore.write_eq h.valid, FlatFile.write, h.ceiling]
  by_cases hsource : source = []
  · rw [if_pos hsource, if_pos hsource]
    exact Or.inl ⟨inode.store, file, rfl, rfl, h⟩
  · rw [if_neg hsource, if_neg hsource]
    by_cases hfits : BlockStore.Fits file.ceiling (offset + source.length)
    · rw [if_pos hfits, if_pos hfits]
      obtain ⟨hvalid, hceiling, hcontents⟩ :=
        BlockStore.written_spec h.valid hsource (h.ceiling ▸ hfits)
      refine Or.inl ⟨_, _, rfl, rfl, hvalid, hceiling.trans h.ceiling, ?_⟩
      rw [hcontents, h.contents]
    · rw [if_neg hfits, if_neg hfits]
      exact Or.inr ⟨rfl, rfl⟩

/-- A transfer has the same outcome on both files and leaves the same source. -/
theorem transferFrom (h : Agrees inode file) (offset count : Nat) (source : Source) :
    let moved := inode.store.transferFrom offset count source
    let (result, after, rest) := file.transferFrom offset count source
    moved.result = result ∧ moved.source = rest ∧
      Agrees { inode with store := moved.store } after := by
  have hsize : inode.store.size = file.bytes.length := h.size
  simp only [BlockStore.transferFrom, FlatFile.transferFrom]
  by_cases hpast : offset > file.bytes.length
  · rw [if_pos (by omega), if_pos hpast]
    exact ⟨rfl, rfl, h⟩
  · rw [if_neg (by omega), if_neg hpast]
    by_cases hfits : BlockStore.Fits file.ceiling (offset + count)
    · have hneeded := (h.valid.blocksFor_le_iff_fits hfits.1).2 (h.ceiling ▸ hfits)
      have hchecked : inode.store.checkCapacity (offset + count) = .ok () := if_pos hneeded
      obtain ⟨hresult, hrest, hvalid, hceiling, hcontents⟩ :=
        BlockStore.receive_spec count source h.valid (by omega) (h.ceiling ▸ hfits)
      have hmax : ¬ offset + count > maxOffset := Nat.not_lt.2 hfits.1
      rw [if_neg hmax, if_pos hfits]
      simp only [hchecked]
      refine ⟨hresult, hrest, hvalid, hceiling.trans h.ceiling, ?_⟩
      rw [hcontents, h.contents]
    · rw [if_neg hfits]
      by_cases hmax : offset + count > maxOffset
      · rw [if_pos hmax]
        exact ⟨rfl, rfl, h⟩
      · have hrefused : inode.store.checkCapacity (offset + count) = .error .capacityExceeded := by
          apply if_neg
          rw [h.valid.blocksFor_le_iff_fits (Nat.le_of_not_lt hmax), h.ceiling]
          exact hfits
        rw [if_neg hmax]
        simp only [hrefused]
        exact ⟨trivial, trivial, h⟩

end Agrees

/-! ### Runs -/

theorem forall₂_set {α β : Type} {R : α → β → Prop} {as : List α} {bs : List β}
    (h : List.Forall₂ R as bs) {a : α} {b : β} (hab : R a b) (index : Nat) :
    List.Forall₂ R (as.set index a) (bs.set index b) := by
  induction h generalizing index with
  | nil => exact List.Forall₂.nil
  | cons hhead htail ih =>
    cases index with
    | zero => exact List.Forall₂.cons hab htail
    | succ index => exact List.Forall₂.cons hhead (ih index)

theorem forall₂_getElem? {α β : Type} {R : α → β → Prop} {as : List α} {bs : List β}
    (h : List.Forall₂ R as bs) (index : Nat) :
    (as[index]? = none ∧ bs[index]? = none) ∨
      ∃ a b, as[index]? = some a ∧ bs[index]? = some b ∧ R a b := by
  induction h generalizing index with
  | nil => exact Or.inl ⟨rfl, rfl⟩
  | cons hhead htail ih =>
    cases index with
    | zero => exact Or.inr ⟨_, _, rfl, rfl, hhead⟩
    | succ index => exact ih index

theorem exists_agrees_of_mem {inodes : List Inode} {files : List FlatFile}
    (h : List.Forall₂ Agrees inodes files) {inode : Inode} (hinode : inode ∈ inodes) :
    ∃ file, Agrees inode file := by
  obtain ⟨index, hindex⟩ := List.mem_iff_getElem?.1 hinode
  obtain ⟨hnone, _⟩ | ⟨other, file, hother, _, hagrees⟩ := forall₂_getElem? h index
  · rw [hindex] at hnone
    cases hnone
  · rw [hindex] at hother
    cases hother
    exact ⟨file, hagrees⟩

/-- One call on files that agree: the same reply, and files that agree again. -/
theorem serve_agrees {inodes : List Inode} {files : List FlatFile}
    (h : List.Forall₂ Agrees inodes files) (index : Nat) (call : FileCall) :
    (blockFiles.serve inodes index call).1 = (flatFiles.serve files index call).1 ∧
      List.Forall₂ Agrees (blockFiles.serve inodes index call).2
        (flatFiles.serve files index call).2 := by
  simp only [Storage.serve]
  obtain ⟨hinode, hfile⟩ | ⟨inode, file, hinode, hfile, hagrees⟩ := forall₂_getElem? h index
  · rw [hinode, hfile]
    exact ⟨rfl, h⟩
  · rw [hinode, hfile]
    cases call with
    | size => exact ⟨congrArg FileReply.size hagrees.size, h⟩
    | read offset count => exact ⟨congrArg FileReply.bytes (hagrees.read? offset count), h⟩
    | write offset bytes =>
      simp only [blockFiles, flatFiles]
      obtain ⟨store, written, hstore, hwritten, hnew⟩ | ⟨hstore, hwritten⟩ :=
        hagrees.write offset bytes
      · rw [hstore, hwritten]
        exact ⟨rfl, forall₂_set h hnew index⟩
      · rw [hstore, hwritten]
        exact ⟨rfl, h⟩
    | append bytes =>
      simp only [blockFiles, flatFiles, Inode.append, FlatFile.append, hagrees.size]
      obtain ⟨store, written, hstore, hwritten, hnew⟩ | ⟨hstore, hwritten⟩ :=
        hagrees.write file.bytes.length bytes
      · rw [hstore, hwritten]
        exact ⟨rfl, forall₂_set h hnew index⟩
      · rw [hstore, hwritten]
        exact ⟨rfl, h⟩
    | truncate size => exact ⟨rfl, forall₂_set h (hagrees.truncate size) index⟩
    | transferFrom offset count source =>
      obtain ⟨hresult, hrest, hnew⟩ := hagrees.transferFrom offset count source
      exact ⟨congrArg₂ FileReply.moved hresult hrest, forall₂_set h hnew index⟩
    | duplicate =>
      exact ⟨rfl, List.rel_append h (List.Forall₂.cons hagrees.duplicate List.Forall₂.nil)⟩

/-- A call that is refused because the contents would not fit leaves every file as it was.
A transfer is refused for that reason only before its first read. -/
theorem serve_of_isOverfull {inodes : List Inode} (hvalid : ∀ inode ∈ inodes, inode.store.Valid)
    (index : Nat) (call : FileCall) (hfull : (blockFiles.serve inodes index call).1.isOverfull) :
    (blockFiles.serve inodes index call).2 = inodes := by
  simp only [Storage.serve] at hfull ⊢
  cases hinode : inodes[index]? with
  | none => rfl
  | some inode =>
    rw [hinode] at hfull
    cases call with
    | size | read | duplicate | truncate => cases hfull
    | write offset bytes =>
      cases hwrite : blockFiles.write inode offset bytes with
      | error failure => simp only [hwrite]
      | ok written =>
        simp only [hwrite] at hfull
        cases hfull
    | append bytes =>
      cases happend : blockFiles.append inode bytes with
      | error failure => simp only [happend]
      | ok written =>
        simp only [happend] at hfull
        cases hfull
    | transferFrom offset count source =>
      have hsame := BlockStore.transferFrom_of_overfull
        (hvalid inode (List.mem_of_getElem? hinode)) offset count source hfull
      obtain ⟨hindex, rfl⟩ := List.getElem?_eq_some_iff.1 hinode
      simp only [blockFiles, hsame]
      exact List.set_getElem_self hindex

theorem run_agrees {inodes : List Inode} {files : List FlatFile}
    (h : List.Forall₂ Agrees inodes files) (calls : List (Nat × FileCall)) :
    (blockFiles.run inodes calls).1 = (flatFiles.run files calls).1 ∧
      List.Forall₂ Agrees (blockFiles.run inodes calls).2 (flatFiles.run files calls).2 := by
  induction calls generalizing inodes files with
  | nil => exact ⟨rfl, h⟩
  | cons call calls ih =>
    obtain ⟨index, call⟩ := call
    obtain ⟨hreply, hfiles⟩ := serve_agrees h index call
    obtain ⟨hreplies, hlater⟩ := ih hfiles
    exact ⟨congrArg₂ List.cons hreply hreplies, hlater⟩

/-- Files in blocks refine flat files. Whatever is called on one empty file and its
duplicates, both kinds give the same replies; afterwards each file in blocks has the size of
the bytes of its flat file, reads show exactly those bytes, and a call that would not fit
changes no file. -/
theorem blocks_refine_flat (ceiling : Nat) (calls : List (Nat × FileCall)) :
    let blocks := blockFiles.run [Inode.new ceiling] calls
    let flat := flatFiles.run [⟨max 1 (min ceiling maxBlocks), []⟩] calls
    blocks.1 = flat.1 ∧
      List.Forall₂ (fun inode file =>
        inode.size = file.bytes.length ∧
          ∀ offset count, inode.store.read? offset count =
            if offset < file.bytes.length then some ((file.bytes.drop offset).take count)
            else none) blocks.2 flat.2 ∧
      ∀ index call, (blockFiles.serve blocks.2 index call).1.isOverfull →
        (blockFiles.serve blocks.2 index call).2 = blocks.2 := by
  intro blocks flat
  have hstart : List.Forall₂ Agrees [Inode.new ceiling] [⟨max 1 (min ceiling maxBlocks), []⟩] :=
    List.Forall₂.cons (Agrees.new ceiling) List.Forall₂.nil
  obtain ⟨hreplies, hfiles⟩ := run_agrees hstart calls
  refine ⟨hreplies, hfiles.imp ?_, ?_⟩
  · intro inode file hagrees
    exact ⟨hagrees.size, hagrees.read?⟩
  · intro index call hfull
    apply serve_of_isOverfull _ index call hfull
    intro inode hinode
    obtain ⟨file, hagrees⟩ := exists_agrees_of_mem hfiles hinode
    exact hagrees.valid

end RamFs
