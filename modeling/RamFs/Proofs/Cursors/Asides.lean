import RamFs.Proofs.Sessions.Abandoned
import RamFs.Proofs.Sharing.Stamps

/-!
Calls on handles one after the other. What a handle is on and how it was opened stay the same,
whatever is called. A call changes the bytes of a file only through a handle on that file which may
write, and a positional call moves no cursor but that of the handle at the other end of a transfer.
So a session on one file may be looked at without the calls in between that have to do with neither.
-/

namespace RamFs

open RamFs.Action

variable {world middle after : World} {id other mover : HandleId} {held later : Handle}
  {inode : InodeId} {file : FlatFile} {call : HandleCall}

/-! ### Handles over time -/

/-- What becomes of a handle: it is on the same inode and was opened in the same way, and it is not
opened again once it is closed. -/
structure Handle.Becomes (held later : Handle) : Prop where
  inode : later.inode = held.inode
  options : later.options = held.options
  isOpen : later.isOpen = true → held.isOpen = true

namespace Handle

theorem checkReadable_eq_ok :
    held.checkReadable = .ok () ↔ held.isOpen = true ∧ held.options.read = true := by
  unfold checkReadable checkOpen
  cases held.isOpen with
  | false => exact ⟨nofun, nofun⟩
  | true =>
      cases held.options.read with
      | false => exact ⟨nofun, nofun⟩
      | true => exact ⟨fun _ => ⟨rfl, rfl⟩, fun _ => rfl⟩

theorem checkWritable_eq_ok :
    held.checkWritable = .ok () ↔ held.isOpen = true ∧ held.options.write = true := by
  unfold checkWritable checkOpen
  cases held.isOpen with
  | false => exact ⟨nofun, nofun⟩
  | true =>
      cases held.options.write with
      | false => exact ⟨nofun, nofun⟩
      | true => exact ⟨fun _ => ⟨rfl, rfl⟩, fun _ => rfl⟩

namespace Becomes

theorem refl : held.Becomes held := ⟨rfl, rfl, fun h => h⟩

theorem trans {last : Handle} (h : held.Becomes later) (hlast : later.Becomes last) :
    held.Becomes last :=
  ⟨hlast.inode.trans h.inode, hlast.options.trans h.options, fun hopen => h.isOpen (hlast.isOpen hopen)⟩

theorem checkWritable (h : held.Becomes later) (hcheck : later.checkWritable = .ok ()) :
    held.checkWritable = .ok () := by
  obtain ⟨hopen, hwrite⟩ := checkWritable_eq_ok.1 hcheck
  exact checkWritable_eq_ok.2 ⟨h.isOpen hopen, h.options ▸ hwrite⟩

end Becomes

end Handle

/-- From one world to another with the same handles, of which some may have been closed. -/
structure World.Ages (world after : World) : Prop where
  before : ∀ {id later}, after.handle id = .ok later →
    ∃ held, world.handle id = .ok held ∧ held.Becomes later
  later : ∀ {id held}, world.handle id = .ok held →
    ∃ later, after.handle id = .ok later ∧ held.Becomes later

namespace World

theorem Ages.refl : world.Ages world :=
  ⟨fun h => ⟨_, h, .refl⟩, fun h => ⟨_, h, .refl⟩⟩

theorem Ages.trans (h : world.Ages middle) (hafter : middle.Ages after) : world.Ages after where
  before := by
    intro id last hlast
    obtain ⟨later, hlater, hlast⟩ := hafter.before hlast
    obtain ⟨held, hheld, hlater⟩ := h.before hlater
    exact ⟨held, hheld, hlater.trans hlast⟩
  later := by
    intro id held hheld
    obtain ⟨later, hlater, hheld⟩ := h.later hheld
    obtain ⟨last, hlast, hlater⟩ := hafter.later hlater
    exact ⟨last, hlast, hheld.trans hlater⟩

theorem ages_of_frame (h : after.frame = world.frame) : world.Ages after where
  before := by
    intro id later hlater
    obtain ⟨position, locks, hheld⟩ := handle_of_frame h hlater
    exact ⟨_, hheld, rfl, rfl, fun hopen => hopen⟩
  later := by
    intro id held hheld
    obtain ⟨position, locks, hlater⟩ := handle_of_frame h.symm hheld
    exact ⟨_, hlater, rfl, rfl, fun hopen => hopen⟩

theorem ages_of_shut (h : after.handles = (world.modifyHandle id Handle.shut).handles) :
    world.Ages after := by
  have hbecomes : ∀ (known : HandleId) (held : Handle),
      held.Becomes (if known = id then held.shut else held) := by
    intro known held
    split
    case isTrue => exact ⟨rfl, rfl, nofun⟩
    case isFalse => exact .refl
  constructor
  case before =>
    intro known later hlater
    rw [handle_shut h] at hlater
    cases hheld : world.handle known with
    | error failure =>
        rw [hheld] at hlater
        cases hlater
    | ok held =>
        rw [hheld] at hlater
        exact ⟨held, rfl, Except.ok.inj hlater ▸ hbecomes known held⟩
  case later =>
    intro known held hheld
    refine ⟨_, ?_, hbecomes known held⟩
    rw [handle_shut h, hheld]
    rfl

end World

theorem World.handle_modifyHandle_self (hheld : world.handle id = .ok held)
    (change : Handle → Handle) : (world.modifyHandle id change).handle id = .ok (change held) := by
  rw [handle_modifyHandle, hheld]
  exact congrArg Except.ok (if_pos rfl)

/-- Closing a handle that is not open changes nothing. -/
theorem HandleId.close_idle (h : ∀ held, world.handle id = .ok held → held.isOpen = false) :
    (id.close world).2 = world := by
  unfold HandleId.close
  cases hheld : world.handle id with
  | error failure =>
      rw [bind_apply, ask_apply, hheld]
  | ok held =>
      rw [bind_ask_ok hheld, h held hheld]
      rfl

/-- Calls on handles neither open handles nor change what they are on. -/
theorem HandleCall.ages (id : HandleId) (call : HandleCall) :
    world.Ages (call.perform id world) := by
  by_cases hclose : call = .close
  · subst hclose
    by_cases hopen : ∃ held, world.handle id = .ok held ∧ held.isOpen = true
    · obtain ⟨held, hheld, hopen⟩ := hopen
      exact World.ages_of_shut (HandleId.close_handles hheld hopen)
    · have hidle : HandleCall.perform id world .close = world := HandleId.close_idle fun held hheld =>
        Bool.eq_false_iff.2 fun hopen' => hopen ⟨held, hheld, hopen'⟩
      rw [hidle]
      exact .refl
  · exact World.ages_of_frame (HandleCall.perform_keeps id hclose)

/-! ### Contents -/

/-- The call goes through a handle on the inode that may write. -/
def HandleCall.Writes (call : HandleCall) (id : HandleId) (world : World) (inode : InodeId) : Prop :=
  ∃ writer held, call.writer? id = some writer ∧ world.handle writer = .ok held ∧
    held.inode = inode ∧ held.checkWritable = .ok ()

theorem HandleCall.not_writes (h : call.writer? id = none) : ¬call.Writes id world inode := by
  rintro ⟨writer, held, hwriter, -⟩
  cases h.symm.trans hwriter

theorem HandleCall.Writes.of_ages (h : call.Writes id after inode) (hages : world.Ages after) :
    call.Writes id world inode := by
  obtain ⟨writer, later, hwriter, hlater, rfl, hcheck⟩ := h
  obtain ⟨held, hheld, hbecomes⟩ := hages.before hlater
  exact ⟨writer, held, hwriter, hheld, hbecomes.inode.symm, hbecomes.checkWritable hcheck⟩

namespace HandleId

/-- Nothing gets through to a handle that may not write. -/
theorem transferToHandle_refused {failure : Failure} (hheld : world.handle other = .ok held)
    (hcheck : held.checkWritable = .error failure) (offset count : Nat) :
    (id.transferToHandle offset count other world).2.stores = world.stores := by
  let same : World → Prop := fun middle =>
    middle.handle other = .ok held ∧ middle.stores = world.stores
  have hwrite : ∀ piece, Maintains same (other.write piece) := by
    intro piece middle hmiddle
    unfold write
    rw [bind_apply, checked_refused hmiddle.1 hcheck]
    exact ⟨hmiddle, nofun⟩
  have houtgoing : Maintains same (id.outgoing offset count) := by
    unfold outgoing checked
    simp only [bind_assoc, pure_bind]
    refine (maintains_ask fun _ _ _ _ => trivial).bind fun known _ => ?_
    refine (maintains_lift fun _ _ => trivial).bind fun _ _ => ?_
    exact (maintains_ask fun _ _ _ _ => trivial).bind fun _ _ => maintains_pure trivial
  have hstamp : ∀ source : Handle, Maintains same (source.stamp Entry.touchAccessed) := fun _ =>
    (maintains_ask fun _ _ _ _ => trivial).bind fun _ _ => maintains_modify fun _ hmiddle => hmiddle
  have hrun : Maintains same (id.transferToHandle offset count other) :=
    houtgoing.bind fun (source, pieces) _ =>
      (Maintains.forM (fun piece => (hwrite piece).throughStream) pieces).bind fun _ _ =>
        (hstamp source).bind fun _ _ => maintains_pure trivial
  exact (hrun world ⟨hheld, rfl⟩).1.2

end HandleId

/-- A call that does not write into an inode leaves its bytes as they are. -/
theorem HandleCall.flat?_perform (h : Reachable world) (hfile : world.flat? inode = some file)
    (hkept : ¬call.Writes id world inode) : (call.perform id world).flat? inode = some file := by
  by_cases hon : ∃ writer held, call.writer? id = some writer ∧ world.handle writer = .ok held ∧
      held.inode = inode
  case neg =>
    obtain ⟨store, hstore, rfl⟩ := Option.map_eq_some_iff.1 hfile
    refine Option.map_eq_some_iff.2 ⟨store, (call.spares ⟨h.tidy, hstore⟩ ?_).2, rfl⟩
    exact fun writer held hwriter hheld hinode => hon ⟨writer, held, hwriter, hheld, hinode⟩
  case pos =>
    obtain ⟨writer, held, hwriter, hheld, rfl⟩ := hon
    obtain ⟨failure, hrefused⟩ : ∃ failure, held.checkWritable = .error failure := by
      cases hcheck : held.checkWritable with
      | ok _ => exact absurd ⟨writer, held, hwriter, hheld, rfl, hcheck⟩ hkept
      | error failure => exact ⟨failure, rfl⟩
    obtain ⟨stored, hstored, hvalid⟩ := h.file_of_handle hheld
    -- an edit through a handle that may not write is none
    have hsame : ∀ edit, call.writer? id = some id → call.edit? world held = some edit →
        (call.perform id world).flat? held.inode = some file := by
      intro edit hself hedit
      obtain rfl : writer = id := Option.some.inj (hwriter.symm.trans hself)
      rw [(revises hheld hstored hedit).flat? hvalid, ← hfile, World.flat?_of_inode hstored]
      unfold Handle.edit
      rw [hrefused]
    cases call with
    | write bytes => exact hsame _ rfl rfl
    | writeAt offset bytes => exact hsame _ rfl rfl
    | writeAll bytes => exact hsame _ rfl rfl
    | truncate size => exact hsame _ rfl rfl
    | transferFrom offset count source => exact hsame _ rfl rfl
    | transferFromHandle offset count source => exact hsame _ rfl rfl
    | transferToHandle offset count sink =>
        cases hwriter
        unfold World.flat? at hfile ⊢
        rwa [perform, HandleId.transferToHandle_refused hheld hrefused]
    | _ => cases hwriter

/-! ### Cursors -/

namespace HandleCall

/-- Calls that are told where in the file to begin. -/
def isPositional : HandleCall → Bool
  | readAt _ _ | writeAt _ _ | transferTo _ _ _ | transferFrom _ _ _ | transferToHandle _ _ _
  | transferFromHandle _ _ _ => true
  | _ => false

/-- The handle at the other end of a transfer between two open files. -/
def other? : HandleCall → Option HandleId
  | transferToHandle _ _ other | transferFromHandle _ _ other => some other
  | _ => none

end HandleCall

namespace HandleId

theorem setCursor_keeps_handle (hother : other ≠ mover) (position : Nat) :
    Keeps (·.handle mover) (other.setCursor position) := by
  refine keeps_modify fun world => ?_
  rw [World.handle_modifyHandle]
  cases world.handle mover with
  | error failure => rfl
  | ok held => exact congrArg Except.ok (if_neg hother.symm)

theorem stamp_keeps_handles (held : Handle) (change : Entry → Time → Entry) :
    Keeps World.handles (held.stamp change) :=
  (keeps_ask _).bind fun _ => keeps_modify fun _ => rfl

theorem readAt_keeps_handles (id : HandleId) (offset count : Nat) :
    Keeps World.handles (id.readAt offset count) :=
  (id.checked_keeps _).bind fun _ => (stamp_keeps_handles _ _).bind fun _ => keeps_pure _

theorem writeAt_keeps_handles (id : HandleId) (offset : Nat) (bytes : Bytes) :
    Keeps World.handles (id.writeAt offset bytes) :=
  (id.checked_keeps _).bind fun _ => (keeps_lift _).bind fun _ =>
    Keeps.bind (keeps_modify fun _ => rfl) fun _ => stamp_keeps_handles _ _

theorem transferTo_keeps_handles (id : HandleId) (offset count : Nat) (sink : Sink) :
    Keeps World.handles (id.transferTo offset count sink) := by
  unfold transferTo
  refine (id.outgoing_keeps offset count).stateBind fun outcome => ?_
  split
  case h_1 => exact keeps_statePure _
  case h_2 =>
    split
    case h_1 => exact keeps_statePure _
    case h_2 => exact (stamp_keeps_handles _ _).stateBind fun _ => keeps_statePure _

theorem transferFrom_keeps_handles (id : HandleId) (offset count : Nat) (source : Source) :
    Keeps World.handles (id.transferFrom offset count source) := by
  unfold transferFrom
  refine (id.checked_keeps _).stateBind fun outcome => ?_
  split
  case h_1 => exact keeps_statePure _
  case h_2 =>
    refine Keeps.stateBind (fun _ => rfl) fun _ => ?_
    dsimp only
    split
    case h_1 => exact keeps_statePure _
    case h_2 =>
      split
      case isTrue => exact (stamp_keeps_handles _ _).stateBind fun _ => keeps_statePure _
      case isFalse => exact keeps_statePure _

/-- What keeps all handles keeps each. -/
theorem keeps_handle {α : Type} {step : World → α × World} (h : Keeps World.handles step)
    (mover : HandleId) : Keeps (·.handle mover) step := by
  intro world
  change (step world).2.handle mover = world.handle mover
  unfold World.handle
  rw [h world]

theorem write_keeps_handle (hother : other ≠ mover) (bytes : Bytes) :
    Keeps (·.handle mover) (other.write bytes) :=
  (other.checked_keeps _).bind fun _ => (keeps_lift _).bind fun _ =>
    Keeps.bind (keeps_modify fun _ => rfl) fun _ => (setCursor_keeps_handle hother _).bind fun _ =>
      keeps_handle (stamp_keeps_handles _ _) mover

theorem transferToHandle_keeps_handle (hother : other ≠ mover) (offset count : Nat) :
    Keeps (·.handle mover) (id.transferToHandle offset count other) :=
  (id.outgoing_keeps offset count).bind fun (source, pieces) =>
    (Keeps.forM (fun piece => (write_keeps_handle hother piece).throughStream) pieces).bind fun _ =>
      (keeps_handle (stamp_keeps_handles source _) mover).bind fun _ => keeps_pure _

theorem consumed_keeps_handle (hother : other ≠ mover) (before rest : Source) :
    Keeps (·.handle mover) (other.consumed before rest) := by
  refine (keeps_ask _).bind fun source => ?_
  split
  case h_1 => exact keeps_pure _
  case h_2 =>
    refine .ite ((setCursor_keeps_handle hother _).bind fun _ => ?_) (keeps_pure _)
    exact keeps_handle (stamp_keeps_handles source _) mover

theorem transferFromHandle_keeps_handle (hother : other ≠ mover) (offset count : Nat) :
    Keeps (·.handle mover) (id.transferFromHandle offset count other) := by
  unfold transferFromHandle
  refine keeps_get.bind fun world => ?_
  refine (keeps_handle (id.transferFrom_keeps_handles offset count _) mover).liftState.bind
    fun (result, rest) => ?_
  exact (consumed_keeps_handle hother _ _).bind fun _ => keeps_lift _

end HandleId

/-- A positional call leaves every handle alone, but for one at the other end of a transfer. -/
theorem HandleCall.handle_of_positional (hpositional : call.isPositional = true)
    (hother : call.other? ≠ some mover) :
    (call.perform id world).handle mover = world.handle mover := by
  cases call with
  | readAt offset count =>
      exact HandleId.keeps_handle (id.readAt_keeps_handles offset count) mover world
  | writeAt offset bytes =>
      exact HandleId.keeps_handle (id.writeAt_keeps_handles offset bytes) mover world
  | transferTo offset count sink =>
      exact HandleId.keeps_handle (id.transferTo_keeps_handles offset count sink) mover world
  | transferFrom offset count source =>
      exact HandleId.keeps_handle (id.transferFrom_keeps_handles offset count source) mover world
  | transferToHandle offset count other =>
      have hne : other ≠ mover := fun hsame => hother (congrArg some hsame)
      exact HandleId.transferToHandle_keeps_handle hne offset count world
  | transferFromHandle offset count other =>
      have hne : other ≠ mover := fun hsame => hother (congrArg some hsame)
      exact HandleId.transferFromHandle_keeps_handle hne offset count world
  | _ => cases hpositional

/-! ### Sessions -/

/-- A call in between that has to do neither with the cursor of a handle nor with the bytes of its
file: it is positional, the handle is not at the other end, and nothing is written to the file. -/
structure HandleCall.Aside (call : HandleCall) (other : HandleId) (world : World) (id : HandleId)
    (inode : InodeId) : Prop where
  positional : call.isPositional = true
  cursor : call.other? ≠ some id
  contents : ¬call.Writes other world inode

namespace HandleCall

theorem aside_readAt (offset count : Nat) : (readAt offset count).Aside other world id inode :=
  ⟨rfl, nofun, not_writes rfl⟩

theorem aside_transferTo (offset count : Nat) (sink : Sink) :
    (transferTo offset count sink).Aside other world id inode :=
  ⟨rfl, nofun, not_writes rfl⟩

theorem Aside.of_ages (h : call.Aside other world id inode) (hages : world.Ages after) :
    call.Aside other after id inode :=
  ⟨h.positional, h.cursor, fun hwrites => h.contents (hwrites.of_ages hages)⟩

theorem reaches (call : HandleCall) (h : Reachable world) (hrun : call.perform id world = after) :
    Reachable after ∧ world.Ages after :=
  hrun ▸ ⟨h.step (.onHandle id call), call.ages id⟩

end HandleCall

/-- A handle on a file, in a world that calls lead to. -/
structure World.On (world : World) (id : HandleId) (held : Handle) (file : FlatFile) : Prop where
  reachable : Reachable world
  handle : world.handle id = .ok held
  file : world.flat? held.inode = some file

theorem Reachable.on (h : Reachable world) (hheld : world.handle id = .ok held) :
    ∃ file, world.On id held file := by
  obtain ⟨stored, hstored, -⟩ := h.file_of_handle hheld
  exact ⟨_, h, hheld, World.flat?_of_inode hstored⟩

/-- The inode that holds the bytes. -/
theorem World.On.stored (h : world.On id held file) :
    ∃ stored, world.inode held.inode = .ok stored ∧ Agrees stored stored.store.flat ∧
      stored.store.flat = file := by
  obtain ⟨stored, hstored, hvalid⟩ := h.reachable.file_of_handle h.handle
  exact ⟨stored, hstored, ⟨hvalid, rfl, rfl⟩,
    Option.some.inj ((World.flat?_of_inode hstored).symm.trans h.file)⟩

/-- A call in between leaves the handle and its file as they are. -/
theorem HandleCall.Aside.on (haside : call.Aside other world id held.inode)
    (h : world.On id held file) : (call.perform other world).On id held file where
  reachable := h.reachable.step (.onHandle other call)
  handle := (handle_of_positional haside.positional haside.cursor).trans h.handle
  file := flat?_perform h.reachable h.file haside.contents

/-- The steps of a session. Those on the left are what it is about, those on the right are calls on
any handles in between. -/
abbrev Steps (α : Type) := List (α ⊕ HandleId × HandleCall)

namespace Steps

variable {α : Type}

/-- What a session is about, in order. -/
def inputs (steps : Steps α) : List α :=
  steps.filterMap Sum.getLeft?

def asides (steps : Steps α) : List (HandleId × HandleCall) :=
  steps.filterMap Sum.getRight?

@[simp] theorem inputs_nil : inputs ([] : Steps α) = [] := rfl

@[simp] theorem inputs_inl (input : α) (steps : Steps α) :
    inputs (.inl input :: steps) = input :: steps.inputs := rfl

@[simp] theorem inputs_inr (aside : HandleId × HandleCall) (steps : Steps α) :
    inputs (.inr aside :: steps) = steps.inputs := rfl

@[simp] theorem asides_nil : asides ([] : Steps α) = [] := rfl

@[simp] theorem asides_inl (input : α) (steps : Steps α) :
    asides (.inl input :: steps) = steps.asides := rfl

@[simp] theorem asides_inr (aside : HandleId × HandleCall) (steps : Steps α) :
    asides (.inr aside :: steps) = aside :: steps.asides := rfl

end Steps

/-- A session step by step: what came of each input, and the world after the last step. -/
def World.interleaved {α β : Type} (act : α → Action β) :
    World → Steps α → List (Except Failure β) × World
  | world, [] => ([], world)
  | world, .inl input :: steps =>
    let (result, after) := act input world
    let (results, last) := after.interleaved act steps
    (result :: results, last)
  | world, .inr (id, call) :: steps => (call.perform id world).interleaved act steps

theorem World.interleaved_inl {α β : Type} {act : α → Action β} {input : α} {steps : Steps α}
    {result : Except Failure β} {results : List (Except Failure β)} {last : World}
    (hact : act input world = (result, after))
    (hrest : after.interleaved act steps = (results, last)) :
    world.interleaved act (.inl input :: steps) = (result :: results, last) := by
  unfold interleaved
  rw [hact]
  dsimp only
  rw [hrest]

end RamFs
