import RamFs.Handle.Contents

/-!
How actions run. An action that checks everything before it changes anything either fails
with the world untouched or does what it was asked to: `Transacts` says so, and its rules
follow an action from check to check. `Keeps` says that a part of the world is the same after
an action however the action ends.
-/

namespace RamFs.Action

variable {α β δ ε : Type}

/-! ### One step -/

theorem bind_apply (action : ExceptT ε (StateM World) α) (next : α → ExceptT ε (StateM World) β)
    (world : World) :
    (action >>= next) world =
      match action world with
      | (.ok value, world) => next value world
      | (.error failure, world) => (.error failure, world) := by
  change (ExceptT.bind action next : ExceptT ε (StateM World) β) world = _
  unfold ExceptT.bind ExceptT.mk
  change (match action world with
    | (outcome, world) => ExceptT.bindCont next outcome world) = _
  rcases action world with ⟨outcome, after⟩
  cases outcome <;> rfl

/-- A step after a step that does not fail. -/
theorem stateBind_apply (action : StateM World α) (next : α → StateM World β) (world : World) :
    (action >>= next : StateM World β) world = next (action world).1 (action world).2 := rfl

@[simp]
theorem pure_apply (value : α) (world : World) :
    (pure value : Action α) world = (.ok value, world) := rfl

@[simp]
theorem throw_apply (failure : Failure) (world : World) :
    (throw failure : Action α) world = (.error failure, world) := rfl

@[simp]
theorem ask_apply (query : World → Except Failure α) (world : World) :
    Action.ask query world = (query world, world) := rfl

@[simp]
theorem add_apply (change : World → α × World) (world : World) :
    Action.add change world = (.ok (change world).1, (change world).2) := rfl

@[simp]
theorem modify_apply (change : World → World) (world : World) :
    (modify change : Action Unit) world = (.ok (), change world) := rfl

@[simp]
theorem get_apply (world : World) : (get : Action World) world = (.ok world, world) := rfl

@[simp]
theorem lift_apply (outcome : Except Failure α) (world : World) :
    (liftM outcome : Action α) world = (outcome, world) := by
  cases outcome <;> rfl

theorem tryCatch_apply (action : Action α) (handler : Failure → Action α) (world : World) :
    (tryCatch action handler : Action α) world =
      match action world with
      | (.ok value, world) => (.ok value, world)
      | (.error failure, world) => handler failure world := by
  change (ExceptT.tryCatch action handler : Action α) world = _
  unfold ExceptT.tryCatch ExceptT.mk
  change StateT.bind action _ world = _
  unfold StateT.bind
  dsimp only
  rcases action world with ⟨outcome, after⟩
  cases outcome <;> rfl

/-- What follows a step that succeeds runs in the world the step left. -/
theorem bind_ok {action : Action α} {next : α → Action β} {world after : World} {value : α}
    (hrun : action world = (.ok value, after)) : (action >>= next) world = next value after := by
  rw [bind_apply, hrun]

theorem ok_bind (answer : α) (next : α → Except Failure β) :
    (Except.ok answer >>= next) = next answer := rfl

/-- A query that succeeds has got past its first part. -/
theorem exists_of_bind_ok {outcome : Except Failure α} {next : α → Except Failure β} {value : β}
    (h : (outcome >>= next) = .ok value) :
    ∃ first, outcome = .ok first ∧ next first = .ok value := by
  cases outcome with
  | error failure => cases h
  | ok first => exact ⟨first, rfl, h⟩

/-- A run that succeeds has got past its first step. -/
theorem ran_of_bind_ok {action : Action α} {next : α → Action β} {world after : World} {value : β}
    (h : (action >>= next) world = (.ok value, after)) :
    ∃ first middle, action world = (.ok first, middle) ∧ next first middle = (.ok value, after) := by
  rw [bind_apply] at h
  rcases hrun : action world with ⟨failure | first, middle⟩
  · rw [hrun] at h
    cases h
  · rw [hrun] at h
    exact ⟨first, middle, rfl, h⟩

theorem asked_of_bind_ok {query : World → Except Failure α} {next : α → Action β}
    {world after : World} {value : β}
    (h : (Action.ask query >>= next) world = (.ok value, after)) :
    ∃ answer, query world = .ok answer ∧ next answer world = (.ok value, after) := by
  obtain ⟨answer, middle, hask, hnext⟩ := ran_of_bind_ok h
  rw [ask_apply] at hask
  obtain ⟨hanswer, rfl⟩ := Prod.mk.inj hask
  exact ⟨answer, hanswer, hnext⟩

theorem lifted_of_bind_ok {outcome : Except Failure α} {next : α → Action β} {world after : World}
    {value : β} (h : ((liftM outcome : Action α) >>= next) world = (.ok value, after)) :
    ∃ answer, outcome = .ok answer ∧ next answer world = (.ok value, after) := by
  obtain ⟨answer, middle, hlift, hnext⟩ := ran_of_bind_ok h
  rw [lift_apply] at hlift
  obtain ⟨hanswer, rfl⟩ := Prod.mk.inj hlift
  exact ⟨answer, hanswer, hnext⟩

/-- Naming a result changes nothing. -/
theorem bind_pure_world (action : ExceptT ε (StateM World) α) (f : α → β) (world : World) :
    ((action >>= fun value => pure (f value)) world).2 = (action world).2 := by
  rw [bind_apply]
  rcases action world with ⟨_ | value, after⟩ <;> rfl

theorem bind_ask_ok {query : World → Except Failure α} {next : α → Action β} {world : World}
    {answer : α} (hquery : query world = .ok answer) :
    (Action.ask query >>= next) world = next answer world :=
  bind_ok (by rw [ask_apply, hquery])

theorem bind_lift_ok {outcome : Except Failure α} {next : α → Action β} {world : World}
    {answer : α} (houtcome : outcome = .ok answer) :
    ((liftM outcome : Action α) >>= next) world = next answer world :=
  bind_ok (by rw [lift_apply, houtcome])

theorem length_of_mapM {action : β → Action α} {items : List β} {values : List α}
    {world after : World} (h : (items.mapM action : Action (List α)) world = (.ok values, after)) :
    values.length = items.length := by
  induction items generalizing world values with
  | nil =>
      cases h
      rfl
  | cons item rest ih =>
      rw [List.mapM_cons] at h
      obtain ⟨_, middle, _, h⟩ := ran_of_bind_ok h
      obtain ⟨later, _, hrest, h⟩ := ran_of_bind_ok h
      cases h
      exact congrArg Nat.succ (ih hrest)

/-- Two questions in a row are one question. -/
theorem ask_bind_bind {query : World → Except Failure α} {later : α → World → Except Failure β}
    {next : β → Action δ} :
    (Action.ask (fun world => query world >>= fun answer => later answer world) >>= next) =
      Action.ask query >>= fun answer => Action.ask (later answer) >>= next := by
  funext world
  rw [bind_apply, bind_apply, ask_apply, ask_apply]
  cases query world with
  | error failure => rfl
  | ok answer =>
      dsimp only
      rw [bind_apply, ask_apply]
      rfl

theorem ask_const {outcome : Except Failure α} :
    Action.ask (fun _ => outcome) = (liftM outcome : Action α) := by
  funext world
  rw [ask_apply, lift_apply]

theorem attempt_apply (action : Action α) (world : World) :
    action.attempt world = (.ok (action world).1, (action world).2) := rfl

theorem throughStream_apply (action : Action α) (world : World) :
    action.throughStream world =
      ((action world).1.mapError (.stream ∘ Failure.toStreamError), (action world).2) := rfl

/-- A stream lets through what succeeds. -/
theorem throughStream_ok {action : Action α} {value : α} {world : World}
    (h : (action.throughStream world).1 = .ok value) :
    action world = (.ok value, (action.throughStream world).2) := by
  rw [throughStream_apply] at h ⊢
  rcases hrun : action world with ⟨failure | found, after⟩
  · rw [hrun] at h
    cases h
  · rw [hrun] at h
    cases h
    rfl

/-! ### All or nothing -/

/-- The action succeeds as `post` says, or it fails and leaves the world as it was. -/
def Transacts (action : Action α) (world : World) (post : α → World → Prop) : Prop :=
  match action world with
  | (.ok value, after) => post value after
  | (.error _, after) => after = world

section Transacts

variable {world after : World} {post post' : α → World → Prop} {value : α} {failure : Failure}

theorem Transacts.of_ok {action : Action α} (hrun : action world = (.ok value, after))
    (hpost : post value after) : Transacts action world post := by
  unfold Transacts
  rw [hrun]
  exact hpost

theorem Transacts.post_of_ok {action : Action α} (h : Transacts action world post)
    (hrun : action world = (.ok value, after)) : post value after := by
  unfold Transacts at h
  rwa [hrun] at h

theorem Transacts.unchanged {action : Action α} (h : Transacts action world post)
    (hrun : action world = (.error failure, after)) : after = world := by
  unfold Transacts at h
  rwa [hrun] at h

theorem Transacts.mono {action : Action α} (h : Transacts action world post)
    (himp : ∀ value after, post value after → post' value after) :
    Transacts action world post' := by
  unfold Transacts at h ⊢
  rcases hrun : action world with ⟨_ | value, after⟩
  · rw [hrun] at h
    exact h
  · rw [hrun] at h
    exact himp value after h

/-- What a transaction ends in is what the action was run to. -/
theorem Transacts.ran {action : Action α} (h : Transacts action world post) :
    Transacts action world fun value after =>
      action world = (.ok value, after) ∧ post value after := by
  unfold Transacts at h ⊢
  rcases hrun : action world with ⟨_ | value, after⟩
  · rw [hrun] at h
    exact h
  · rw [hrun] at h
    exact ⟨rfl, h⟩

@[simp]
theorem transacts_throw : Transacts (throw failure) world post := rfl

/-- A first step that cannot fail but changes the world hands the rest a new start; the rest
must then succeed. -/
theorem Transacts.bind_of_ok {action : Action β} {next : β → Action α} {middle : World}
    {first : β} (hrun : action world = (.ok first, middle))
    (hnext : ∃ value after, next first middle = (.ok value, after) ∧ post value after) :
    Transacts (action >>= next) world post := by
  obtain ⟨value, after, hlast, hpost⟩ := hnext
  exact .of_ok (by rw [bind_ok hrun, hlast]) hpost

/-- A first step that leaves the world alone lets the rest start from there. -/
theorem Transacts.bind_of_same {action : Action β} {next : β → Action α}
    {outcome : Except Failure β} (hrun : action world = (outcome, world))
    (h : ∀ answer, outcome = .ok answer → Transacts (next answer) world post) :
    Transacts (action >>= next) world post := by
  unfold Transacts
  rw [bind_apply, hrun]
  cases houtcome : outcome with
  | error failure => rfl
  | ok answer => exact h answer houtcome

theorem transacts_ask_bind {query : World → Except Failure β} {next : β → Action α}
    (h : ∀ answer, query world = .ok answer → Transacts (next answer) world post) :
    Transacts (Action.ask query >>= next) world post :=
  .bind_of_same (ask_apply query world) h

theorem transacts_lift_bind {outcome : Except Failure β} {next : β → Action α}
    (h : ∀ answer, outcome = .ok answer → Transacts (next answer) world post) :
    Transacts ((liftM outcome : Action β) >>= next) world post :=
  .bind_of_same (lift_apply outcome world) h

theorem transacts_get_bind {next : World → Action α} (h : Transacts (next world) world post) :
    Transacts ((get : Action World) >>= next) world post := h

/-- A transaction followed by steps that only name its result. -/
theorem Transacts.map {action : Action β} {f : β → α} {post : β → World → Prop}
    (h : Transacts action world post) :
    Transacts (action >>= fun value => pure (f value)) world
      fun result after => ∃ value, result = f value ∧ post value after := by
  unfold Transacts at h ⊢
  rw [bind_apply]
  rcases hrun : action world with ⟨_ | value, after⟩
  · rw [hrun] at h
    exact h
  · rw [hrun] at h
    exact ⟨value, rfl, h⟩

end Transacts

/-! ### Parts left alone -/

/-- The step leaves what `view` shows of the world as it was. An action does so also when it
fails. -/
def Keeps (view : World → δ) (step : World → α × World) : Prop :=
  ∀ world, view (step world).2 = view world

section Keeps

variable {view : World → δ}

theorem keeps_add {change : World → α × World} (h : ∀ world, view (change world).2 = view world) :
    Keeps view (Action.add change) := h

theorem keeps_pure (value : α) : Keeps view (pure value : ExceptT ε (StateM World) α) :=
  fun _ => rfl

theorem keeps_throw (failure : ε) : Keeps view (throw failure : ExceptT ε (StateM World) α) :=
  fun _ => rfl

theorem keeps_ask (query : World → Except Failure α) : Keeps view (Action.ask query) :=
  fun _ => rfl

theorem keeps_get : Keeps view (get : Action World) := fun _ => rfl

theorem keeps_lift (outcome : Except Failure α) : Keeps view (liftM outcome : Action α) := by
  intro world
  rw [lift_apply]

theorem keeps_modify {change : World → World} (h : ∀ world, view (change world) = view world) :
    Keeps view (modify change : Action Unit) := h

/-- A first step may need to know the world it starts in. -/
theorem Keeps.bind_at {action : ExceptT ε (StateM World) α}
    {next : α → ExceptT ε (StateM World) β} {world : World}
    (h : view (action world).2 = view world) (hnext : ∀ value, Keeps view (next value)) :
    view ((action >>= next) world).2 = view world := by
  rw [bind_apply]
  rcases hrun : action world with ⟨_ | value, after⟩
  · rw [← h, hrun]
  · change view (next value after).2 = _
    rw [hnext value after, ← h, hrun]

theorem Keeps.bind {action : ExceptT ε (StateM World) α} {next : α → ExceptT ε (StateM World) β}
    (h : Keeps view action)
    (hnext : ∀ value, Keeps view (next value)) : Keeps view (action >>= next) :=
  fun world => Keeps.bind_at (h world) hnext

/-- What follows an outcome that is at hand starts in the same world. -/
theorem lift_bind_keeps {outcome : Except Failure β} {next : β → Action α} {world : World}
    (h : ∀ answer, view (next answer world).2 = view world) :
    view (((liftM outcome : Action β) >>= next) world).2 = view world := by
  rw [bind_apply, lift_apply]
  cases outcome with
  | error failure => rfl
  | ok answer => exact h answer

theorem Keeps.ite {c : Prop} [Decidable c] {yes no : ExceptT ε (StateM World) α}
    (hyes : Keeps view yes) (hno : Keeps view no) : Keeps view (if c then yes else no) := by
  split
  · exact hyes
  · exact hno

theorem Keeps.forM {action : β → Action Unit} (h : ∀ item, Keeps view (action item)) :
    ∀ items : List β, Keeps view (items.forM action)
  | [] => keeps_pure ()
  | item :: rest => (h item).bind fun _ => Keeps.forM h rest

theorem Keeps.mapM {action : β → Action α} (h : ∀ item, Keeps view (action item)) :
    ∀ items : List β, Keeps view (items.mapM action)
  | [] => keeps_pure []
  | item :: rest => by
      rw [List.mapM_cons]
      exact (h item).bind fun _ => (Keeps.mapM h rest).bind fun _ => keeps_pure _

theorem Keeps.tryCatch {action : Action α} {handler : Failure → Action α}
    (h : Keeps view action) (hhandler : ∀ failure, Keeps view (handler failure)) :
    Keeps view (tryCatch action handler : Action α) := by
  intro world
  rw [tryCatch_apply]
  rcases hrun : action world with ⟨failure | _, after⟩
  · change view (handler failure after).2 = _
    rw [hhandler failure after, ← h world, hrun]
  · rw [← h world, hrun]

theorem Keeps.stateBind_at {action : StateM World α} {next : α → StateM World β} {world : World}
    (h : view (action world).2 = view world) (hnext : ∀ value, Keeps view (next value)) :
    view ((action >>= next : StateM World β) world).2 = view world := by
  rw [stateBind_apply, hnext, h]

theorem Keeps.stateBind {action : StateM World α} {next : α → StateM World β}
    (h : Keeps view action) (hnext : ∀ value, Keeps view (next value)) :
    Keeps view (action >>= next : StateM World β) :=
  fun world => Keeps.stateBind_at (h world) hnext

theorem keeps_statePure (value : α) : Keeps view (pure value : StateM World α) := fun _ => rfl

theorem Keeps.liftState {action : StateM World α} (h : Keeps view action) :
    Keeps view (liftM action : Action α) := h

theorem Keeps.asStream {action : Action α} (h : Keeps view action) : Keeps view action.asStream :=
  h

theorem Keeps.throughStream {action : Action α} (h : Keeps view action) :
    Keeps view action.throughStream := h

end Keeps

/-! ### Invariants -/

/-- The action keeps the invariant however it ends, and what it yields is as `post` says. -/
def Maintains (invariant : World → Prop) (action : ExceptT ε (StateM World) α)
    (post : α → Prop := fun _ => True) : Prop :=
  ∀ world, invariant world →
    invariant (action world).2 ∧ ∀ value, (action world).1 = .ok value → post value

section Maintains

variable {invariant : World → Prop} {post : α → Prop} {post' : β → Prop}

theorem Maintains.after {action : ExceptT ε (StateM World) α} {world after : World}
    {outcome : Except ε α} (h : Maintains invariant action post) (hworld : invariant world)
    (hrun : action world = (outcome, after)) : invariant after := by
  have hafter := (h world hworld).1
  rwa [hrun] at hafter

theorem maintains_pure {value : α} (h : post value) :
    Maintains invariant (pure value : ExceptT ε (StateM World) α) post :=
  fun _ hinvariant => ⟨hinvariant, fun _ hvalue => Except.ok.inj hvalue ▸ h⟩

theorem maintains_throw {failure : ε} :
    Maintains invariant (throw failure : ExceptT ε (StateM World) α) post :=
  fun _ hinvariant => ⟨hinvariant, nofun⟩

theorem maintains_ask {query : World → Except Failure α}
    (h : ∀ world value, invariant world → query world = .ok value → post value) :
    Maintains invariant (Action.ask query) post :=
  fun world hinvariant => ⟨hinvariant, fun value => h world value hinvariant⟩

theorem maintains_lift {outcome : Except Failure α} (h : ∀ value, outcome = .ok value → post value) :
    Maintains invariant (liftM outcome : Action α) post := by
  intro world hinvariant
  rw [lift_apply]
  exact ⟨hinvariant, h⟩

theorem maintains_modify {change : World → World}
    (h : ∀ world, invariant world → invariant (change world)) :
    Maintains invariant (modify change : Action Unit) :=
  fun world hinvariant => ⟨h world hinvariant, fun _ _ => trivial⟩

theorem maintains_add {change : World → α × World}
    (h : ∀ world, invariant world → invariant (change world).2 ∧ post (change world).1) :
    Maintains invariant (Action.add change) post := by
  intro world hinvariant
  obtain ⟨hafter, hpost⟩ := h world hinvariant
  exact ⟨hafter, fun _ hvalue => Except.ok.inj hvalue ▸ hpost⟩

/-- What follows a first step that kept the invariant in the world at hand. -/
theorem Maintains.bind_at {action : ExceptT ε (StateM World) α}
    {next : α → ExceptT ε (StateM World) β} {world : World}
    (h : invariant (action world).2 ∧ ∀ value, (action world).1 = .ok value → post value)
    (hnext : ∀ value, post value → Maintains invariant (next value) post') :
    invariant ((action >>= next) world).2 ∧
      ∀ value, ((action >>= next) world).1 = .ok value → post' value := by
  obtain ⟨hafter, hpost⟩ := h
  rw [bind_apply]
  rcases hrun : action world with ⟨failure | value, after⟩
  · rw [hrun] at hafter
    exact ⟨hafter, nofun⟩
  · rw [hrun] at hafter hpost
    exact hnext value (hpost value rfl) after hafter

theorem Maintains.bind {action : ExceptT ε (StateM World) α}
    {next : α → ExceptT ε (StateM World) β} (h : Maintains invariant action post)
    (hnext : ∀ value, post value → Maintains invariant (next value) post') :
    Maintains invariant (action >>= next) post' :=
  fun world hinvariant => Maintains.bind_at (h world hinvariant) hnext

/-- What follows a question may need to know the world that was asked. -/
theorem ask_bind_invariant {query : World → Except Failure β} {next : β → Action α} {world : World}
    (h : invariant world)
    (hnext : ∀ answer, query world = .ok answer → invariant (next answer world).2) :
    invariant ((Action.ask query >>= next) world).2 := by
  rw [bind_apply, ask_apply]
  cases hanswer : query world with
  | error failure => exact h
  | ok answer => exact hnext answer hanswer

theorem lift_bind_invariant {outcome : Except Failure β} {next : β → Action α} {world : World}
    (h : invariant world)
    (hnext : ∀ answer, outcome = .ok answer → invariant (next answer world).2) :
    invariant (((liftM outcome : Action β) >>= next) world).2 := by
  rw [bind_apply, lift_apply]
  cases outcome with
  | error failure => exact h
  | ok answer => exact hnext answer rfl

theorem maintains_get_bind {next : World → Action α}
    (h : ∀ world, Maintains invariant (next world) post) :
    Maintains invariant ((get : Action World) >>= next) post :=
  fun world hinvariant => h world world hinvariant

theorem Maintains.forM {action : β → Action Unit}
    (h : ∀ item, Maintains invariant (action item)) :
    ∀ items : List β, Maintains invariant (items.forM action)
  | [] => maintains_pure trivial
  | item :: rest => (h item).bind fun _ _ => Maintains.forM h rest

theorem Maintains.mapM {action : β → Action α}
    (h : ∀ item, Maintains invariant (action item) post) :
    ∀ items : List β,
      Maintains invariant (items.mapM action) fun values => ∀ value ∈ values, post value
  | [] => maintains_pure (fun _ hmem => nomatch hmem)
  | item :: rest => by
      rw [List.mapM_cons]
      refine (h item).bind fun value hvalue => (Maintains.mapM h rest).bind fun values hvalues => ?_
      exact maintains_pure (List.forall_mem_cons.2 ⟨hvalue, hvalues⟩)

theorem Maintains.tryCatch {action : Action α} {handler : Failure → Action α}
    (h : Maintains invariant action post)
    (hhandler : ∀ failure, Maintains invariant (handler failure) post) :
    Maintains invariant (tryCatch action handler : Action α) post := by
  intro world hinvariant
  obtain ⟨hafter, hpost⟩ := h world hinvariant
  rw [tryCatch_apply]
  rcases hrun : action world with ⟨failure | value, after⟩
  · rw [hrun] at hafter
    exact hhandler failure after hafter
  · rw [hrun] at hafter hpost
    exact ⟨hafter, hpost⟩

/-- What an action reports may be looked at as a value, a failure included. -/
theorem Maintains.run_bind {action : ExceptT ε (StateM World) α}
    {next : Except ε α → StateM World β} (h : Maintains invariant action post)
    (hnext : ∀ outcome, (∀ value, outcome = .ok value → post value) →
      ∀ world, invariant world → invariant (next outcome world).2) :
    ∀ world, invariant world → invariant ((action.run >>= next : StateM World β) world).2 := by
  intro world hinvariant
  obtain ⟨hafter, hpost⟩ := h world hinvariant
  exact hnext _ hpost _ hafter

theorem maintains_liftState {action : StateM World α}
    (h : ∀ world, invariant world → invariant (action world).2) :
    Maintains invariant (liftM action : Action α) :=
  fun world hinvariant => ⟨h world hinvariant, fun _ _ => trivial⟩

theorem Maintains.attempt {action : Action α} (h : Maintains invariant action) :
    Maintains invariant action.attempt :=
  fun world hinvariant => ⟨(h world hinvariant).1, fun _ _ => trivial⟩

theorem Maintains.asStream {action : Action α} (h : Maintains invariant action) :
    Maintains invariant action.asStream :=
  fun world hinvariant => ⟨(h world hinvariant).1, fun _ _ => trivial⟩

theorem Maintains.throughStream {action : Action α} (h : Maintains invariant action) :
    Maintains invariant action.throughStream :=
  fun world hinvariant => ⟨(h world hinvariant).1, fun _ _ => trivial⟩

end Maintains

end RamFs.Action
