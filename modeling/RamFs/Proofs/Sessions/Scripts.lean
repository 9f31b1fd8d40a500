import RamFs.Shell
import RamFs.Proofs.Accounts.Handles

/-!
The two ways to run a script. Up to the first line that fails they do the same, so that a script
that stops leaves what a script that keeps going would leave if it ended there. Every command
gives back each place among the open handles that it took, also when it fails half way.
-/

namespace RamFs

open RamFs.Action

/-! ### Lines of a text -/

namespace Text

variable {cs line rest : List Char}

/-- The text of the first lines, the end of the last of them included. -/
def firstLines : Nat → List Char → List Char
  | 0, _ => []
  | count + 1, cs =>
    cs.takeWhile (· ≠ '\n') ++
      match cs.dropWhile (· ≠ '\n') with
      | [] => []
      | lineEnd :: rest => lineEnd :: firstLines count rest

theorem lines_of_unended (h : '\n' ∉ cs) : lines cs = if cs = [] then [] else [cs] := by
  have hnone : ∀ c ∈ cs, decide (c = '\n') = false :=
    fun c hc => decide_eq_false fun hend => h (hend ▸ hc)
  unfold lines
  rw [List.splitOnP_eq_singleton hnone]
  cases cs <;> rfl

theorem lines_append_cons (h : '\n' ∉ line) :
    lines (line ++ '\n' :: rest) = dropReturn line :: lines rest := by
  have hnone : ∀ c ∈ line, decide (c = '\n') = false :=
    fun c hc => decide_eq_false fun hend => h (hend ▸ hc)
  obtain ⟨part, parts, hparts⟩ := List.exists_cons_of_ne_nil
    (List.splitOnP_ne_nil (fun c => decide (c = '\n')) rest)
  unfold lines
  rw [List.splitOnP_append_cons_of_forall_mem hnone _ rfl, hparts]
  dsimp only
  rw [List.dropLast_cons_cons, List.getLast?_cons_cons, List.map_cons]
  split <;> rfl

theorem firstLines_append_cons (h : '\n' ∉ line) (count : Nat) :
    firstLines (count + 1) (line ++ '\n' :: rest) = line ++ '\n' :: firstLines count rest := by
  have hline : ∀ c ∈ line, decide (c ≠ '\n') = true :=
    fun c hc => decide_eq_true fun hend => h (hend ▸ hc)
  have htake : (line ++ '\n' :: rest).takeWhile (· ≠ '\n') = line := by
    rw [List.takeWhile_append_of_pos hline]
    exact List.append_nil line
  have hdrop : (line ++ '\n' :: rest).dropWhile (· ≠ '\n') = '\n' :: rest :=
    List.dropWhile_append_of_pos hline
  rw [firstLines, htake, hdrop]

theorem firstLines_of_unended (h : '\n' ∉ cs) (count : Nat) : firstLines (count + 1) cs = cs := by
  have hline : ∀ c ∈ cs, decide (c ≠ '\n') = true :=
    fun c hc => decide_eq_true fun hend => h (hend ▸ hc)
  have htake : cs.takeWhile (· ≠ '\n') = cs := by
    rw [← List.append_nil cs, List.takeWhile_append_of_pos hline]
    rfl
  have hdrop : cs.dropWhile (· ≠ '\n') = [] := by
    rw [← List.append_nil cs, List.dropWhile_append_of_pos hline]
    rfl
  rw [firstLines, htake, hdrop]
  exact List.append_nil cs

theorem lines_firstLines (count : Nat) (cs : List Char) :
    lines (firstLines count cs) = (lines cs).take count := by
  induction count generalizing cs with
  | zero => rfl
  | succ count ih =>
      by_cases hend : '\n' ∈ cs
      · obtain ⟨line, rest, rfl, hline⟩ := List.eq_append_cons_of_mem hend
        rw [firstLines_append_cons hline, lines_append_cons hline, lines_append_cons hline, ih]
        rfl
      · rw [firstLines_of_unended hend, lines_of_unended hend]
        split
        · rfl
        · exact (List.take_of_length_le (Nat.le_add_left 1 count)).symm

end Text

/-! ### Up to the first failure -/

namespace Script

variable {world middle after : World} {id : VolumeId} {line : List Char}
  {lines later : List (List Char)} {script : String} {printed out : Bytes} {complaint : Complaint}

/-- The lines succeed one after another; what they print together, and the world they leave. -/
inductive Succeed (id : VolumeId) : World → List (List Char) → Bytes → World → Prop where
  | nil {world : World} : Succeed id world [] [] world
  | cons {world middle after : World} {line : List Char} {rest : List (List Char)}
      {printed out : Bytes} : runLine id line world = (.ok printed, middle) →
      Succeed id middle rest out after → Succeed id world (line :: rest) (printed ++ out) after

/-- The mode makes no difference to lines that succeed. -/
theorem Succeed.runLines_append (h : Succeed id world lines out after) (keepGoing : Bool)
    (later : List (List Char)) (number : Nat) (transcript : Transcript) :
    runLines id keepGoing number (lines ++ later) transcript world =
      runLines id keepGoing (number + lines.length) later
        { transcript with out := transcript.out ++ out } after := by
  induction h generalizing number transcript with
  | nil =>
      rw [List.append_nil]
      rfl
  | cons hline _ ih =>
      rw [List.cons_append, runLines, stateBind_apply, hline]
      dsimp only
      rw [ih, List.length_cons, List.append_assoc, Nat.add_right_comm, Nat.add_assoc]

theorem Succeed.runLines (h : Succeed id world lines out after) (keepGoing : Bool)
    (number : Nat) (transcript : Transcript) :
    runLines id keepGoing number lines transcript world =
      ((.ok (), { transcript with out := transcript.out ++ out }), after) := by
  have hrun := h.runLines_append keepGoing [] number transcript
  rw [List.append_nil] at hrun
  exact hrun

theorem runLines_stops (hline : runLine id line world = (.error complaint, after)) (number : Nat)
    (transcript : Transcript) :
    runLines id false number (line :: later) transcript world =
      ((.error ((lineName number ++ String.ofList (Text.trim line)) :: complaint), transcript),
        after) := by
  rw [runLines, stateBind_apply, hline]
  rfl

theorem runLines_counts (hline : runLine id line world = (.error complaint, after)) (number : Nat)
    (transcript : Transcript) :
    runLines id true number (line :: later) transcript world =
      runLines id true (number + 1) later
        { transcript with
          err := transcript.err ++ lineName number ++ complaint.oneLine ++ "\n"
          failures := transcript.failures + 1 } after := by
  rw [runLines, stateBind_apply, hline]
  rfl

/-- All lines succeed, or some do and then one fails. -/
theorem succeed_or_fails (id : VolumeId) (world : World) (lines : List (List Char)) :
    (∃ out after, Succeed id world lines out after) ∨
    ∃ before line later out middle complaint after, lines = before ++ line :: later ∧
      Succeed id world before out middle ∧
      runLine id line middle = (.error complaint, after) := by
  induction lines generalizing world with
  | nil => exact .inl ⟨_, _, .nil⟩
  | cons line rest ih =>
      rcases hline : runLine id line world with ⟨complaint | printed, middle⟩
      · exact .inr ⟨[], line, rest, [], world, complaint, middle, rfl, .nil, hline⟩
      · rcases ih middle with ⟨out, after, hrest⟩ |
          ⟨before, failing, later, out, middle', complaint, after, rfl, hbefore, hfails⟩
        · exact .inl ⟨_, _, .cons hline hrest⟩
        · exact .inr ⟨line :: before, failing, later, _, middle', complaint, after, rfl,
            .cons hline hbefore, hfails⟩

/-- A script that keeps going reaches its end, and failures are never taken back. -/
theorem runLines_keepGoing (id : VolumeId) (number : Nat) (lines : List (List Char))
    (transcript : Transcript) (world : World) :
    (runLines id true number lines transcript world).1.1 = .ok () ∧
      transcript.failures ≤ (runLines id true number lines transcript world).1.2.failures := by
  induction lines generalizing number transcript world with
  | nil => exact ⟨rfl, Nat.le_refl _⟩
  | cons line rest ih =>
      rcases hline : runLine id line world with ⟨complaint | printed, middle⟩
      · rw [runLines_counts hline]
        obtain ⟨hends, hfailures⟩ := ih (number + 1)
          { transcript with
            err := transcript.err ++ lineName number ++ complaint.oneLine ++ "\n"
            failures := transcript.failures + 1 } middle
        exact ⟨hends, Nat.le_of_succ_le hfailures⟩
      · rw [runLines, stateBind_apply, hline]
        exact ih (number + 1) { transcript with out := transcript.out ++ printed } middle

/-! ### Whole scripts -/

/-- The script cut right after one of its lines. -/
def cut (script : String) (number : Nat) : String :=
  String.ofList (Text.firstLines number script.toList)

/-- How many lines fail when the script keeps going. -/
def failures (id : VolumeId) (script : String) (world : World) : Nat :=
  (run id script true world).1.2.failures

/-- The line with this number is the first of the script that fails, and for this reason. -/
structure FailsFirst (id : VolumeId) (script : String) (world : World) (number : Nat)
    (line : List Char) (complaint : Complaint) : Prop where
  place : (Text.lines script.toList)[number]? = some line
  before : failures id (cut script number) world = 0
  fails : (runLine id line (run id (cut script number) true world).2).1 = .error complaint
  counted : failures id (cut script (number + 1)) world = 1

theorem run_cut (id : VolumeId) (script : String) (number : Nat) (keepGoing : Bool) :
    run id (cut script number) keepGoing =
      runLines id keepGoing 1 ((Text.lines script.toList).take number) {} := by
  unfold run cut
  rw [String.toList_ofList, Text.lines_firstLines]

/-- Where every line succeeds, nothing is counted. -/
theorem failures_of_succeed (h : Succeed id world (Text.lines script.toList) out after) :
    failures id script world = 0 := by
  unfold failures run
  rw [h.runLines]

theorem succeed_of_failures (h : failures id script world = 0) :
    ∃ out after, Succeed id world (Text.lines script.toList) out after := by
  rcases succeed_or_fails id world (Text.lines script.toList) with
    hall | ⟨before, line, later, out, middle, complaint, after, hlines, hbefore, hline⟩
  · exact hall
  · unfold failures run at h
    rw [hlines, hbefore.runLines_append, runLines_counts hline] at h
    refine absurd h (Nat.ne_of_gt (Nat.lt_of_lt_of_le ?_ (runLines_keepGoing ..).2))
    exact Nat.succ_pos _

/-- A line that fails after lines that succeed is the first of the script that fails. -/
theorem failsFirst {before : List (List Char)}
    (hlines : Text.lines script.toList = before ++ line :: later)
    (hbefore : Succeed id world before out middle)
    (hline : runLine id line middle = (.error complaint, after)) :
    FailsFirst id script world before.length line complaint ∧
      run id (cut script (before.length + 1)) true world =
        ((.ok (), ⟨out, lineName (before.length + 1) ++ complaint.oneLine ++ "\n", 1⟩), after) := by
  have hclean : run id (cut script before.length) true world = ((.ok (), { out }), middle) := by
    rw [run_cut, hlines, List.take_left, hbefore.runLines]
    rfl
  have hcounted : run id (cut script (before.length + 1)) true world =
      ((.ok (), ⟨out, lineName (before.length + 1) ++ complaint.oneLine ++ "\n", 1⟩), after) := by
    have htake : (before ++ line :: later).take (before.length + 1) = before ++ [line] := by
      rw [List.append_cons]
      exact List.take_left' (List.length_append ..)
    rw [run_cut, hlines, htake, hbefore.runLines_append, runLines_counts hline,
      Nat.add_comm 1]
    dsimp only
    rw [String.empty_append]
    rfl
  constructor
  · constructor
    case place =>
      rw [hlines, List.getElem?_append_right (Nat.le_refl _), Nat.sub_self]
      rfl
    case before =>
      unfold failures
      rw [hclean]
    case fails => rw [hclean, hline]
    case counted =>
      unfold failures
      rw [hcounted]
  · exact hcounted

/-- A script without failures does the same in both modes; any other ends at its first failure as
far as it got when it keeps going. -/
theorem run_agrees (id : VolumeId) (script : String) (world : World) :
    (failures id script world = 0 ∧ run id script false world = run id script true world) ∨
      0 < failures id script world ∧ ∃ number line complaint,
        FailsFirst id script world number line complaint ∧
        run id script false world =
          ((.error ((lineName (number + 1) ++ String.ofList (Text.trim line)) :: complaint),
            { out := (run id (cut script (number + 1)) true world).1.2.out }),
            (run id (cut script (number + 1)) true world).2) := by
  rcases succeed_or_fails id world (Text.lines script.toList) with
    ⟨out, after, hall⟩ | ⟨before, line, later, out, middle, complaint, after, hlines, hbefore, hline⟩
  · refine .inl ⟨failures_of_succeed hall, ?_⟩
    unfold run
    rw [hall.runLines, hall.runLines]
  · obtain ⟨hfirst, hcut⟩ := failsFirst hlines hbefore hline
    refine .inr ⟨?_, before.length, line, complaint, hfirst, ?_⟩
    · unfold failures run
      rw [hlines, hbefore.runLines_append, runLines_counts hline]
      refine Nat.lt_of_lt_of_le ?_ (runLines_keepGoing ..).2
      exact Nat.succ_pos _
    · rw [hcut]
      unfold run
      rw [hlines, hbefore.runLines_append, runLines_stops hline, Nat.add_comm 1]
      rfl

end Script

/-! ### Places among the open handles -/

variable {world : World} {id : VolumeId} {volume : Volume}

/-- Closing an open handle gives its place back and moves no other. -/
theorem HandleId.close_volumes {handle : HandleId} {held : Handle} (hn : world.namespace.Sound)
    (hhandle : world.handle handle = .ok held) (hopen : held.isOpen = true)
    (hvolume : world.volume held.volume = .ok volume) (hlive : volume.isLive = true) :
    (handle.close world).2.volumes =
      world.volumes.modify held.volume.index Volume.freePlace := by
  obtain ⟨volume', file, closed, hcloses, hrun⟩ := close_closes hn hhandle hopen
  obtain rfl := Except.ok.inj (hvolume.symm.trans hcloses.known)
  have hvolumes := hcloses.volumes
  rw [if_pos hlive] at hvolumes
  rw [hrun]
  split
  case isFalse => exact hvolumes
  case isTrue =>
    have hkeeps : World.roster _ = closed.roster :=
      deleteAbandoned_keeps held.volume held.path held.entry closed
    exact (congrArg Roster.volumes hkeeps).trans hvolumes

/-- A session takes a place and gives it back, whatever comes of the work and of the file. -/
theorem VolumeId.session_volumes {α : Type} {work : HandleId → Action α}
    (hn : world.namespace.Sound) (hvolume : world.volume id = .ok volume)
    (hlive : volume.isLive = true) (path : String) (options : OpenOptions)
    (hwork : ∀ handle, Keeps World.skeleton (work handle)) :
    (id.session path options work world).2.volumes = world.volumes := by
  rcases session_cases hn id path options hwork with
    ⟨failure, _, hrun⟩ | ⟨handle, opened, closed, opening, htakes, hclose, hrun⟩
  · rw [hrun]
  · have hworked := hwork handle opened
    have hsound : (work handle opened).2.namespace.Sound := by
      rw [World.namespace_of_skeleton hworked]
      exact (htakes.expands_after hn).evolves.sound
    have hholder : (work handle opened).2.holder? handle = some ⟨id, opening.entry⟩ := by
      rw [World.holder_of_skeleton hworked]
      exact htakes.holder
    obtain ⟨held, hheld, hopen, hlease⟩ := World.holder_eq_some.1 hholder
    obtain ⟨rfl, -⟩ := Lease.mk.inj hlease
    have htaken : (work handle opened).2.volumes =
        (world.modifyVolume held.volume Volume.takePlace).volumes :=
      (congrArg Skeleton.volumes hworked).trans (congrArg Roster.volumes htakes.roster_after)
    have hknown : (work handle opened).2.volume held.volume = .ok volume.takePlace := by
      unfold World.volume
      rw [htaken]
      exact World.volume_modifyVolume hvolume
    have hfreed := HandleId.close_volumes hsound hheld hopen hknown hlive
    rw [hclose, htaken] at hfreed
    rw [hrun]
    exact hfreed.trans (congrArg World.volumes (World.modifyVolume_undo fun _ => rfl))

/-- Work of a session that is made of calls and does not touch the namespace. -/
structure HandleId.Works {α : Type} (work : HandleId → Action α) : Prop where
  keeps : ∀ handle, Keeps World.skeleton (work handle)
  calls : ∀ handle, ∃ calls : List Call, ∀ world,
    (work handle world).2 = calls.foldl Call.perform world

theorem VolumeId.openFile_reachable (h : Reachable world) (id : VolumeId) (path : String)
    (options : OpenOptions) : Reachable (id.openFile path options world).2 := by
  have hstep := h.step (.onPath id (.openFile path options))
  change Reachable ((id.openFile path options >>= fun _ => pure () : Action Unit) world).2 at hstep
  rwa [bind_pure_world] at hstep

theorem VolumeId.session_reachable {α : Type} {work : HandleId → Action α} (h : Reachable world)
    (hwork : HandleId.Works work) (id : VolumeId) (path : String) (options : OpenOptions) :
    Reachable (id.session path options work world).2 := by
  have hopened := id.openFile_reachable h path options
  unfold session
  rcases hopen : id.openFile path options world with ⟨failure | handle, opened⟩
  · rw [bind_apply, hopen]
    rwa [hopen] at hopened
  · rw [hopen] at hopened
    obtain ⟨calls, hcalls⟩ := hwork.calls handle
    have hworked : Reachable (work handle opened).2 := by
      rw [hcalls]
      exact hopened.run calls
    have hclosed := hworked.step (.onHandle handle .close)
    rw [bind_ok hopen, bind_ok (attempt_apply ..), bind_apply]
    rcases hclose : handle.close (work handle opened).2 with ⟨failure | _, closed⟩
    · change Reachable (handle.close (work handle opened).2).2 at hclosed
      rwa [hclose] at hclosed
    · change Reachable (handle.close (work handle opened).2).2 at hclosed
      rw [hclose] at hclosed
      dsimp only
      rwa [lift_apply]

namespace Command

/-- A command asks, or makes one call that opens nothing, or is a session. -/
inductive Does (id : VolumeId) (command : Command) : Prop where
  | asks (h : Keeps (fun world => world) (command.run id))
  | calls (call : PathCall) (hopen : ∀ path options, call ≠ .openFile path options)
      (h : ∀ world, (command.run id world).2 = (call.act id world).2)
  | session {α : Type} (path : String) (options : OpenOptions) (work : HandleId → Action α)
      (hwork : HandleId.Works work)
      (h : ∀ world, (command.run id world).2 = (id.session path options work world).2)

theorem append_run (id : VolumeId) (path text : String) :
    (append path text).run id =
      (id.session path .appending fun handle => handle.write text.toUTF8.data.toList) >>=
        fun _ => pure [] := by
  unfold VolumeId.session
  simp only [bind_assoc]
  rfl

theorem does (id : VolumeId) (command : Command) : command.Does id := by
  cases command with
  | makeDirectory path =>
      exact .calls (.createDirectory path {}) nofun (bind_pure_world _ _)
  | touch path =>
      exact .session path .creating (fun _ => pure ([] : Bytes))
        ⟨fun _ => keeps_pure _, fun _ => ⟨[], fun _ => rfl⟩⟩ fun _ => rfl
  | write path text =>
      refine .session path { OpenOptions.creating with truncate := true }
        (fun handle => (handle.writeAll text.toUTF8.data.toList).throughStream)
        ⟨fun handle => (handle.writeAll_keeps _).throughStream, fun handle => ?_⟩
        (bind_pure_world _ _)
      exact ⟨[.onHandle handle (.writeAll text.toUTF8.data.toList)], fun _ => rfl⟩
  | append path text =>
      refine .session path .appending (fun handle => handle.write text.toUTF8.data.toList)
        ⟨fun handle => handle.write_keeps _, fun handle => ?_⟩ fun world => ?_
      · exact ⟨[.onHandle handle (.write text.toUTF8.data.toList)], fun _ => rfl⟩
      · rw [append_run, bind_pure_world]
  | print path =>
      refine .session path .reading (fun handle => handle.readToEnd.throughStream)
        ⟨fun handle => handle.readToEnd_keeps.throughStream, fun handle => ?_⟩
        (bind_pure_world _ _)
      exact ⟨[.onHandle handle .readToEnd], fun _ => rfl⟩
  | list path => exact .asks ((keeps_ask _).bind fun _ => keeps_pure _)
  | status path => exact .asks ((keeps_ask _).bind fun _ => keeps_pure _)
  | copy source target force =>
      exact .calls (.copy source id target { replaceExisting := force }) nofun (bind_pure_world _ _)
  | move source target force =>
      exact .calls (.move source id target { replaceExisting := force }) nofun (bind_pure_world _ _)
  | link existing name => exact .calls (.createHardLink name existing) nofun (bind_pure_world _ _)
  | symlink target name => exact .calls (.createSymlink name target) nofun (bind_pure_world _ _)
  | remove path => exact .calls (.delete path) nofun (bind_pure_world _ _)
  | truncate path size => exact .calls (.truncate path size) nofun (bind_pure_world _ _)
  | readLink path => exact .asks ((keeps_ask _).bind fun _ => keeps_pure _)
  | realPath path => exact .asks ((keeps_ask _).bind fun _ => keeps_pure _)

/-- A command leaves every volume as it was, its places among the open handles included. -/
theorem run_leaves (h : Reachable world) (hvolume : world.volume id = .ok volume)
    (hlive : volume.isLive = true) (command : Command) :
    Reachable (command.run id world).2 ∧ (command.run id world).2.volumes = world.volumes := by
  cases command.does id with
  | asks hasks =>
      have hsame : (command.run id world).2 = world := hasks world
      rw [hsame]
      exact ⟨h, rfl⟩
  | calls call hopen hrun =>
      rw [hrun]
      have hroster : World.roster _ = world.roster := call.act_keeps id hopen world
      exact ⟨h.step (.onPath id call), congrArg Roster.volumes hroster⟩
  | session path options work hwork hrun =>
      rw [hrun]
      exact ⟨id.session_reachable h hwork path options,
        VolumeId.session_volumes h.sound hvolume hlive path options hwork.keeps⟩

end Command

/-! ### Both modes -/

theorem Script.runLine_leaves (h : Reachable world) (hvolume : world.volume id = .ok volume)
    (hlive : volume.isLive = true) (line : List Char) :
    Reachable (runLine id line world).2 ∧ (runLine id line world).2.volumes = world.volumes := by
  unfold runLine
  cases Command.parse line with
  | error complaint => exact ⟨h, rfl⟩
  | ok command =>
      cases command with
      | none => exact ⟨h, rfl⟩
      | some command => exact command.run_leaves h hvolume hlive

theorem Script.runLines_volumes (hlive : volume.isLive = true) (keepGoing : Bool) (number : Nat)
    (lines : List (List Char)) (transcript : Transcript) (h : Reachable world)
    (hvolume : world.volume id = .ok volume) :
    (runLines id keepGoing number lines transcript world).2.volumes = world.volumes := by
  induction lines generalizing number transcript world with
  | nil => rfl
  | cons line rest ih =>
      obtain ⟨hreachable, hvolumes⟩ := runLine_leaves h hvolume hlive line
      rcases hline : runLine id line world with ⟨complaint | printed, middle⟩
      all_goals
        rw [hline] at hreachable hvolumes
        have hvolume' : middle.volume id = .ok volume := by
          unfold World.volume
          rw [hvolumes]
          exact hvolume
      · cases keepGoing with
        | true =>
            rw [runLines_counts hline, ih _ _ hreachable hvolume']
            exact hvolumes
        | false =>
            rw [runLines_stops hline]
            exact hvolumes
      · rw [runLines, stateBind_apply, hline]
        exact (ih _ _ hreachable hvolume').trans hvolumes

namespace Shell

variable {invocation : Invocation} {clock : Time} {script : String}

theorem code_of_run (h : prepare invocation clock = .ok (id, script, world))
    (hrun : Script.run id script invocation.keepGoing world = Script.run id script true world) :
    (run invocation clock).code = 0 ↔ Script.failures id script world = 0 := by
  have hends : (Script.run id script true world).1.1 = .ok () := (Script.runLines_keepGoing ..).1
  unfold run Script.failures
  rw [h]
  dsimp only [StateT.run]
  rw [hrun]
  rcases hkept : Script.run id script true world with ⟨⟨outcome, transcript⟩, after⟩
  rw [hkept] at hends
  obtain rfl : outcome = .ok () := hends
  dsimp only
  split <;> omega

/-- Whether the script was to keep going does not matter to how the program ends. -/
theorem code_eq_zero (h : prepare invocation clock = .ok (id, script, world)) :
    (run invocation clock).code = 0 ↔ Script.failures id script world = 0 := by
  cases hmode : invocation.keepGoing with
  | true => exact code_of_run h (by rw [hmode])
  | false =>
      rcases Script.run_agrees id script world with
        ⟨_, hsame⟩ | ⟨hsome, number, line, complaint, _, hstops⟩
      · exact code_of_run h (by rw [hmode, hsame])
      · unfold run
        rw [h]
        dsimp only [StateT.run]
        rw [hmode, hstops]
        exact ⟨nofun, fun hnone => absurd hnone (Nat.ne_of_gt hsome)⟩

end Shell

/-- A script that stops at its first failure is one that keeps going, cut there: it leaves the same
world and has printed the same, its refusal names the line that failed, and without a failure
there is no difference at all. In both modes all places among the open handles are given back,
and a program that has read its input ends well exactly when no line fails. -/
theorem script_modes_agree :
    (∀ (id : VolumeId) (script : String) (world : World),
      (Script.run id script true world).1.1 = .ok () ∧
      (Script.failures id script world = 0 →
        Script.run id script false world = Script.run id script true world) ∧
      (0 < Script.failures id script world → ∃ number line complaint,
        Script.FailsFirst id script world number line complaint ∧
        Script.run id script false world =
          ((.error ((Script.lineName (number + 1) ++ String.ofList (Text.trim line)) :: complaint),
            { out := (Script.run id (Script.cut script (number + 1)) true world).1.2.out }),
            (Script.run id (Script.cut script (number + 1)) true world).2))) ∧
    (∀ (world : World) (id : VolumeId) (volume : Volume), Reachable world →
      world.volume id = .ok volume → volume.isLive = true → ∀ (script : String) (keepGoing : Bool),
      (Script.run id script keepGoing world).2.volumes = world.volumes) ∧
    ∀ (invocation : Shell.Invocation) (clock : Time) (id : VolumeId) (script : String)
      (world : World), Shell.prepare invocation clock = .ok (id, script, world) →
      ((Shell.run invocation clock).code = 0 ↔ Script.failures id script world = 0) := by
  refine ⟨fun id script world => ⟨(Script.runLines_keepGoing ..).1, ?_, ?_⟩, ?_, ?_⟩
  · intro hnone
    rcases Script.run_agrees id script world with ⟨_, hrun⟩ | ⟨hsome, _⟩
    · exact hrun
    · exact absurd hnone (Nat.ne_of_gt hsome)
  · intro hsome
    rcases Script.run_agrees id script world with ⟨hnone, _⟩ | ⟨_, hstops⟩
    · exact absurd hnone (Nat.ne_of_gt hsome)
    · exact hstops
  · intro world id volume h hvolume hlive script keepGoing
    exact Script.runLines_volumes hlive keepGoing 1 _ {} h hvolume
  · intro invocation clock id script world hprepared
    exact Shell.code_eq_zero hprepared

/-- A world with one volume and nothing on it. -/
def World.blank : World :=
  Call.perform {} (.newVolume {})

theorem reachable_blank : Reachable World.blank := Reachable.start.step _

/-- A script whose second line fails, and a program that is to run it. -/
def Script.broken : String := "mkdir /a\nrm /x\nmkdir /b\n"

def Shell.broken : Shell.Invocation where
  config := none
  script := ⟨none, .ok Script.broken.toUTF8⟩
  keepGoing := false

theorem broken_modes_agree :
    (∃ number line complaint,
      Script.FailsFirst ⟨0⟩ Script.broken World.blank number line complaint ∧
      Script.run ⟨0⟩ Script.broken false World.blank =
        ((.error ((Script.lineName (number + 1) ++ String.ofList (Text.trim line)) :: complaint),
          { out := (Script.run ⟨0⟩ (Script.cut Script.broken (number + 1)) true
              World.blank).1.2.out }),
          (Script.run ⟨0⟩ (Script.cut Script.broken (number + 1)) true World.blank).2)) ∧
      (Script.run ⟨0⟩ Script.broken true World.blank).2.volumes = World.blank.volumes ∧
      (Shell.run Shell.broken 0).code ≠ 0 := by
  have hsome : Script.failures ⟨0⟩ Script.broken World.blank = 1 := by decide +kernel
  have hvolume : World.blank.volume ⟨0⟩ = .ok ⟨{}, [⟨0⟩], 0, 1⟩ := by decide +kernel
  have hprepared : Shell.prepare Shell.broken 0 = .ok (⟨0⟩, Script.broken, World.blank) := by
    decide +kernel
  obtain ⟨hmodes, hplaces, hcode⟩ := script_modes_agree
  refine ⟨(hmodes ⟨0⟩ Script.broken World.blank).2.2 (by rw [hsome]; exact Nat.one_pos), ?_, ?_⟩
  · exact hplaces _ _ _ reachable_blank hvolume rfl _ _
  · rw [Ne, hcode Shell.broken 0 _ _ _ hprepared, hsome]
    exact Nat.one_ne_zero

end RamFs
