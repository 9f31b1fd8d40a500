import RamFs.Proofs.Commands.Grammar
import RamFs.Proofs.Sessions.Findings

/-!
Texts that a script writes and prints again. On its way a text is a part of a line, then an argument
of a command, then bytes behind other bytes in the blocks of a file, and then a part of what is
printed. No character is lost or added on the way, but for the line end of what is printed.
-/

namespace RamFs

open RamFs.Action

/-! ### Lines -/

namespace Text

/-- What can stand on a line as it is: there is no line end in it, and nothing at its end would be
taken for a part of one. -/
structure IsLine (line : List Char) : Prop where
  no_feed : '\n' ∉ line
  no_return : line.getLast? ≠ some '\r'

/-- The text consists of the lines. Each may end in either way, and the last needs no end. -/
inductive Consists : List (List Char) → List Char → Prop where
  | nil : Consists [] []
  | unended {line : List Char} : line ≠ [] → Consists [line] line
  | feed {line rest : List Char} {lines : List (List Char)} :
      Consists lines rest → Consists (line :: lines) (line ++ '\n' :: rest)
  | returnFeed {line rest : List Char} {lines : List (List Char)} :
      Consists lines rest → Consists (line :: lines) (line ++ '\r' :: '\n' :: rest)

variable {cs line front : List Char} {parts : List (List Char)} {word text : String} {c : Char}

theorem dropReturn_eq (h : line.getLast? ≠ some '\r') : dropReturn line = line := by
  unfold dropReturn
  split
  case h_1 hlast => exact absurd hlast h
  case h_2 => rfl

theorem dropReturn_concat : dropReturn (line ++ ['\r']) = line := by
  unfold dropReturn
  rw [List.getLast?_concat]
  exact List.dropLast_concat

theorem Consists.lines (h : Consists parts cs) (hparts : ∀ line ∈ parts, IsLine line) :
    lines cs = parts := by
  induction h with
  | nil => rfl
  | unended hsome =>
      rw [lines_of_unended (hparts _ (List.mem_singleton_self _)).no_feed, if_neg hsome]
  | feed _ ih =>
      obtain ⟨hline, hparts⟩ := List.forall_mem_cons.1 hparts
      rw [lines_append_cons hline.no_feed, dropReturn_eq hline.no_return, ih hparts]
  | @returnFeed line rest lines _ ih =>
      obtain ⟨hline, hparts⟩ := List.forall_mem_cons.1 hparts
      have hnone : '\n' ∉ line ++ ['\r'] := by simp [hline.no_feed]
      rw [List.append_cons, lines_append_cons hnone, dropReturn_concat, ih hparts]

/-- Nothing is dropped from the end of such a line. -/
theorem IsLine.dropTailWhile (h : IsLine line) :
    dropTailWhile (fun c => c = '\r' || c = '\n') line = line := by
  refine dropTailWhile_eq_iff.2 ⟨[], (List.append_nil line).symm, nofun, fun c hc => ?_⟩
  have hreturn : c ≠ '\r' := by
    rintro rfl
    exact h.no_return hc
  have hfeed : c ≠ '\n' := by
    rintro rfl
    exact h.no_feed (List.mem_of_getLast? hc)
  simp [hreturn, hfeed]

theorem IsLine.behind (h : IsLine line) (hfeed : '\n' ∉ front)
    (hreturn : front.getLast? ≠ some '\r') : IsLine (front ++ line) where
  no_feed := by simp [hfeed, h.no_feed]
  no_return := by
    rw [List.getLast?_append]
    cases hlast : line.getLast? with
    | none => exact hreturn
    | some c => exact fun hc => h.no_return (hlast.trans hc)

theorem IsWord.isLine (h : IsWord word) : IsLine word.toList where
  no_feed hmem := absurd (h.not_blank _ hmem) (by decide)
  no_return hlast := absurd (h.not_blank _ (List.mem_of_getLast? hlast)) (by decide)

/-! ### Bytes -/

theorem bytes_eq (text : String) :
    text.toUTF8.data.toList = text.toList.flatMap String.utf8EncodeChar := by
  rw [String.toUTF8_eq_toByteArray, ← String.utf8Encode_toList, List.utf8Encode,
    List.data_toByteArray]

theorem bytes_append (text more : String) :
    (text ++ more).toUTF8.data.toList = text.toUTF8.data.toList ++ more.toUTF8.data.toList := by
  rw [bytes_eq, String.toList_append, List.flatMap_append, ← bytes_eq, ← bytes_eq]

/-- The byte of a line feed is a part of no other character. -/
theorem feed_of_mem_encoded (h : 10 ∈ String.utf8EncodeChar c) : c = '\n' := by
  have hten : ∀ n, (10 : UInt8) = UInt8.ofNat n → n % 256 = 10 := fun n hn => by
    have htoNat := congrArg UInt8.toNat hn
    rw [UInt8.toNat_ofNat'] at htoNat
    exact htoNat.symm
  unfold String.utf8EncodeChar at h
  dsimp only at h
  split at h
  case isTrue hsmall =>
    have hcode := hten _ (List.mem_singleton.1 h)
    rw [Nat.mod_eq_of_lt (by omega)] at hcode
    exact Char.ext (UInt32.toNat_inj.1 hcode)
  case isFalse =>
    -- each byte of a longer encoding has its highest bit set
    split at h
    case isTrue =>
      simp only [List.mem_cons, List.not_mem_nil, or_false] at h
      rcases h with h | h <;> have := hten _ h <;> omega
    case isFalse =>
      split at h
      all_goals simp only [List.mem_cons, List.not_mem_nil, or_false] at h
      · rcases h with h | h | h <;> have := hten _ h <;> omega
      · rcases h with h | h | h | h <;> have := hten _ h <;> omega

theorem feed_of_mem_bytes (h : 10 ∈ text.toUTF8.data.toList) : '\n' ∈ text.toList := by
  rw [bytes_eq, List.mem_flatMap] at h
  obtain ⟨c, hc, hten⟩ := h
  exact feed_of_mem_encoded hten ▸ hc

theorem no_feed_join {texts : List String} (htexts : ∀ text ∈ texts, IsLine text.toList) :
    '\n' ∉ (String.join texts).toList := by
  rw [String.toList_join, List.mem_flatMap]
  rintro ⟨text, htext, hfeed⟩
  exact (htexts text htext).no_feed hfeed

end Text

/-- A text without line feeds is shown with one behind it, unless it is empty. -/
theorem Command.shown_text {text : String} (h : '\n' ∉ text.toList) :
    shown text.toUTF8.data.toList = if text = "" then [] else lineOf text := by
  unfold shown
  split
  case h_1 hnone =>
    have hempty : text = "" := by
      have hbytes := List.getLast?_eq_none_iff.1 hnone
      rw [Text.bytes_eq, List.flatMap_eq_nil_iff] at hbytes
      refine String.toList_eq_nil_iff.1 (List.eq_nil_iff_forall_not_mem.2 fun c hc => ?_)
      exact String.utf8EncodeChar_ne_nil (hbytes c hc)
    rw [if_pos hempty]
  case h_2 last hlast =>
    have hmem := List.mem_of_getLast? hlast
    have hsome : text ≠ "" := by
      rintro rfl
      cases hmem
    have hfeed : last ≠ 10 := by
      rintro rfl
      exact h (Text.feed_of_mem_bytes hmem)
    rw [if_neg hfeed, if_neg hsome]
    exact (Text.bytes_append text "\n").symm

/-! ### Commands -/

namespace Script

/-- A line that gives a text to a path. -/
def textLine (name path text : String) : String :=
  name ++ " " ++ path ++ " " ++ text

/-- The lines that write a text to a path and append others to it. -/
def writeLines (path first : String) (rest : List String) : List String :=
  textLine "write" path first :: rest.map (textLine "append" path)

/-- The line that prints the file of a path. -/
def printLine (path : String) : String :=
  "cat " ++ path

variable {world after : World} {id : VolumeId} {name path text written : String}
  {rest : List String} {line : List Char} {command : Command} {printed out : Bytes}
  {finding : Finding} {file : FlatFile}

theorem textLine_isLine (hname : Text.IsWord name) (hpath : Text.IsWord path)
    (htext : Text.IsLine text.toList) : Text.IsLine (textLine name path text).toList := by
  unfold textLine
  rw [String.toList_append]
  refine htext.behind ?_ ?_
  · simp [String.toList_append, hname.isLine.no_feed, hpath.isLine.no_feed]
  · rw [String.toList_append]
    change (_ ++ [' ']).getLast? ≠ _
    rw [List.getLast?_concat]
    decide

theorem writeLines_isLine {first : String} (hpath : Text.IsWord path)
    (htexts : ∀ text ∈ first :: rest, Text.IsLine text.toList) :
    ∀ line ∈ (writeLines path first rest).map String.toList, Text.IsLine line := by
  obtain ⟨hfirst, hrest⟩ := List.forall_mem_cons.1 htexts
  unfold writeLines
  rw [List.map_cons, List.forall_mem_cons]
  refine ⟨textLine_isLine Command.isWord_write hpath hfirst, ?_⟩
  simp only [List.map_map, List.forall_mem_map]
  exact fun text htext => textLine_isLine Command.isWord_append hpath (hrest text htext)

theorem textLine_read (hpath : Text.IsWord path) (text : String) :
    Command.TextLine name (textLine name path text).toList path text := by
  refine ⟨[], ' ' :: (path.toList ++ ' ' :: text.toList), ?_, nofun, ?_, [' '], ' ' :: text.toList,
    rfl, ?_, hpath, ?_, .inl rfl⟩
  · simp [textLine, String.toList_append]
  all_goals simp [Text.isBlank]

theorem printLine_isLine (hpath : Text.IsWord path) : Text.IsLine (printLine path).toList := by
  unfold printLine
  rw [String.toList_append]
  exact hpath.isLine.behind (by decide) (by decide)

theorem printLine_read (hpath : Text.IsWord path) :
    Command.parse (printLine path).toList = .ok (some (.print path)) := by
  rw [Command.parse_eq_ok_some (printLine_isLine hpath).dropTailWhile]
  have hcat : Text.IsWord "cat" := by decide
  have hblank : ∀ c ∈ [' '], Text.isBlank c = true := by simp [Text.isBlank]
  have hwords : Text.words (printLine path).toList = ["cat", path] := by
    calc
      Text.words (printLine path).toList
      _ = Text.words ("cat".toList ++ ([' '] ++ path.toList)) := by
          unfold printLine
          rw [String.toList_append]
          rfl
      _ = "cat" :: Text.words ([' '] ++ path.toList) :=
          Text.words_word_append hcat (by simp [Text.isBlank])
      _ = ["cat", path] := by rw [Text.words_append_of_blank hblank, Text.words_of_isWord hpath]
  exact .byWords (hwords ▸ .print path)

/-! ### Runs -/

theorem runLine_of_parse (hparse : Command.parse line = .ok (some command)) (world : World) :
    runLine id line world =
      ((command.run id world).1.mapError Failure.chain, (command.run id world).2) := by
  unfold runLine
  rw [hparse]
  rfl

theorem ran_of_runLine (hparse : Command.parse line = .ok (some command))
    (hrun : runLine id line world = (.ok printed, after)) :
    command.run id world = (.ok printed, after) := by
  rw [runLine_of_parse hparse] at hrun
  rcases hcommand : command.run id world with ⟨failure | bytes, middle⟩ <;> rw [hcommand] at hrun
  · cases hrun
  · cases hrun
    rfl

theorem writeLine_succeeds (hpath : Text.IsWord path) (htext : Text.IsLine text.toList)
    (hrun : runLine id (textLine "write" path text).toList world = (.ok printed, after)) :
    printed = [] ∧ id.writeAll path text.toUTF8.data.toList world = (.ok (), after) := by
  have hline := textLine_isLine Command.isWord_write hpath htext
  have hparse := (Command.parse_eq_ok_write hline.dropTailWhile).2 (textLine_read hpath text)
  obtain ⟨_, middle, hwrite, hrest⟩ := ran_of_bind_ok (ran_of_runLine hparse hrun)
  cases hrest
  exact ⟨rfl, hwrite⟩

theorem appendLine_succeeds (hpath : Text.IsWord path) (htext : Text.IsLine text.toList)
    (hrun : runLine id (textLine "append" path text).toList world = (.ok printed, after)) :
    printed = [] ∧ id.session path .appending
      (fun handle => handle.write text.toUTF8.data.toList) world = (.ok (), after) := by
  have hline := textLine_isLine Command.isWord_append hpath htext
  have hparse := (Command.parse_eq_ok_append hline.dropTailWhile).2 (textLine_read hpath text)
  have hcommand := ran_of_runLine hparse hrun
  rw [Command.append_run] at hcommand
  obtain ⟨_, middle, hwrite, hrest⟩ := ran_of_bind_ok hcommand
  cases hrest
  exact ⟨rfl, hwrite⟩

/-- Each text goes behind those before it. -/
theorem appendLines_succeed (hpath : Text.IsWord path)
    (htexts : ∀ text ∈ rest, Text.IsLine text.toList) (h : Reachable world)
    (hstands : finding.Stands world id path)
    (hfile : world.flat? finding.file.inode = some file)
    (hbytes : file.bytes = written.toUTF8.data.toList)
    (hrun : Succeed id world ((rest.map (textLine "append" path)).map String.toList) out after) :
    out = [] ∧ Reachable after ∧ finding.Stands after id path ∧
      ∃ file, after.flat? finding.file.inode = some file ∧
        file.bytes = (written ++ String.join rest).toUTF8.data.toList := by
  induction rest generalizing world written file out with
  | nil =>
      cases hrun
      rw [String.join_nil, String.append_empty]
      exact ⟨rfl, h, hstands, file, hfile, hbytes⟩
  | cons text rest ih =>
      obtain ⟨htext, htexts⟩ := List.forall_mem_cons.1 htexts
      cases hrun with
      | cons hline hlater =>
          have hreach := (runLine_leaves h hstands.volume hstands.live
            (textLine "append" path text).toList).1
          rw [hline] at hreach
          obtain ⟨rfl, hsession⟩ := appendLine_succeeds hpath htext hline
          obtain ⟨hstands', hfile'⟩ := VolumeId.append_stands h hstands hfile hsession
          rw [String.join_cons, ← String.append_assoc]
          refine ih htexts hreach hstands' hfile' ?_ hlater
          rw [Text.bytes_append, hbytes]

/-- The file of the path holds the texts of all lines. -/
theorem writeLines_succeed {before : World} {config : Config} {first : String}
    (hpath : Text.IsWord path) (htexts : ∀ text ∈ first :: rest, Text.IsLine text.toList)
    (h : Reachable before) (hnew : newVolume config before = (.ok id, world))
    (hrun : Succeed id world ((writeLines path first rest).map String.toList) out after) :
    out = [] ∧ Reachable after ∧ ∃ finding : Finding, finding.Stands after id path ∧
      ∃ file, after.flat? finding.file.inode = some file ∧
        file.bytes = (String.join (first :: rest)).toUTF8.data.toList := by
  obtain ⟨hfirst, hrest⟩ := List.forall_mem_cons.1 htexts
  cases hrun with
  | @cons _ middle _ _ _ _ _ hline hlater =>
      obtain ⟨rfl, hwrite⟩ := writeLine_succeeds hpath hfirst hline
      obtain ⟨finding, hstands, file, hfile, hbytes⟩ := VolumeId.writeAll_new h hnew hwrite
      have hreach : Reachable middle := by
        have hmade := h.step (.newVolume config)
        change Reachable (newVolume config before).2 at hmade
        have hwritten := hmade.step (.writeAll id path first.toUTF8.data.toList)
        change Reachable (id.writeAll path first.toUTF8.data.toList _).2 at hwritten
        rwa [hnew, hwrite] at hwritten
      obtain ⟨rfl, hafter, hstands', hfile'⟩ :=
        appendLines_succeed hpath hrest hreach hstands hfile hbytes hlater
      rw [String.join_cons]
      exact ⟨rfl, hafter, finding, hstands', hfile'⟩

theorem printLine_prints (hpath : Text.IsWord path) (h : Reachable world)
    (hstands : finding.Stands world id path)
    (hfile : world.flat? finding.file.inode = some file) :
    (runLine id (printLine path).toList world).1 = .ok (Command.shown file.bytes) := by
  have hread := VolumeId.readAll_stands h.sound hstands hfile
  rw [runLine_of_parse (printLine_read hpath)]
  rcases hrun : id.readAll path world with ⟨outcome, middle⟩
  rw [hrun] at hread
  obtain rfl : outcome = .ok file.bytes := hread
  have hprint : (Command.print path).run id world = (.ok (Command.shown file.bytes), middle) := by
    change (id.readAll path >>= fun bytes => pure (Command.shown bytes)) world = _
    rw [bind_ok hrun]
    rfl
  rw [hprint]
  rfl

end Script

/-- What a script gives to a path of a new volume comes back when it prints the file: the texts of
its lines, one behind the other, and a line feed if there is anything. -/
theorem text_arrives_unchanged {before world : World} {config : Config} {id : VolumeId}
    (h : Reachable before) (hnew : newVolume config before = (.ok id, world))
    {path first : String} {rest : List String} (hpath : Text.IsWord path)
    (htexts : ∀ text ∈ first :: rest, Text.IsLine text.toList) {script : String}
    (hscript : Text.Consists
      ((Script.writeLines path first rest ++ [Script.printLine path]).map String.toList)
      script.toList)
    (hsucceed : Script.failures id (Script.cut script (rest.length + 1)) world = 0)
    (keepGoing : Bool) :
    (Script.run id script keepGoing world).1 = (.ok (),
      { out := if String.join (first :: rest) = "" then []
          else Command.lineOf (String.join (first :: rest)) }) := by
  have hlines : Text.lines script.toList =
      (Script.writeLines path first rest).map String.toList ++
        [(Script.printLine path).toList] := by
    rw [List.map_append] at hscript
    refine hscript.lines fun line hline => ?_
    obtain hline | hline := List.mem_append.1 hline
    · exact Script.writeLines_isLine hpath htexts line hline
    · exact List.mem_singleton.1 hline ▸ Script.printLine_isLine hpath
  have hcut : Text.lines (Script.cut script (rest.length + 1)).toList =
      (Script.writeLines path first rest).map String.toList := by
    unfold Script.cut
    rw [String.toList_ofList, Text.lines_firstLines, hlines]
    exact List.take_left' (by simp [Script.writeLines])
  obtain ⟨out, after, hwritten⟩ := Script.succeed_of_failures hsucceed
  rw [hcut] at hwritten
  obtain ⟨rfl, hafter, finding, hstands, file, hfile, hbytes⟩ :=
    Script.writeLines_succeed hpath htexts h hnew hwritten
  have hprint := Script.printLine_prints hpath hafter hstands hfile
  rw [hbytes, Command.shown_text (Text.no_feed_join htexts)] at hprint
  have hlast : Script.Succeed id after [(Script.printLine path).toList] _ _ :=
    .cons (Prod.ext hprint rfl) .nil
  unfold Script.run
  rw [hlines, hwritten.runLines_append, hlast.runLines, List.append_nil, List.append_nil]
  rfl

/-- Blanks on both sides, a mark of a comment, a letter of two bytes and nothing at all. -/
def Script.annotated : String :=
  "write /f  # a\t\r\nappend /f é \nappend /f \ncat /f"

theorem annotated_text_arrives :
    Script.failures ⟨0⟩ (Script.cut Script.annotated 3) World.blank = 0 ∧
      (Script.run ⟨0⟩ Script.annotated false World.blank).1 =
        (.ok (), { out := Command.lineOf " # a\té " }) := by
  have hmade : (newVolume {} {}).1 = .ok ⟨0⟩ := by decide +kernel
  have hnew : newVolume {} {} = (.ok ⟨0⟩, World.blank) := Prod.ext hmade rfl
  have hpath : Text.IsWord "/f" := by decide
  have htexts : ∀ text ∈ [" # a\t", "é ", ""], Text.IsLine text.toList := by
    simp only [List.forall_mem_cons]
    exact ⟨⟨by decide, by decide⟩, ⟨by decide, by decide⟩, ⟨by decide, by decide⟩, nofun⟩
  have hscript : Text.Consists
      ((Script.writeLines "/f" " # a\t" ["é ", ""] ++ [Script.printLine "/f"]).map String.toList)
      Script.annotated.toList := by
    have hlines : (Script.writeLines "/f" " # a\t" ["é ", ""] ++ [Script.printLine "/f"]).map
        String.toList = ["write /f  # a\t".toList, "append /f é ".toList, "append /f ".toList,
          "cat /f".toList] := by decide +kernel
    have htext : Script.annotated.toList = "write /f  # a\t".toList ++ '\r' :: '\n' ::
        ("append /f é ".toList ++ '\n' :: ("append /f ".toList ++ '\n' :: "cat /f".toList)) := by
      decide +kernel
    rw [hlines, htext]
    exact .returnFeed (.feed (.feed (.unended (by decide))))
  have hsucceed : Script.failures ⟨0⟩ (Script.cut Script.annotated 3) World.blank = 0 := by
    decide +kernel
  have hjoin : String.join [" # a\t", "é ", ""] = " # a\té " := by decide +kernel
  refine ⟨hsucceed, ?_⟩
  rw [text_arrives_unchanged .start hnew hpath htexts hscript hsucceed false, hjoin]
  rfl

end RamFs
