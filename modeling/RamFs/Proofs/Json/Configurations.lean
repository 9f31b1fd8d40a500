import RamFs.Config.Json
import RamFs.Proofs.Json.Parts

/-!
Configurations as JSON. What a text gives is read back and what it leaves out takes its default,
inside a nested object too. The order of the members, members of other names, whitespace and the
spelling of strings make no difference.
-/

namespace RamFs

open Json Json.Scan

/-- The value if its name is among the given names, the default otherwise. -/
def given {α : Type} (names : List String) (name : String) (value default : α) : α :=
  if name ∈ names then value else default

namespace Limits

/-- The limits of these names, and the defaults of the others. -/
def only (limits : Limits) (names : List String) : Limits where
  maxOpenHandles :=
    given names "max_open_handles" limits.maxOpenHandles ({} : Limits).maxOpenHandles
  maxFileBlocks := given names "max_file_blocks" limits.maxFileBlocks ({} : Limits).maxFileBlocks

end Limits

namespace Defaults

def only (defaults : Defaults) (names : List String) : Defaults where
  fileMode := given names "file_mode" defaults.fileMode ({} : Defaults).fileMode
  dirMode := given names "dir_mode" defaults.dirMode ({} : Defaults).dirMode
  uid := given names "uid" defaults.uid ({} : Defaults).uid
  gid := given names "gid" defaults.gid ({} : Defaults).gid

end Defaults

namespace Config

def only (config : Config) (names : List String) : Config where
  collation := given names "case_sensitivity" config.collation ({} : Config).collation
  roots := given names "roots" config.roots ({} : Config).roots
  resolution := given names "timestamp_resolution" config.resolution ({} : Config).resolution
  limits := given names "limits" config.limits ({} : Config).limits
  defaults := given names "defaults" config.defaults ({} : Config).defaults

/-- The configuration with what a part gives of its limits and defaults. -/
def within (config : Config) (part : Json) : Config :=
  { config with
    limits := config.limits.only (part.member "limits").names
    defaults := config.defaults.only (part.member "defaults").names }

/-- The configuration that a part gives: fields that are left out take their defaults. -/
def portion (config : Config) (part : Json) : Config :=
  (config.within part).only part.names

end Config

theorem Limits.reads (limits : Limits) {part : Json} (h : PartOf part limits.toJson) :
    Reads (recordFrom fields {}) part (limits.only part.names) := by
  have hscalar (n : Nat) : ∀ members, natural n ≠ .object members := nofun
  refine reads_part fields limits.only rfl (by decide) h ?_ ?_
  · simp only [fields, List.zip_cons_cons, List.forall_mem_cons]
    refine ⟨fun h => sets_scalar h (hscalar _) (reads_uint32 _) ?_,
      fun h => sets_scalar h (hscalar _) (reads_uint32 _) ?_, nofun⟩
    all_goals simp [only, given]
  · intro name hname names
    simp only [fields, RecordField.of, List.forall_mem_cons] at hname
    simp [only, given, hname]

theorem Defaults.reads (defaults : Defaults) {part : Json} (h : PartOf part defaults.toJson) :
    Reads (recordFrom fields {}) part (defaults.only part.names) := by
  have hscalar (n : Nat) : ∀ members, natural n ≠ .object members := nofun
  refine reads_part fields defaults.only rfl (by decide) h ?_ ?_
  · simp only [fields, List.zip_cons_cons, List.forall_mem_cons]
    refine ⟨fun h => sets_scalar h (hscalar _) (reads_uint32 _) ?_,
      fun h => sets_scalar h (hscalar _) (reads_uint32 _) ?_,
      fun h => sets_scalar h (hscalar _) (reads_uint32 _) ?_,
      fun h => sets_scalar h (hscalar _) (reads_uint32 _) ?_, nofun⟩
    all_goals simp [only, given]
  · intro name hname names
    simp only [fields, RecordField.of, List.forall_mem_cons] at hname
    simp [only, given, hname]

theorem Collation.lookup_name (collation : Collation) :
    Collation.choices.lookup collation.name = some collation := by
  cases collation <;> rfl

theorem Resolution.lookup_name (resolution : Resolution) :
    Resolution.choices.lookup resolution.name = some resolution := by
  cases resolution <;> rfl

theorem Config.reads (config : Config) {part : Json} (h : PartOf part config.toJson) :
    Reads (recordFrom fields {}) part (config.portion part) := by
  refine reads_part fields (config.within part).only rfl (by decide) h ?_ ?_
  · simp only [fields, List.zip_cons_cons, List.forall_mem_cons]
    refine ⟨fun h => sets_scalar h nofun (reads_choice config.collation.lookup_name) ?_,
      fun h => sets_scalar h nofun (reads_strings config.roots) ?_,
      fun h => sets_scalar h nofun (reads_choice config.resolution.lookup_name) ?_,
      fun h => sets_of (config.limits.reads h) ?_,
      fun h => sets_of (config.defaults.reads h) ?_, nofun⟩
    all_goals simp [within, only, given, RecordField.of]
  · intro name hname names
    simp only [fields, RecordField.of, List.forall_mem_cons] at hname
    simp [only, given, hname]

theorem Config.portion_toJson (config : Config) : config.portion config.toJson = config := rfl

/-! ### A part of a configuration -/

/-- A configuration of which no field has its default. -/
def Config.sample : Config where
  collation := .insensitivePreserving
  roots := ["C:"]
  resolution := .seconds
  limits := { maxOpenHandles := 3, maxFileBlocks := 7 }
  defaults := { fileMode := 1, dirMode := 2, uid := 3, gid := 4 }

/-- Two of its fields, one of them in part, in another order and with a member of another name. -/
def Config.samplePart : Json :=
  .object [("limits", .object [("max_file_blocks", natural 7)]), ("note", .array []),
    ("roots", .array [.string "C:"])]

def Config.sampleText : String :=
  "\x7b \"limits\" : \x7b\"max_file_blocks\":7\x7d, \"note\": [], \"roots\":[\"\\u0043:\"] \x7d"

theorem Config.samplePart_partOf : PartOf samplePart sample.toJson := by
  have hlimits : PartOf (.object [("max_file_blocks", natural 7)]) sample.limits.toJson := by
    refine .object ?_ (by decide)
    intro name value given hvalue hgiven
    obtain ⟨rfl, rfl⟩ := Prod.mk.inj (List.mem_singleton.1 hgiven)
    obtain rfl : value = natural sample.limits.maxFileBlocks.toNat := by simpa using hvalue
    exact .same
  refine .object ?_ (by decide)
  intro name value given hvalue hgiven
  simp only [List.mem_cons, List.not_mem_nil, or_false, Prod.mk.injEq] at hgiven
  rcases hgiven with ⟨rfl, rfl⟩ | ⟨rfl, rfl⟩ | ⟨rfl, rfl⟩
  · obtain rfl : value = sample.limits.toJson := by simpa using hvalue
    exact hlimits
  · simp at hvalue
  · obtain rfl : value = .array (sample.roots.map .string) := by simpa using hvalue
    exact .same

theorem Config.sampleText_represents : Represents samplePart sampleText := by
  have hspace : IsSpace [' '] := by decide
  have hletter : WritesChar 'C' ['\\', 'u', '0', '0', '4', '3'] := .unit (isUnit_of_lt (by decide))
  have hroots : Writes (.value (.array [.string "C:"])) _ :=
    .array (.lastItem isSpace_nil (.string (.cons hletter (writesChars_escape [':']))) isSpace_nil)
  have hlimits : Writes (.member "limits" (.object [("max_file_blocks", natural 7)])) _ :=
    .member (writesChars_escape _) hspace hspace (writes_chars _)
  have hnote : Writes (.member "note" (.array [])) _ :=
    .member (writesChars_escape _) isSpace_nil hspace (writes_chars _)
  have hmembers := Writes.nextMember hspace hlimits isSpace_nil (List.cons_ne_nil _ _)
    (.nextMember hspace hnote isSpace_nil (List.cons_ne_nil _ _)
      (.lastMember hspace (hroots.named "roots") hspace))
  exact .text isSpace_nil (.object hmembers) isSpace_nil (by decide)

/-- A text of a part gives that part, and the text a configuration is written as gives all of it. -/
theorem configuration_survives_json (config : Config) :
    (∀ part text, PartOf part config.toJson → Represents part text →
      Config.ofJson text = .ok (config.portion part)) ∧
    Config.ofJson config.toJson.render = .ok config := by
  have hread : ∀ part text, PartOf part config.toJson → Represents part text →
      Config.ofJson text = .ok (config.portion part) := fun part text hpart htext =>
    readAll_represents (config.reads hpart) htext
  refine ⟨hread, ?_⟩
  rw [hread _ _ .same (represents_render _), config.portion_toJson]

theorem sample_text_is_read : PartOf Config.samplePart Config.sample.toJson ∧
    Represents Config.samplePart Config.sampleText ∧
    Config.ofJson Config.sampleText =
      .ok { roots := ["C:"], limits := { maxFileBlocks := 7 } } :=
  ⟨Config.samplePart_partOf, Config.sampleText_represents,
    (configuration_survives_json Config.sample).1 _ _ Config.samplePart_partOf
      Config.sampleText_represents⟩

end RamFs
