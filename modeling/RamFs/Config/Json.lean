import RamFs.Config
import RamFs.Json.Record

/-!
The JSON form of a configuration: an object with one member per field, nested objects
for the limits and the defaults. On reading, each field may be left out and takes its
default.
-/

namespace RamFs

open Json Json.Scan

namespace Collation

def choices : List (String × Collation) :=
  [("Sensitive", .sensitive), ("InsensitivePreserving", .insensitivePreserving)]

def name : Collation → String
  | .sensitive => "Sensitive"
  | .insensitivePreserving => "InsensitivePreserving"

end Collation

namespace Resolution

def choices : List (String × Resolution) :=
  [("Nanoseconds", .nanoseconds), ("Microseconds", .microseconds),
    ("Milliseconds", .milliseconds), ("Seconds", .seconds)]

def name : Resolution → String
  | .nanoseconds => "Nanoseconds"
  | .microseconds => "Microseconds"
  | .milliseconds => "Milliseconds"
  | .seconds => "Seconds"

end Resolution

namespace Limits

def toJson (limits : Limits) : Json :=
  .object
    [("max_open_handles", natural limits.maxOpenHandles.toNat),
      ("max_file_blocks", natural limits.maxFileBlocks.toNat)]

def fields : List (RecordField Limits) :=
  [.of "max_open_handles" uint32 fun value limits => { limits with maxOpenHandles := value },
    .of "max_file_blocks" uint32 fun value limits => { limits with maxFileBlocks := value }]

end Limits

namespace Defaults

def toJson (defaults : Defaults) : Json :=
  .object
    [("file_mode", natural defaults.fileMode.toNat), ("dir_mode", natural defaults.dirMode.toNat),
      ("uid", natural defaults.uid.toNat), ("gid", natural defaults.gid.toNat)]

def fields : List (RecordField Defaults) :=
  [.of "file_mode" uint32 fun value defaults => { defaults with fileMode := value },
    .of "dir_mode" uint32 fun value defaults => { defaults with dirMode := value },
    .of "uid" uint32 fun value defaults => { defaults with uid := value },
    .of "gid" uint32 fun value defaults => { defaults with gid := value }]

end Defaults

namespace Config

def toJson (config : Config) : Json :=
  .object
    [("case_sensitivity", .string config.collation.name),
      ("roots", .array (config.roots.map .string)),
      ("timestamp_resolution", .string config.resolution.name),
      ("limits", config.limits.toJson),
      ("defaults", config.defaults.toJson)]

def fields : List (RecordField Config) :=
  [.of "case_sensitivity" (choice Collation.choices) fun value config =>
      { config with collation := value },
    .of "roots" strings fun value config => { config with roots := value },
    .of "timestamp_resolution" (choice Resolution.choices) fun value config =>
      { config with resolution := value },
    .of "limits" (recordFrom Limits.fields {}) fun value config => { config with limits := value },
    .of "defaults" (recordFrom Defaults.fields {}) fun value config =>
      { config with defaults := value }]

def ofJson (text : String) : Except Fault Config :=
  readAll (recordFrom fields {}) text

end Config

end RamFs
