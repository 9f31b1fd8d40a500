/-!
Why an operation is refused. A failure of the store is one of a fixed list of causes
or a failure of a byte stream that took part in a transfer. Stream failures carry a
kind, which programs look at, and a text, which people read; a failure that passes
through a stream interface keeps its text and becomes a stream failure.
-/

namespace RamFs

inductive StreamErrorKind where
  | notFound
  | permissionDenied
  | notADirectory
  | isADirectory
  | directoryNotEmpty
  | alreadyExists
  | resourceBusy
  | interrupted
  | invalidInput
  | invalidData
  | fileTooLarge
  | crossesDevices
  | brokenPipe
  | unexpectedEnd
  | writeZero
  | other
  deriving DecidableEq, Repr

structure StreamError where
  kind : StreamErrorKind
  message : String
  deriving DecidableEq, Repr

inductive Failure where
  | notFound
  | notADirectory
  | isADirectory
  | notASymlink
  | alreadyExists
  | directoryNotEmpty
  | stillOpen
  | linkLoop
  | lockConflict
  | capacityExceeded
  | interrupted
  | invalidArgument
  | invalidName
  | accessDenied
  | closed
  | tooManyOpenFiles
  | crossDevice
  | stream (error : StreamError)
  deriving DecidableEq, Repr

namespace Failure

def message : Failure → String
  | notFound => "no such entry"
  | notADirectory => "not a directory"
  | isADirectory => "is a directory"
  | notASymlink => "not a symbolic link"
  | alreadyExists => "file already exists"
  | directoryNotEmpty => "directory not empty"
  | stillOpen => "entry is open"
  | linkLoop => "too many levels of symbolic links"
  | lockConflict => "already locked"
  | capacityExceeded => "capacity exceeded"
  | interrupted => "interrupted"
  | invalidArgument => "invalid argument"
  | invalidName => "name not allowed"
  | accessDenied => "access denied"
  | closed => "handle is closed"
  | tooManyOpenFiles => "too many open files"
  | crossDevice => "cross-device link"
  | stream error => "io error: " ++ error.message

/-- The failure's own text, then the text of what caused it. -/
def chain (failure : Failure) : List String :=
  match failure with
  | stream error => [failure.message, error.message]
  | _ => [failure.message]

def streamKind : Failure → StreamErrorKind
  | notFound => .notFound
  | notADirectory => .notADirectory
  | isADirectory => .isADirectory
  | alreadyExists => .alreadyExists
  | directoryNotEmpty => .directoryNotEmpty
  | stillOpen | lockConflict => .resourceBusy
  | interrupted => .interrupted
  | invalidArgument | invalidName | notASymlink => .invalidInput
  | accessDenied => .permissionDenied
  | capacityExceeded => .fileTooLarge
  | crossDevice => .crossesDevices
  | linkLoop | closed | tooManyOpenFiles => .other
  | stream error => error.kind

/-- The failure as a stream interface reports it. -/
def toStreamError (failure : Failure) : StreamError :=
  match failure with
  | stream error => error
  | _ => ⟨failure.streamKind, failure.message⟩

end Failure

end RamFs
