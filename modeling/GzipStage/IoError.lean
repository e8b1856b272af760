/-! Failures of input and output. -/
namespace GzipStage

inductive IoErrorKind where
  | addrInUse
  | addrNotAvailable
  | alreadyExists
  | argumentListTooLong
  | brokenPipe
  | connectionAborted
  | connectionRefused
  | connectionReset
  | crossesDevices
  | deadlock
  | directoryNotEmpty
  | executableFileBusy
  | fileTooLarge
  | filesystemLoop
  | hostUnreachable
  | inputOutputError
  | interrupted
  | invalidData
  | invalidFilename
  | invalidInput
  | isADirectory
  | networkDown
  | networkUnreachable
  | notADirectory
  | notConnected
  | notFound
  | notSeekable
  | other
  | outOfMemory
  | permissionDenied
  | quotaExceeded
  | readOnlyFilesystem
  | resourceBusy
  | staleNetworkFileHandle
  | storageFull
  | timedOut
  | tooManyLinks
  | tooManyOpenFiles
  | uncategorized
  | unexpectedEof
  | unsupported
  | wouldBlock
  | writeZero
  deriving DecidableEq

namespace IoErrorKind

def description : IoErrorKind → String
  | .addrInUse => "address in use"
  | .addrNotAvailable => "address not available"
  | .alreadyExists => "entity already exists"
  | .argumentListTooLong => "argument list too long"
  | .brokenPipe => "broken pipe"
  | .connectionAborted => "connection aborted"
  | .connectionRefused => "connection refused"
  | .connectionReset => "connection reset"
  | .crossesDevices => "cross-device link or rename"
  | .deadlock => "deadlock"
  | .directoryNotEmpty => "directory not empty"
  | .executableFileBusy => "executable file busy"
  | .fileTooLarge => "file too large"
  | .filesystemLoop => "filesystem loop or indirection limit (e.g. symlink loop)"
  | .hostUnreachable => "host unreachable"
  | .inputOutputError => "input/output error"
  | .interrupted => "operation interrupted"
  | .invalidData => "invalid data"
  | .invalidFilename => "invalid filename"
  | .invalidInput => "invalid input parameter"
  | .isADirectory => "is a directory"
  | .networkDown => "network down"
  | .networkUnreachable => "network unreachable"
  | .notADirectory => "not a directory"
  | .notConnected => "not connected"
  | .notFound => "entity not found"
  | .notSeekable => "seek on unseekable file"
  | .other => "other error"
  | .outOfMemory => "out of memory"
  | .permissionDenied => "permission denied"
  | .quotaExceeded => "quota exceeded"
  | .readOnlyFilesystem => "read-only filesystem or storage medium"
  | .resourceBusy => "resource busy"
  | .staleNetworkFileHandle => "stale network file handle"
  | .storageFull => "no storage space"
  | .timedOut => "timed out"
  | .tooManyLinks => "too many links"
  | .tooManyOpenFiles => "too many open files"
  | .uncategorized => "uncategorized error"
  | .unexpectedEof => "unexpected end of file"
  | .unsupported => "unsupported"
  | .wouldBlock => "operation would block"
  | .writeZero => "write zero"

end IoErrorKind

/-- The error numbers of the operating system, with their kinds and texts. -/
def systemErrors : List (Nat × IoErrorKind × String) :=
  [(1, .permissionDenied, "Operation not permitted"),
    (2, .notFound, "No such file or directory"),
    (4, .interrupted, "Interrupted system call"),
    (5, .inputOutputError, "Input/output error"),
    (9, .uncategorized, "Bad file descriptor"),
    (11, .wouldBlock, "Resource temporarily unavailable"),
    (12, .outOfMemory, "Cannot allocate memory"),
    (13, .permissionDenied, "Permission denied"),
    (16, .resourceBusy, "Device or resource busy"),
    (17, .alreadyExists, "File exists"),
    (18, .crossesDevices, "Invalid cross-device link"),
    (20, .notADirectory, "Not a directory"),
    (21, .isADirectory, "Is a directory"),
    (22, .invalidInput, "Invalid argument"),
    (24, .tooManyOpenFiles, "Too many open files"),
    (26, .executableFileBusy, "Text file busy"),
    (27, .fileTooLarge, "File too large"),
    (28, .storageFull, "No space left on device"),
    (30, .readOnlyFilesystem, "Read-only file system"),
    (31, .tooManyLinks, "Too many links"),
    (32, .brokenPipe, "Broken pipe"),
    (36, .invalidFilename, "File name too long"),
    (39, .directoryNotEmpty, "Directory not empty"),
    (40, .filesystemLoop, "Too many levels of symbolic links"),
    (116, .staleNetworkFileHandle, "Stale file handle"),
    (122, .quotaExceeded, "Disk quota exceeded")]

inductive IoError where
  /-- The operating system gave an error number. -/
  | system (number : Nat)
  /-- Only the kind is known. -/
  | plain (kind : IoErrorKind)
  /-- A layer above the operating system gave a text, with the texts of its own causes. -/
  | custom (kind : IoErrorKind) (text : String) (causes : List String)
  deriving DecidableEq

namespace IoError

def decimal (n : Nat) : String := String.ofList (Nat.toDigits 10 n)

def kind : IoError → IoErrorKind
  | .system n => ((systemErrors.lookup n).map (·.1)).getD .uncategorized
  | .plain k => k
  | .custom k _ _ => k

def text : IoError → String
  | .system n =>
    ((systemErrors.lookup n).map (·.2)).getD ("Unknown error " ++ decimal n) ++
      " (os error " ++ decimal n ++ ")"
  | .plain k => k.description
  | .custom _ text _ => text

def causes : IoError → List String
  | .custom _ _ causes => causes
  | _ => []

def isInterrupted (e : IoError) : Bool := e.kind = .interrupted

def notPermitted : IoError := .system 1

def noEntry : IoError := .system 2

def entryExists : IoError := .system 17

def notDirectory : IoError := .system 20

def isDirectory : IoError := .system 21

def noSpace : IoError := .system 28

def nameTooLong : IoError := .system 36

def tooManyLinks : IoError := .system 40

def nulInPath : IoError :=
  .custom .invalidInput "file name contained an unexpected NUL byte" []

def writeZero : IoError := .plain .writeZero

def nothingTaken : IoError := .custom .writeZero "failed to write whole buffer" []

end IoError

end GzipStage
