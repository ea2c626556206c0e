/-!
Ordinary errors: what an operation of the kernel returns when it declines or cannot finish.
-/

namespace DemandPaging

/-- An error that a system call can hand to its caller. -/
inductive Errno where
  | operationNotPermitted
  | noSuchEntry
  | ioError
  | badFileDescriptor
  | noMemory
  | invalidAccess
  | badAddress
  | busy
  | fileExist
  | invalidArgument
  | noSpace
  | notSupportedOperation
  deriving DecidableEq

namespace Errno

/-- Every error, each once. -/
def all : List Errno :=
  [operationNotPermitted, noSuchEntry, ioError, badFileDescriptor, noMemory, invalidAccess, badAddress, busy,
    fileExist, invalidArgument, noSpace, notSupportedOperation]

/-- The name by which messages cite the error. -/
def name : Errno → String
  | operationNotPermitted => "OperationNotPermitted"
  | noSuchEntry => "NoSuchEntry"
  | ioError => "IOError"
  | badFileDescriptor => "BadFileDescriptor"
  | noMemory => "NoMemory"
  | invalidAccess => "InvalidAccess"
  | badAddress => "BadAddress"
  | busy => "Busy"
  | fileExist => "FileExist"
  | invalidArgument => "InvalidArgument"
  | noSpace => "NoSpace"
  | notSupportedOperation => "NotSupportedOperation"

/-- The description shown to a user. -/
def message : Errno → String
  | operationNotPermitted => "operation not permitted"
  | noSuchEntry => "no such entry"
  | ioError => "I/O error"
  | badFileDescriptor => "bad file descriptor"
  | noMemory => "out of memory"
  | invalidAccess => "invalid access"
  | badAddress => "bad address"
  | busy => "device or resource busy"
  | fileExist => "already exists"
  | invalidArgument => "invalid argument"
  | noSpace => "no space left on device"
  | notSupportedOperation => "operation not supported"

/-- The positive error number. -/
def number : Errno → Nat
  | operationNotPermitted => 1
  | noSuchEntry => 2
  | ioError => 5
  | badFileDescriptor => 9
  | noMemory => 12
  | invalidAccess => 13
  | badAddress => 14
  | busy => 16
  | fileExist => 17
  | invalidArgument => 22
  | noSpace => 28
  | notSupportedOperation => 524

/-- The word that a system call returns for the error: its number negated in two's complement. -/
def toWord (e : Errno) : Nat := 1 <<< 64 - e.number

/-- The error with a given name. -/
def ofName? (n : String) : Option Errno := all.find? fun e => e.name == n

end Errno

end DemandPaging
