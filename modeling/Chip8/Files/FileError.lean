import Chip8.Text.Quoted

/-!
# File errors

Why a file could not be used, with the path as it was handed to the system. The
message gives the number of the cause, the cause, and the quoted path.
-/

namespace Chip8

namespace FileError

inductive Cause where
  | notFound
  | alreadyExists
  | notDirectory
  | isDirectory
  | nameTooLong
  | other (code : Nat) (reason : String)
  deriving DecidableEq, Repr

def Cause.code : Cause → Nat
  | notFound => 2
  | alreadyExists => 17
  | notDirectory => 20
  | isDirectory => 21
  | nameTooLong => 36
  | other code _ => code

def Cause.reason : Cause → String
  | notFound => "No such file or directory"
  | alreadyExists => "File exists"
  | notDirectory => "Not a directory"
  | isDirectory => "Is a directory"
  | nameTooLong => "File name too long"
  | other _ reason => reason

end FileError

structure FileError where
  cause : FileError.Cause
  path : String
  deriving DecidableEq, Repr

def FileError.message (e : FileError) : String :=
  s!"[Errno {e.cause.code}] {e.cause.reason}: {Quoted.text e.path}"

end Chip8
