import Std.Time
import Chip8.CommandLine.Program

/-!
# The executable

The host of the real world: files, the monotonic clock, the standard streams.
-/

open Chip8 CommandLine

namespace Chip8.Executable

/-- The system's number for an error, whichever sign it is passed on with. -/
def errorNumber (code : UInt32) : Nat :=
  min code.toNat (0 - code).toNat

def cause : IO.Error → FileError.Cause
  | .noFileOrDirectory _ _ _ => .notFound
  | .alreadyExists _ _ _ => .alreadyExists
  | .inappropriateType _ code _ =>
    if errorNumber code = FileError.Cause.notDirectory.code then .notDirectory else .isDirectory
  | .invalidArgument _ code details =>
    if errorNumber code = FileError.Cause.nameTooLong.code then .nameTooLong
    else .other (errorNumber code) details
  | .permissionDenied _ code _ => .other (errorNumber code) "Permission denied"
  | e => .other 0 (toString e)

/-- What is done with the file of a name. -/
def attempt {α : Type} (p : PathName) (act : String → IO α) : IO (Except FileError α) := do
  try
    return .ok (← act p.text)
  catch e => return .error ⟨cause e, p.text⟩

def append (p : PathName) (text : String) : IO (Except FileError Unit) :=
  attempt p fun path => do
    let handle ← IO.FS.Handle.mk path .append
    handle.putStr text

def isDirectory (p : PathName) : IO Bool := do
  ((← IO.currentDir) / p.text).isDir

/-- The local time to the millisecond. -/
def timeStamp : IO String := do
  let t ← Std.Time.PlainDateTime.now
  return t.format "uuuu-MM-dd HH:mm:ss,SSS"

def seconds (nanoseconds : Nat) : Float :=
  nanoseconds.toFloat / 1e9

def sleep (d : Float) : IO Unit :=
  IO.sleep (d * 1000).toUInt32

def usage : String :=
  "Usage:\n" ++
  "    chip8-vm <rom.ch8> [--steps N] [--cpu-hz 600] [--timer-hz 60]\n" ++
  "                       [--seed N] [--key K] [--trace] [--realtime]\n" ++
  "                       [-v | -q] [--log-file PATH]\n"

def host : Host IO where
  room := .unlimited
  read p := do
    let bytes ← attempt p fun path => do return (← IO.FS.readBinFile path).toList
    return bytes.mapError .refused
  makeDirectory p := attempt p fun path => IO.FS.createDir path
  isDirectory := isDirectory
  append := append
  workingDirectory := do return PathName.ofString (← IO.currentDir).toString
  timeStamp := timeStamp
  entropy := do return (← IO.rand 0 0x4000000000000000 : Nat)
  clock := {
    now := do return seconds (← IO.monoNanosNow)
    sleep := sleep }
  stdout s := do (← IO.getStdout).putStr s
  stderr s := do (← IO.getStderr).putStr s
  help := do (← IO.getStdout).putStr usage
  refuse _ := do (← IO.getStderr).putStr usage

end Chip8.Executable

def main (args : List String) : IO UInt32 := do
  match ← (CommandLine.run Executable.host args).run with
  | .ok status => return status
  | .error e =>
    Executable.host.stderr (e.message ++ "\n")
    return 1
