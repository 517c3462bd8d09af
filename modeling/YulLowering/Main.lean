import YulLowering.CommandLine.Commands

/-!
# The program

Connects the commands to the real files and streams.
-/

namespace YulLowering.CommandLine

/-- The fault that an error of the system stands for. The system gives the code of an error with
either sign. -/
def faultOf : IO.Error → FileFault
  | .noFileOrDirectory .. => .notFound
  | .inappropriateType _ code _ =>
    if code = 20 ∨ code = -20 then .notDirectory else .isDirectory
  | .invalidArgument _ code details =>
    if code = 36 ∨ code = -36 then .nameTooLong else .other details
  | .permissionDenied .. => .other "Permission denied (os error 13)"
  | error => .other error.toString

/-- Access to the files of the system. -/
def systemFiles : FileAccess IO where
  isFile path := do
    try
      let _ ← IO.FS.readBinFile path
      return true
    catch _ => return false
  read path := do
    try return .ok (← IO.FS.readBinFile path)
    catch error => return .error (faultOf error)
  write path text := do
    try
      IO.FS.writeFile path text
      return .ok ()
    catch error => return .error (faultOf error)

end YulLowering.CommandLine

/-- Run the program on the arguments it is given. -/
def main (arguments : List String) : IO UInt32 := do
  let report ← YulLowering.CommandLine.run YulLowering.CommandLine.systemFiles arguments
  IO.print report.output
  IO.eprint report.diagnostics
  return report.exitCode.toUInt32
