import SpinBlocks.Command.Outcome

namespace SpinBlocks.Command

/-! The command line. -/

def readFailure : IO.Error → ReadFailure
  | .inappropriateType _ 21 _ => .isFolder
  | .inappropriateType _ _ _ => .notAFolder
  | .invalidArgument _ _ _ => .nameTooLong
  | _ => .notFound

def readSource (path : String) : IO (Except ReadFailure String) := do
  try
    return decode (← IO.FS.readBinFile path)
  catch error =>
    return .error (readFailure error)

def Outcome.print (outcome : Outcome) : IO UInt32 := do
  IO.print outcome.stdout
  IO.eprint (outcome.stderr?.getD "The report is too wide to be shown.\n")
  return outcome.code.toUInt32

end SpinBlocks.Command

open SpinBlocks.Command in
def main (arguments : List String) : IO UInt32 := do
  match Request.ofArguments arguments with
  | .run action path _ => (action.run path (← readSource path)).print
  | _ => (run arguments ⟨[]⟩).print
