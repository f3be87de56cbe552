/-! What can go wrong with the screen, the input and the system. -/

namespace DeskScript

inductive Failure where
  | inputUnavailable (reason : String)
  | input (reason : String)
  | unknownKey (name : String)
  | emptyCombination
  | missingTarget (action : String)
  | invalidPattern (reason : String)
  | capture (reason : String)
  | process (reason : String)
  | task (reason : String)
deriving DecidableEq, Repr

def Failure.message : Failure → String
  | .inputUnavailable reason => s!"input backend unavailable: {reason}"
  | .input reason => s!"input simulation failed: {reason}"
  | .unknownKey name => s!"unknown key name '{name}'"
  | .emptyCombination => "key combination is empty"
  | .missingTarget action => s!"{action} requires a resolved target coordinate"
  | .invalidPattern reason => s!"invalid image pattern: {reason}"
  | .capture reason => s!"screen capture failed: {reason}"
  | .process reason => s!"process command failed: {reason}"
  | .task reason => s!"background task failed: {reason}"

end DeskScript
