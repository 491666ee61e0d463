/-!
# Sources of text

A source answers a location with a text or with why it has none, at once or after a while.
-/

namespace ScriptLoader

/-- Why a location has no text. -/
inductive RetrievalError where
  | notFound
  | status (code : Nat)
  | accessDenied (reason : String)
  | transport (reason : String)
  deriving DecidableEq, Inhabited

def RetrievalError.text : RetrievalError → String
  | .notFound => "not found"
  | .status code => s!"status {code}"
  | .accessDenied reason => s!"access denied: {reason}"
  | .transport reason => reason

/-- Where texts come from. -/
structure Source where
  retrieve : String → Except RetrievalError String
  /-- How long an answer takes; without a value it comes at once. -/
  delay? : String → Option Nat := fun _ => none

end ScriptLoader
