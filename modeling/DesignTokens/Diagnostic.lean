import DesignTokens.Value

/-!
Diagnostics: findings about a theme or an override, each with a severity and perhaps a place.
-/

namespace DesignTokens

/-- How serious a finding is. -/
inductive Severity where
  | error
  | warning
  | info
  deriving DecidableEq, Repr

namespace Severity

def name : Severity → String
  | error => "ERROR"
  | warning => "WARNING"
  | info => "INFO"

def ofName? : String → Option Severity
  | "ERROR" => some error
  | "WARNING" => some warning
  | "INFO" => some info
  | _ => none

@[simp] theorem ofName?_name (s : Severity) : ofName? s.name = some s := by cases s <;> rfl

end Severity

/-- A finding: the rule that made it, and the token and context it is about, if any. -/
structure Diagnostic where
  rule : String
  severity : Severity
  message : String
  token : Option String := none
  /-- The id of a context; null when the finding is not about one. -/
  context : Value := .null
  fix : Option String := none

namespace Diagnostic

def isError (d : Diagnostic) : Bool := d.severity == .error

def isWarning (d : Diagnostic) : Bool := d.severity == .warning

/-- The place in brackets; an empty token or context id is not shown. -/
def place (d : Diagnostic) : String :=
  let token? := d.token.filter (· != "")
  match d.context.truthy, token? with
  | true, some token => s!" [context={d.context.display} token={token}]"
  | false, some token => s!" [token={token}]"
  | true, none => s!" [context={d.context.display}]"
  | false, none => ""

/-- One line: severity, place and message. -/
def text (d : Diagnostic) : String := d.severity.name ++ d.place ++ ": " ++ d.message

end Diagnostic

end DesignTokens
