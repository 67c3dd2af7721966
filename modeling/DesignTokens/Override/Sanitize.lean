import DesignTokens.Fault
import DesignTokens.Journal
import DesignTokens.Theme.Basic

/-!
Reducing an override to what it may change: themeable tokens, in contexts that exist.

What is dropped is reported, each token and each context once, at its first occurrence: as a note in
the log, in the list of diagnostics, and to whoever else listens.
-/

namespace DesignTokens

/-- Something an override must not name. -/
inductive Misnomer where
  /-- A token that is not themeable, in a context or in the theme itself. -/
  | token (name : String) (context : Option String)
  /-- A context that does not exist. -/
  | context (id : String)
  deriving DecidableEq, Repr

def Misnomer.diagnostic : Misnomer → Diagnostic
  | token name context? =>
    { rule := "unthemeable_token"
      severity := .warning
      message := s!"{name} is not themeable and will be ignored during theming"
      token := some name
      context := (context?.map Value.text).getD .null }
  | context id =>
    { rule := "invalid_context_id"
      severity := .warning
      message := s!"{id} is not a valid ID of a visual context " ++
        "and will be ignored during theming."
      context := .text id }

namespace Override

/-- An override of tokens that were not read from a document; they must be a map. -/
def ofTokens (tokens : Value) (contexts : OrdMap (Option (OrdMap Assignment))) :
    Except Fault Override :=
  match tokens.fields? with
  | some m => .ok ⟨m.map Assignment.ofValue, contexts⟩
  | none =>
    let shown := Value.ofMap (contexts.map fun _ => .null)
    .error (.overrideTokens
      ("Override(tokens=" ++ tokens.literal ++ ", contexts=" ++ shown.literal ++ ")"))

/-- The note on a finding. -/
def findingNote (d : Diagnostic) : Note := ⟨.warning, "lumen.theme.validate", d.message⟩

/-- What was reported so far: the names, so as not to report them again, and the findings. -/
structure Reports where
  tokens : List String := []
  contexts : List String := []
  diagnostics : List Diagnostic := []

namespace Reports

/-- The token or the context was reported. A token is the same wherever it is named. -/
def knows (r : Reports) : Misnomer → Bool
  | .token name _ => r.tokens.contains name
  | .context id => r.contexts.contains id

def remember (r : Reports) : Misnomer → Reports
  | .token name _ => { r with tokens := r.tokens ++ [name] }
  | .context id => { r with contexts := r.contexts ++ [id] }

end Reports

/-- Those who learn of a finding while an override is sanitised. -/
structure Listeners (m : Type → Type) where
  log : Note → m Unit
  onDiagnostic? : Option (Diagnostic → m Unit) := none

section Sanitize

variable {m : Type → Type} [Monad m] (on : Listeners m)

def report (d : Diagnostic) : StateT Reports m Unit := do
  on.log (findingNote d)
  modify fun r => { r with diagnostics := r.diagnostics ++ [d] }
  if let some onDiagnostic := on.onDiagnostic? then onDiagnostic d

/-- Decides whether something stays that an override names. The first time that it does not, it is
reported. -/
def vet (allowed : Bool) (x : Misnomer) : StateT Reports m Bool := do
  if allowed then return true
  unless (← get).knows x do
    modify fun r => r.remember x
    report on x.diagnostic
  return false

/-- The entries of themeable tokens, in order. -/
def keepTokens (themeable : List String) (context : Option String) :
    List (String × Assignment) → StateT Reports m (List (String × Assignment))
  | [] => return []
  | e :: es => do
    let stays ← vet on (themeable.contains e.1) (.token e.1 context)
    let rest ← keepTokens themeable context es
    return if stays then e :: rest else rest

/-- The entries of contexts that have content and exist, in order, each with its themeable
tokens. -/
def keepContexts (themeable contexts : List String) :
    List (String × Option (OrdMap Assignment)) →
      StateT Reports m (List (String × Option (OrdMap Assignment)))
  | [] => return []
  | (_, none) :: es => keepContexts themeable contexts es
  | (id, some tokens) :: es => do
    if ← vet on (contexts.contains id) (.context id) then
      let kept ← keepTokens on themeable (some id) tokens.entries
      let rest ← keepContexts themeable contexts es
      return (id, some (.ofList kept)) :: rest
    else keepContexts themeable contexts es

/-- The part of an override that is about themeable tokens and available contexts. -/
def keepAll (themeable contexts : List String) (o : Override) : StateT Reports m Override := do
  let tokens ← keepTokens on themeable none o.tokens.entries
  let kept ← keepContexts on themeable contexts o.contexts.entries
  return ⟨.ofList tokens, .ofList kept⟩

/-- What is kept of an override, with a finding for each token and each context that is dropped. -/
def sanitize (themeable contexts : List String) (o : Override) :
    m (Override × List Diagnostic) := do
  let (kept, reports) ← (keepAll on themeable contexts o).run {}
  return (kept, reports.diagnostics)

end Sanitize

end Override

end DesignTokens
