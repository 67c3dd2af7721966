import DesignTokens.Theme.Basic

/-!
Rules that a theme should satisfy. Each rule lists its violations as diagnostics.
-/

namespace DesignTokens.Theme

/-! ### Modes -/

/-- Every token bound to a mode is declared. -/
def boundTokensExist (t : Theme) : List Diagnostic :=
  (t.bindings.entries.filter fun e => !t.tokens.contains e.1).map fun (token, mode) =>
    { rule := "check_token_mode_map_tokens_exist"
      severity := .error
      message := s!"Token '{token}' is bound to mode '{mode.display}' but has no assignment."
      token := some token
      fix := some "Add the token to the theme or remove it from tokenModeMap." }

/-- A value is the name of a mode of the theme. -/
def hasMode (t : Theme) (id : Value) : Bool := id.text?.any t.modes.contains

/-- Every mode that a token is bound to is declared. -/
def boundModesExist (t : Theme) : List Diagnostic :=
  (t.bindings.entries.filter fun e => !t.hasMode e.2).map fun (token, mode) =>
    { rule := "check_token_mode_map_modes_exist"
      severity := .error
      message := s!"Token '{token}' is bound to unknown mode '{mode.display}'."
      token := some token }

/-- Every mode has exactly one default state. -/
def singleDefaults (t : Theme) : List Diagnostic :=
  t.modes.values.filterMap fun mode =>
    let count := (mode.states.values.filter ModeState.isDefault).length
    if count = 1 then none
    else some
      { rule := "check_single_default_state"
        severity := .error
        message := s!"Mode '{mode.id.display}' must have exactly one default state, " ++
          s!"found {count}." }

/-- The states of a token's mode that its state map leaves out. -/
def missingStates (t : Theme) (token : String) : List String :=
  match t.modeOf token, t.tokens.get? token with
  | some mode, some (.states values) => mode.states.keys.filter fun state => !values.contains state
  | _, _ => []

/-- A state map on a token with a mode has every state of the mode. -/
def statesComplete (t : Theme) : List Diagnostic :=
  t.bindings.keys.filterMap fun token =>
    match t.missingStates token with
    | [] => none
    | missing => some
      { rule := "check_mode_values_complete"
        severity := .error
        message := s!"Token '{token}' is missing states: " ++ Text.joinWith ", " missing ++ "."
        token := some token }

/-! ### References -/

/-- The tokens that an assignment refers to. -/
def targets : Assignment → List String
  | .states values => values.values.filterMap Value.target?
  | a => a.toValue.target?.toList

/-- References point at declared tokens, in the theme and in every context. -/
def referencesExist (t : Theme) : List Diagnostic :=
  let scopes := (.null, t.tokens) :: t.contexts.values.map fun c => (c.id, c.tokens)
  scopes.flatMap fun (context, tokens) => tokens.entries.flatMap fun (token, a) =>
    ((targets a).filter fun target => !t.tokens.contains target).map fun target =>
      { rule := "check_references_exist"
        severity := .error
        message := s!"Token '{token}' references unknown token '{target}'."
        token := some token
        context := context }

/-- Contexts assign only tokens that the theme declares. -/
def contextTokensExist (t : Theme) : List Diagnostic :=
  t.contexts.values.flatMap fun c =>
    (c.tokens.keys.filter fun token => !t.tokens.contains token).map fun token =>
      { rule := "check_context_tokens_exist"
        severity := .warning
        message := s!"Context '{c.id.display}' overrides undeclared token '{token}'."
        token := some token
        context := c.id }

/-! ### All rules -/

/-- A rule for themes. -/
abbrev Rule := Theme → List Diagnostic

/-- The rules that every theme is checked by, with the names of their findings. -/
def rules : List (String × Rule) := [
  ("check_token_mode_map_tokens_exist", boundTokensExist),
  ("check_token_mode_map_modes_exist", boundModesExist),
  ("check_single_default_state", singleDefaults),
  ("check_mode_values_complete", statesComplete),
  ("check_references_exist", referencesExist),
  ("check_context_tokens_exist", contextTokensExist)]

/-- The findings of all rules, and of further ones after them. -/
def validate (t : Theme) (further : List Rule := []) : List Diagnostic :=
  (rules.map Prod.snd ++ further).flatMap fun rule => rule t

/-- The findings on a theme without errors; errors are a fault. -/
def requireValid (t : Theme) (further : List Rule := []) : Except Fault (List Diagnostic) :=
  let findings := t.validate further
  let errors := findings.filter Diagnostic.isError
  if errors.isEmpty then .ok findings else .error (.invalidTheme errors)

end DesignTokens.Theme
