import DesignTokens.Theme.Basic

/-!
Themes, overrides and presets as documents. Reading checks no more than it needs to build the
value, so that a document of ours reads back as the value it was written from.
-/

namespace DesignTokens

/-- The assignments of a map of document values. -/
def assignmentsOf (m : OrdMap Value) : OrdMap Assignment := m.map Assignment.ofValue

/-- The document values of assignments. -/
def valuesOf (m : OrdMap Assignment) : OrdMap Value := m.map Assignment.toValue

/-! ### Modes -/

namespace ModeState

/-- A state with a selector is optional; any other is the default if it says so. -/
def ofDocument (v : Value) : Except Fault ModeState := do
  if ← v.mentions "selector" then
    let selector ← v.entry "selector"
    return .optional selector (← v.fieldOr "media" .null)
  else
    return .fallback (← v.fieldOr "default" (.bool false)).truthy

def toDocument : ModeState → Value
  | fallback isDefault => .object [("default", .bool isDefault)]
  | optional selector .null => .object [("selector", selector)]
  | optional selector media => .object [("selector", selector), ("media", media)]

end ModeState

namespace Mode

def ofDocument (v : Value) : Except Fault Mode := do
  let id ← v.entry "id"
  let states ← (← (← v.fieldOr "states" (.object [])).items).mapM fun _ => ModeState.ofDocument
  make id states

def toDocument (m : Mode) : Value :=
  .object [("id", m.id), ("states", .ofMap (m.states.map ModeState.toDocument))]

end Mode

/-! ### Contexts -/

namespace Context

/-- The context stored under a name, which is its id unless the document gives another. -/
def ofDocument (name : String) (v : Value) : Except Fault Context := do
  let id ← v.fieldOr "id" (.text name)
  let selector ← v.entry "selector"
  let tokens ← v.mapField "tokens"
  return { id, selector, tokens := assignmentsOf tokens
           defaultMode := ← v.fieldOr "defaultMode" .null }

def toDocument (c : Context) : Value :=
  let fields := [("id", c.id), ("selector", c.selector), ("tokens", .ofMap (valuesOf c.tokens))]
  match c.defaultMode with
  | .null => .object fields
  | mode => .object (fields ++ [("defaultMode", mode)])

end Context

/-! ### Themes -/

namespace Theme

/-- The colour palettes by role; a null table is none. -/
def palettesOf (v : Value) : Except Fault (Option (OrdMap Value)) := do
  match ← v.field? "referenceTokens" with
  | none | some .null => return none
  | some table => return some (← table.mapField "color")

def ofDocument (v : Value) : Except Fault Theme := do
  let contexts ← (← (← v.fieldOr "contexts" (.object [])).items).mapM Context.ofDocument
  let palettes ← palettesOf v
  let id ← v.entry "id"
  let selector ← v.entry "selector"
  let tokens ← v.mapField "tokens"
  let modes ← (← (← v.fieldOr "modes" (.object [])).items).mapM fun _ => Mode.ofDocument
  let bindings ← v.mapField "tokenModeMap"
  return { id, selector, tokens := assignmentsOf tokens, modes, bindings, contexts, palettes }

def toDocument (t : Theme) : Value :=
  let fields := [
    ("id", t.id),
    ("selector", t.selector),
    ("tokens", .ofMap (valuesOf t.tokens)),
    ("modes", .ofMap (t.modes.map Mode.toDocument)),
    ("tokenModeMap", .ofMap t.bindings),
    ("contexts", .ofMap (t.contexts.map Context.toDocument))]
  match t.palettes with
  | none => .object fields
  | some color => .object (fields ++ [("referenceTokens", .object [("color", .ofMap color)])])

end Theme

/-! ### Overrides and presets -/

namespace Override

/-- The tokens of one context of an override; an empty entry has none. -/
def contextTokensOf (v : Value) : Except Fault (Option (OrdMap Assignment)) := do
  let v := if v.truthy then v else .object []
  return some (assignmentsOf (← v.mapField "tokens"))

def ofDocument (v : Value) : Except Fault Override := do
  let some fields := v.fields? | .error .overrideShape
  let some (.object tokens) := fields.get? "tokens" | .error .overrideShape
  let given := (fields.get? "contexts").getD .null
  let contexts ← (if given.truthy then given else .object []).items
  return { tokens := assignmentsOf (.ofList tokens)
           contexts := ← contexts.mapM fun _ => contextTokensOf }

/-- Contexts without content are not written. -/
def toDocument (o : Override) : Value :=
  let tokens := ("tokens", .ofMap (valuesOf o.tokens))
  if o.contexts.isEmpty then .object [tokens]
  else
    let contexts := o.contexts.map fun c =>
      .object [("tokens", .ofMap (valuesOf (c.getD .empty)))]
    .object [tokens, ("contexts", .ofMap contexts)]

end Override

/-- Reads a preset: its theme, its secondary themes and its naming tables. -/
def Preset.ofDocument (v : Value) : Except Fault Preset := do
  let theme ← Theme.ofDocument (← v.entry "theme")
  let secondary ← (← (← v.fieldOr "secondary" (.list [])).members).mapM Theme.ofDocument
  let themeable ← (← v.fieldOr "themeable" (.list [])).members
  let exposed ← (← v.fieldOr "exposed" (.list [])).members
  let properties ← v.mapField "propertiesMap"
  let variableNames ← v.mapField "variablesMap"
  return { theme, secondary, themeable, exposed, properties, variableNames }

end DesignTokens
