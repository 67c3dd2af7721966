import DesignTokens.Assignment
import DesignTokens.Document
import DesignTokens.Mode

/-!
Themes: a graph of tokens under a selector, with the modes its tokens may be bound to, contexts that
reassign tokens in parts of a page, and colour palettes given by a seed or rung by rung.

Fields that no rule here inspects on reading (ids, selectors, bindings) hold the document's value.
-/

namespace DesignTokens

/-- A part of the page in which some tokens are assigned anew. A null default mode is none. -/
structure Context where
  id : Value
  selector : Value
  tokens : OrdMap Assignment
  defaultMode : Value := .null

structure Theme where
  id : Value
  selector : Value
  tokens : OrdMap Assignment := .empty
  modes : OrdMap Mode := .empty
  /-- The id of the mode that a token is bound to. -/
  bindings : OrdMap Value := .empty
  contexts : OrdMap Context := .empty
  /-- The colour palette of each role, as given. -/
  palettes : Option (OrdMap Value) := none

/-- An optional state together with its mode. -/
structure OptionalState where
  mode : Mode
  name : String
  selector : Value
  media : Value

/-- The optional states of a mode, in order. -/
def Mode.optionalStates (m : Mode) : List OptionalState :=
  m.states.entries.filterMap fun
    | (name, .optional selector media) => some ⟨m, name, selector, media⟩
    | (_, .fallback _) => none

namespace Theme

/-- The mode a token is bound to; none for a token without mode or with an unknown one. -/
def modeOf (t : Theme) (token : String) : Option Mode := do
  let id ← (← t.bindings.get? token).text?
  t.modes.get? id

/-- The mode a token is bound to, where a container in place of a mode's id is a fault. -/
def modeFor (t : Theme) (token : String) : Except Fault (Option Mode) :=
  match t.bindings.get? token with
  | none => .ok none
  | some id => do return (← id.lookupName?).bind t.modes.get?

theorem modeFor_eq_ok {t : Theme} {token : String}
    (h : ∀ v, t.bindings.get? token = some v → ∃ s, v = .text s) :
    t.modeFor token = .ok (t.modeOf token) := by
  unfold modeFor modeOf
  cases hb : t.bindings.get? token with
  | none => rfl
  | some v =>
    obtain ⟨s, rfl⟩ := h v hb
    rfl

/-- No token is bound to a container. -/
def requireBindings (t : Theme) : Except Fault Unit :=
  t.bindings.values.forM fun id => discard id.lookupName?

/-- The optional states of all modes, in order. -/
def optionalStates (t : Theme) : List OptionalState :=
  t.modes.values.flatMap Mode.optionalStates

end Theme

def Context.same (c d : Context) : Bool :=
  c.id.alike d.id && c.selector.alike d.selector && c.tokens.sameWith Assignment.alike d.tokens &&
    c.defaultMode.alike d.defaultMode

/-- Equal themes; the order of tables does not count. -/
def Theme.same (t u : Theme) : Bool :=
  t.id.alike u.id && t.selector.alike u.selector && t.tokens.sameWith Assignment.alike u.tokens &&
    t.modes.sameWith Mode.same u.modes && t.bindings.sameWith Value.alike u.bindings &&
    t.contexts.sameWith Context.same u.contexts &&
    (match t.palettes, u.palettes with
      | none, none => true
      | some p, some q => p.sameWith Value.alike q
      | _, _ => false)

/-- Changes to a theme by its customer: tokens, and tokens of contexts. A context may be named
without any content. -/
structure Override where
  tokens : OrdMap Assignment
  contexts : OrdMap (Option (OrdMap Assignment)) := .empty

/-- A theme with its secondary themes and naming tables. -/
structure Preset where
  theme : Theme
  secondary : List Theme
  themeable : List Value
  exposed : List Value
  properties : OrdMap Value
  variableNames : OrdMap Value

namespace Preset

def themes (p : Preset) : List Theme := p.theme :: p.secondary

/-- The ids under which the themes list their contexts. -/
def contextIds (p : Preset) : List String := p.themes.flatMap fun t => t.contexts.keys

end Preset

end DesignTokens
