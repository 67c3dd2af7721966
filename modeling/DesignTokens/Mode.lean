import DesignTokens.Fault

/-!
Modes: axes of variation, each with mutually exclusive named states. The default state holds where
no other does; an optional state is switched on by a selector, perhaps inside a media query.
-/

namespace DesignTokens

/-- A state of a mode. Selector and media query are kept as the document gives them; a null query
is none. -/
inductive ModeState where
  | fallback (isDefault : Bool)
  | optional (selector media : Value)

namespace ModeState

def isDefault : ModeState → Bool
  | fallback b => b
  | optional .. => false

def same : ModeState → ModeState → Bool
  | fallback a, fallback b => a == b
  | optional s m, optional t n => s.alike t && m.alike n
  | _, _ => false

end ModeState

/-- An axis of variation. -/
structure Mode where
  id : Value
  states : OrdMap ModeState
  /-- A mode has an id. -/
  id_truthy : id.truthy = true

namespace Mode

/-- The mode of an id and states; it fails for an empty id. -/
def make (id : Value) (states : OrdMap ModeState) : Except Fault Mode :=
  if h : id.truthy = true then .ok ⟨id, states, h⟩ else .error .emptyModeId

/-- The first state marked as default. -/
def defaultState? (m : Mode) : Option String :=
  (m.states.entries.find? fun e => e.2.isDefault).map Prod.fst

def defaultState (m : Mode) : Except Fault String :=
  match m.defaultState? with
  | some state => .ok state
  | none => .error (.noDefaultState m.id)

def same (m n : Mode) : Bool := m.id.alike n.id && m.states.sameWith ModeState.same n.states

end Mode

end DesignTokens
