import DesignTokens.Journal
import DesignTokens.Theme.Basic

/-!
Applying an override to a theme.

A text given to a token with a mode holds at every state of the mode. A map by state is written over
the states the token has, and leaves the others alone. An assignment whose shape does not fit the
one in force is skipped and noted, never a fault.
-/

namespace DesignTokens

/-- The result of applying an override, with the tokens whose change was skipped, in order. -/
structure Merged where
  theme : Theme
  skipped : List String

/-- The note on a skipped change. -/
def Merged.skipNote (token : String) : Note :=
  ⟨.warning, "lumen.theme.merge", s!"The value for token {token} cannot be merged into the theme"⟩

def Merged.notes (m : Merged) : List Note := m.skipped.map skipNote

namespace Theme

/-- The states that an update is written over: those of a state map; none for a token without
assignment. Any other assignment admits no states. -/
def statesUnder? : Assignment → Option (OrdMap Value)
  | .states values => if areStates values.entries then some values else none
  | a => if a.isNull then some .empty else none

/-- The assignment of a token after an update, if the update fits the assignment in force. -/
def combine (t : Theme) (token : String) (inForce update : Assignment) : Option Assignment :=
  match update, t.modeOf token with
  | .text s, some mode => some (.states (mode.states.map fun _ => .text s))
  | .text s, none => some (.text s)
  | .states values, _ =>
    if areStates values.entries then
      (statesUnder? inForce).map fun under => .states (under.union values)
    else none
  | .other .., _ => none

/-- Writes updates over assignments. A token that has none there is updated from what `below` gives.
The second part lists the tokens skipped. -/
def overlay (t : Theme) (below : String → Option Assignment) (updates : OrdMap Assignment)
    (tokens : OrdMap Assignment) : OrdMap Assignment × List String :=
  updates.entries.foldl (fun (tokens, skipped) (token, update) =>
    let inForce := ((tokens.get? token).or (below token)).getD .null
    match t.combine token inForce update with
    | some a => (tokens.insert token a, skipped)
    | none => (tokens, skipped ++ [token])) (tokens, [])

/-- Applies the part of an override that is about one context, if the theme has that context. -/
def mergeContext (m : Merged) (id : String) (updates : Option (OrdMap Assignment)) : Merged :=
  match updates, m.theme.contexts.get? id with
  | some updates, some context =>
    let (tokens, skipped) := m.theme.overlay m.theme.tokens.get? updates context.tokens
    { theme := { m.theme with
        contexts := m.theme.contexts.insert id { context with tokens := tokens } }
      skipped := m.skipped ++ skipped }
  | _, _ => m

/-- Applies an override: first its tokens, then those of each context the theme has. -/
def merge (t : Theme) (o : Override) : Merged :=
  let (tokens, skipped) := t.overlay (fun _ => none) o.tokens t.tokens
  o.contexts.entries.foldl (fun m e => mergeContext m e.1 e.2)
    ⟨{ t with tokens := tokens }, skipped⟩

/-- The tokens that an override changes in a theme or in one of its contexts, in order. -/
def namedBy (t : Theme) (o : Override) : List String :=
  o.tokens.keys ++ o.contexts.entries.flatMap fun e =>
    if t.contexts.contains e.1 then (e.2.map OrdMap.keys).getD [] else []

/-- Applies an override, where a token that it changes must not be bound to a container. -/
def merged (t : Theme) (o : Override) : Except Fault Merged := do
  (t.namedBy o).forM fun token => discard (t.modeFor token)
  return t.merge o

end Theme

end DesignTokens
