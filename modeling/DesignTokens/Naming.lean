import DesignTokens.Assignment
import DesignTokens.Text.Capital

/-!
Names of tokens. A name is joined from segments: the first as it is, every later one capitalised,
empty ones left out. Nested groups of tokens are flattened into such names.
-/

namespace DesignTokens

/-- Joins segments into one name. -/
def camelCase (segments : List String) : String :=
  match segments.filter (· != "") with
  | [] => ""
  | head :: tail => head ++ String.join (tail.map Text.capitalize)

/-- The token of one rung of a colour palette. -/
def rungTokenName (role step : String) : String := camelCase ["color", role, step]

/-- A name inside a group; outside every group it stays as it is. -/
def nameUnder (group name : String) : String :=
  if group = "" then name else camelCase [group, name]

mutual

/-- Adds a value under a name, or what a group holds under its own names. -/
def flattenValue (name : String) (flat : OrdMap Value) : Value → OrdMap Value
  | .object fields =>
    if areStates fields then flat.insert name (.object fields) else flattenFields name flat fields
  | v => flat.insert name v

/-- Adds the values of a group, in order. -/
def flattenFields (group : String) (flat : OrdMap Value) :
    List (String × Value) → OrdMap Value
  | [] => flat
  | (name, v) :: fields =>
    flattenFields group (flattenValue (nameUnder group name) flat v) fields

end

/-- All values of nested groups by full name. Maps by state are values, not groups. -/
def flatten (group : String) (fields : List (String × Value)) : OrdMap Value :=
  flattenFields group .empty fields

end DesignTokens
