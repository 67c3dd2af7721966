import DesignTokens.Text.Digit
import DesignTokens.Value

/-!
What a token is set to: a literal, a reference to another token in braces, or a map with a literal
or reference for each state of a mode. A document may hold anything else there too; such a value is
kept as it is.
-/

namespace DesignTokens

/-! ### References -/

/-- The name between braces. -/
def bracedName? : List Char → Option (List Char)
  | '\x7b' :: rest => if rest.getLast? = some '\x7d' then some rest.dropLast else none
  | _ => none

/-- The token that a text refers to. -/
def referenceIn? (s : String) : Option String := (bracedName? s.toList).map String.ofList

namespace Value

/-- The token that a value refers to; only a text in braces is a reference. -/
def target? : Value → Option String
  | text s => referenceIn? s
  | _ => none

def isReference (v : Value) : Bool := v.target?.isSome

/-- A text that is no reference. -/
def isLiteral : Value → Bool
  | text s => (referenceIn? s).isNone
  | _ => false

/-- Neither a text nor an object. -/
def isOther : Value → Bool
  | text _ => false
  | object _ => false
  | _ => true

end Value

/-- The digits of a palette rung, with or without a line feed at the end. -/
def isRungKey (key : String) : Bool :=
  let cs := key.toList
  let digits := if cs.getLast? = some '\n' then cs.dropLast else cs
  !digits.isEmpty && digits.all Text.isDigit

/-- A map whose values are texts and whose keys are names of states. A map with a rung among its
keys is a colour palette. -/
def areStates (fields : List (String × Value)) : Bool :=
  fields.all fun (key, value) => !isRungKey key && value.text?.isSome

/-! ### Assignments -/

/-- What a token is set to. -/
inductive Assignment where
  /-- A literal or a reference. -/
  | text (s : String)
  /-- A map by state. -/
  | states (values : OrdMap Value)
  /-- Any other document value. -/
  | other (v : Value) (isOther : v.isOther = true)

namespace Assignment

/-- The assignment that a document value is. -/
def ofValue : Value → Assignment
  | .text s => text s
  | .object fields => states (OrdMap.ofList fields)
  | .null => other .null rfl
  | .bool b => other (.bool b) rfl
  | .int n => other (.int n) rfl
  | .float x => other (.float x) rfl
  | .list items => other (.list items) rfl

/-- The document value of an assignment. -/
def toValue : Assignment → Value
  | text s => .text s
  | states values => .ofMap values
  | other v _ => v

/-- The assignment that counts as none. -/
def null : Assignment := other .null rfl

def isNull (a : Assignment) : Bool := a.toValue.isNull

def isLiteral (a : Assignment) : Bool := a.toValue.isLiteral

def isReference (a : Assignment) : Bool := a.toValue.isReference

/-- A map from states to texts. -/
def isModeValue : Assignment → Bool
  | states values => areStates values.entries
  | _ => false

/-- Equal assignments; the order of states does not count. -/
def same : Assignment → Assignment → Bool
  | states values, states others => values.sameWith Value.same others
  | a, b => a.toValue.same b.toValue

/-- Equal assignments as parts of a theme. -/
def alike (a b : Assignment) : Bool := a.toValue.alike b.toValue

/-- A text, or a map from states to texts. -/
def IsPlain : Assignment → Prop
  | text _ => True
  | states values => ∀ e ∈ values.entries, ∃ s, e.2 = .text s
  | other .. => False

end Assignment

end DesignTokens
