import DesignTokens.Fault

/-!
Stylesheets: rules in the order in which they were appended last, each with the path of rules that
it inherits from.

Rules are known by number, since two rules may have one selector and a rule outlives its place in
the sheet: a rule that was replaced or removed may still stand on the paths of others. A selector
has at most one rule in the sheet; appending a rule replaces the one with its selector.

Rules and paths stand in one table here. A `Ledger` keeps them in two, one by selector and one by
rule, and shows such a sheet.
-/

namespace DesignTokens

/-! ### Rules -/

/-- Properties with their values, in the order of declaration. -/
abbrev Declarations := OrdMap Value

/-- A selector with declarations, perhaps inside a media query; a null query is none. -/
structure Rule where
  selector : String
  media : Value := .null
  declarations : Declarations := .empty

/-- One declaration as text. -/
def declarationText (property : String) (value : Value) : String :=
  property ++ ":" ++ value.display ++ ";"

namespace Rule

/-- Declares a property; declared again it moves to the end. -/
def declare (r : Rule) (property : String) (value : Value) : Rule :=
  { r with declarations := (r.declarations.erase property).insert property value }

def isEmpty (r : Rule) : Bool := r.declarations.isEmpty

def size (r : Rule) : Nat := r.declarations.size

/-- The rule stands inside a media query. -/
def isMedia (r : Rule) : Bool := r.media.truthy

def text (r : Rule) : String :=
  let declared := r.declarations.entries.map fun e => declarationText e.1 e.2
  let rule := r.selector ++ "\x7b\n\t" ++ Text.joinWith "\n\t" declared ++ "\n\x7d"
  if r.isMedia then "@media " ++ r.media.display ++ " \x7b" ++ rule ++ "\x7d" else rule

/-- A rule in short, for messages. -/
def summary (r : Rule) : String :=
  "Rule(" ++ Text.quoted r.selector ++ ", media=" ++ r.media.literal ++
    ", declarations=" ++ toString r.size ++ ")"

end Rule

/-! ### Stylesheets -/

/-- The number of a rule. -/
abbrev RuleId := Nat

/-- A rule's place in a sheet. -/
structure Placed where
  rule : RuleId
  /-- The rules it inherits from, the farthest first. -/
  path : List RuleId
  deriving DecidableEq

structure Stylesheet where
  /-- Every rule ever made; a rule's number is its place. -/
  rules : List Rule := []
  /-- The rules in the sheet by selector, in the order of their last append. -/
  placed : OrdMap Placed := .empty

namespace Stylesheet

def rule (s : Stylesheet) (id : RuleId) : Rule := (s.rules[id]?).getD { selector := "" }

/-- Makes a rule without placing it. -/
def make (s : Stylesheet) (r : Rule) : Stylesheet × RuleId :=
  ({ s with rules := s.rules ++ [r] }, s.rules.length)

def setRule (s : Stylesheet) (id : RuleId) (r : Rule) : Stylesheet :=
  { s with rules := s.rules.set id r }

/-- Places a rule at the end, instead of the one with its selector. -/
def append (s : Stylesheet) (id : RuleId) (path : List RuleId) : Stylesheet :=
  let selector := (s.rule id).selector
  { s with placed := (s.placed.erase selector).insert selector ⟨id, path⟩ }

/-- The place of a rule, if that very rule is in the sheet. -/
def place? (s : Stylesheet) (id : RuleId) : Option Placed :=
  (s.placed.get? (s.rule id).selector).filter fun p => p.rule == id

/-- Takes a rule out; a rule that is not in the sheet leaves it as it is. -/
def remove (s : Stylesheet) (id : RuleId) : Stylesheet :=
  if (s.place? id).isSome then { s with placed := s.placed.erase (s.rule id).selector } else s

/-- The rule with a selector. -/
def find? (s : Stylesheet) (selector : String) : Option RuleId :=
  (s.placed.get? selector).map Placed.rule

/-- A rule, if that very rule is in the sheet. -/
def present? (s : Stylesheet) (id : RuleId) : Option RuleId := (s.place? id).map Placed.rule

/-- The path of a rule in the sheet. -/
def path (s : Stylesheet) (id : RuleId) : Except Fault (List RuleId) :=
  match s.place? id with
  | some p => .ok p.path
  | none =>
    .error (.missingKey (.text s!"No path for rule with selector: {(s.rule id).selector}"))

/-- The rules of the sheet in order. -/
def order (s : Stylesheet) : List RuleId := s.placed.values.map Placed.rule

def size (s : Stylesheet) : Nat := s.placed.size

/-- Places a rule unless it is empty; unknown rules are left out of its path. -/
def appendFilled (s : Stylesheet) (id : RuleId) (path : List (Option RuleId)) : Stylesheet :=
  if (s.rule id).isEmpty then s else s.append id (path.filterMap fun r => r)

/-- The sheet as text, a rule after the other. -/
def text (s : Stylesheet) : String :=
  Text.joinWith "\n" (s.order.map fun id => (s.rule id).text)

end Stylesheet

end DesignTokens
