import DesignTokens.Stylesheet.Basic

/-!
Sheets as they are kept, in two tables: which rule has a selector, and which path was recorded for a
rule. A rule has a path for itself and not for its selector, and nothing in a ledger ties the tables
to each other: that a path goes when its rule is replaced or removed is left to the operations.
While they agree, a ledger shows a sheet in which each rule stands with its path.
-/

namespace DesignTokens

/-- A stylesheet in two tables. -/
structure Ledger where
  /-- Every rule ever made; a rule's number is its place. -/
  rules : List Rule := []
  /-- The rule that has a selector, in the order of their last append. -/
  holders : OrdMap RuleId := .empty
  /-- The path recorded for a rule: the rules it inherits from, the farthest first. -/
  paths : List (RuleId × List RuleId) := []

namespace Ledger

/-! ### Paths -/

/-- Forgets the path of a rule. -/
def forget (l : Ledger) (id : RuleId) : Ledger :=
  { l with paths := l.paths.filter fun e => e.1 != id }

/-- Records the path of a rule, instead of one recorded before. -/
def record (l : Ledger) (id : RuleId) (path : List RuleId) : Ledger :=
  { l with paths := (id, path) :: (l.forget id).paths }

@[simp] theorem lookup_paths_forget (l : Ledger) (id k : RuleId) :
    (l.forget id).paths.lookup k = if k = id then none else l.paths.lookup k :=
  Entries.lookup_filter_ne id k l.paths

@[simp] theorem lookup_paths_record (l : Ledger) (id : RuleId) (path : List RuleId) (k : RuleId) :
    (l.record id path).paths.lookup k = if k = id then some path else l.paths.lookup k := by
  rw [record, Entries.lookup_cons, lookup_paths_forget]
  split <;> rfl

/-! ### Rules -/

def rule (l : Ledger) (id : RuleId) : Rule := (l.rules[id]?).getD { selector := "" }

/-- Makes a rule without placing it. -/
def make (l : Ledger) (r : Rule) : Ledger × RuleId :=
  ({ l with rules := l.rules ++ [r] }, l.rules.length)

def setRule (l : Ledger) (id : RuleId) (r : Rule) : Ledger :=
  { l with rules := l.rules.set id r }

/-- The rule with a selector. -/
def find? (l : Ledger) (selector : String) : Option RuleId := l.holders.get? selector

/-- Gives a rule its selector at the end; the rule that had it loses it and its path. -/
def append (l : Ledger) (id : RuleId) (path : List RuleId) : Ledger :=
  let selector := (l.rule id).selector
  let freed := match l.find? selector with
    | some previous => l.forget previous
    | none => l
  { freed.record id path with holders := (l.holders.erase selector).insert selector id }

/-- Takes a rule out of both tables. A selector that has another rule by now keeps that one. -/
def remove (l : Ledger) (id : RuleId) : Ledger :=
  let selector := (l.rule id).selector
  { l.forget id with
    holders := if l.find? selector = some id then l.holders.erase selector else l.holders }

/-- Places a rule unless it is empty; unknown rules are left out of its path. -/
def appendFilled (l : Ledger) (id : RuleId) (path : List (Option RuleId)) : Ledger :=
  if (l.rule id).isEmpty then l else l.append id (path.filterMap fun r => r)

/-- A rule, if that very rule has its selector. -/
def present? (l : Ledger) (id : RuleId) : Option RuleId :=
  (l.find? (l.rule id).selector).filter (· == id)

/-- The path of a rule. -/
def path (l : Ledger) (id : RuleId) : Except Fault (List RuleId) :=
  match l.paths.lookup id with
  | some path => .ok path
  | none =>
    .error (.missingKey (.text s!"No path for rule with selector: {(l.rule id).selector}"))

/-- The rules of the sheet in order. -/
def order (l : Ledger) : List RuleId := l.holders.values

@[simp] theorem rules_append (l : Ledger) (id : RuleId) (path : List RuleId) :
    (l.append id path).rules = l.rules := by
  rw [append]
  cases l.find? (l.rule id).selector <;> rfl

theorem lookup_paths_append (l : Ledger) (id : RuleId) (path : List RuleId) (k : RuleId) :
    (l.append id path).paths.lookup k =
      if k = id then some path
      else if l.find? (l.rule id).selector = some k then none else l.paths.lookup k := by
  simp only [append, lookup_paths_record]
  cases l.find? (l.rule id).selector with
  | none => simp
  | some previous => simp [eq_comm]

theorem lookup_paths_remove (l : Ledger) (id k : RuleId) :
    (l.remove id).paths.lookup k = if k = id then none else l.paths.lookup k :=
  lookup_paths_forget l id k

/-! ### Sheets -/

/-- The sheet that a ledger shows. -/
def sheet (l : Ledger) : Stylesheet where
  rules := l.rules
  placed := l.holders.map fun id => ⟨id, (l.paths.lookup id).getD []⟩

end Ledger

/-- The places of a sheet in two tables. -/
def Stylesheet.ledger (s : Stylesheet) : Ledger where
  rules := s.rules
  holders := s.placed.map Placed.rule
  paths := s.placed.values.map fun p => (p.rule, p.path)

end DesignTokens
