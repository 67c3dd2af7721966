import DesignTokens.Selector.Specificity
import DesignTokens.Sorted
import DesignTokens.Stylesheet.Basic
import DesignTokens.Stylesheet.Reference

/-!
Dropping declarations that a rule inherits anyway.

Rules are visited from short paths to long ones, so that a rule's ancestors are final before the
rule is compared with them. A rule keeps the declarations whose value differs from what its
ancestors give. It also keeps a declaration whose text refers to a property that the rule itself
changes, since such a text means something new on the rule's own element; not so in media queries
and page-wide rules. A rule left without declarations is removed.
-/

namespace DesignTokens

/-- What a path of rules declares, nearer rules winning. -/
def Stylesheet.inherited (s : Stylesheet) (path : List RuleId) : Declarations :=
  path.foldl (fun acc id => acc.union (s.rule id).declarations) .empty

/-- The property that a value refers to first. Only a text can be searched for one. -/
def Value.firstVar? : Value → Except Fault (Option String)
  | .text s => .ok (DesignTokens.firstVar? s)
  | _ => .error .wrongKind

namespace Declarations

/-- The two give a property different values. -/
def differAt (own parent : Declarations) (property : String) : Bool :=
  match own.get? property, parent.get? property with
  | some v, some w => !v.same w
  | _, _ => false

theorem unvisited_lt {own : Declarations} {seen : List String} {property : String} {v : Value}
    (hv : own.get? property = some v) (hs : property ∉ seen) :
    (own.keys.filter (· ∉ seen ++ [property])).length < (own.keys.filter (· ∉ seen)).length := by
  have hsub : own.keys.filter (· ∉ seen ++ [property]) =
      (own.keys.filter (· ∉ seen)).filter (· ≠ property) := by
    rw [List.filter_filter]
    apply List.filter_congr
    intro x _
    by_cases hx : x ∈ seen <;> by_cases hp : x = property <;> simp [hx, hp]
  rw [hsub]
  apply List.length_filter_lt_length_iff_exists.mpr
  exact ⟨property, by simp [OrdMap.mem_keys_of_get? hv, hs], by simp⟩

/-- Along the references that start at a property, some property is given another value than its
parents give it. The walk goes over the rule's own declarations, each at most once. -/
@[semireducible]
def changesAlong (own parent : Declarations) (seen : List String) (property : String) :
    Except Fault Bool :=
  if _ : property ∈ seen then .ok false
  else
    match _ : own.get? property with
    | none => .ok false
    | some v =>
      if differAt own parent property then .ok true
      else
        match v.firstVar? with
        | .error e => .error e
        | .ok none => .ok false
        | .ok (some next) => changesAlong own parent (seen ++ [property]) next
  termination_by (own.keys.filter (· ∉ seen)).length
  decreasing_by exact unvisited_lt ‹own.get? property = some v› ‹property ∉ seen›

/-- The parents give a property the same value; no value counts as null. -/
def isInherited (parent : Declarations) (property : String) (v : Value) : Bool :=
  ((parent.get? property).getD .null).same v

/-- An inherited declaration is kept for what it refers to. -/
def refersToChange (own parent : Declarations) (v : Value) : Except Fault Bool := do
  match ← v.firstVar? with
  | none => return false
  | some property => own.changesAlong parent [] property

/-- The declarations a rule keeps below the given ones. `byValue` is set where references do not
count. -/
def reduced (own parent : Declarations) (byValue : Bool) : Except Fault Declarations :=
  own.filterMapM fun property v => do
    if !isInherited parent property v then return some v
    if byValue then return none
    return if ← own.refersToChange parent v then some v else none

end Declarations

namespace Stylesheet

/-- References do not count for this rule. -/
def comparesByValue (r : Rule) : Bool := r.isMedia || Selector.isPageWide r.selector

/-- Reduces one rule; one that is left empty is removed. -/
def reduceRule (s : Stylesheet) (id : RuleId) : Except Fault Stylesheet := do
  match ← s.path id with
  | [] => return s
  | path =>
    let r := s.rule id
    let kept ← r.declarations.reduced (s.inherited path) (comparesByValue r)
    let s := s.setRule id { r with declarations := kept }
    return if kept.isEmpty then s.remove id else s

/-- The rules from short paths to long ones, in order among paths of one length. -/
def byDepth (s : Stylesheet) : List RuleId :=
  (sorted (fun p q => p.path.length ≤ q.path.length) s.placed.values).map Placed.rule

/-- Reduces rules up to one that cannot be. -/
def reduceRules (s : Stylesheet) : List RuleId → Stylesheet
  | [] => s
  | id :: ids =>
    match s.reduceRule id with
    | .ok reduced => reduced.reduceRules ids
    | .error _ => s

/-- Drops every declaration that is inherited anyway, and the rules left empty. -/
def minimal (s : Stylesheet) : Except Fault Stylesheet :=
  s.byDepth.foldlM reduceRule s

end Stylesheet

end DesignTokens
