import DesignTokens.Resolution.Basic

/-!
Following references from a token to a value.

A walk visits tokens that are declared and not visited before, so it ends after at most as many
steps as there are declared names. It ends in a value; or at a name that is not declared, a state
map without an entry for the state, or a token met before, each of which is a fault.

With custom properties on, a walk stops in front of a token that has a property and yields
`var(property)` instead of following the reference.
-/

namespace DesignTokens

/-- How references are followed: up to a literal, or up to the next token with a property. -/
structure ResolveOptions where
  useVars : Bool := false
  /-- The custom property of a token. -/
  properties : OrdMap Value := .empty

/-- The property that stands for a token in values, if properties are used and it has one. -/
def ResolveOptions.property? (options : ResolveOptions) (token : String) : Option String :=
  if options.useVars then (options.properties.get? token).map Value.display else none

/-- Where tokens are looked up: a theme's own assignments first, then those of its base. -/
structure Scope where
  own : OrdMap Assignment
  base : Option (OrdMap Assignment) := none

namespace Scope

/-- All names with an assignment. -/
def names (s : Scope) : List String := s.own.keys ++ (s.base.map OrdMap.keys).getD []

/-- The assignment of a token. An assignment of null counts as none, also in front of the base. -/
def find? (s : Scope) (token : String) : Option Assignment :=
  match s.own.get? token with
  | some a => if a.isNull then none else some a
  | none => do
    let a ← (← s.base).get? token
    if a.isNull then none else some a

theorem mem_names_of_find? {s : Scope} {token : String} {a : Assignment}
    (h : s.find? token = some a) : token ∈ s.names := by
  unfold find? at h
  split at h
  · next own => exact List.mem_append_left _ (OrdMap.mem_keys_of_get? own)
  · next =>
    cases hb : s.base with
    | none => simp [hb] at h
    | some b =>
      cases hg : b.get? token with
      | none => simp [hb, hg] at h
      | some c => exact List.mem_append_right _ (by simpa [hb] using OrdMap.mem_keys_of_get? hg)

end Scope

/-- The value assigned to a token at a state. -/
def Assignment.at (a : Assignment) (token : String) (state : Option String) : Except Fault Value :=
  match a with
  | .states values =>
    match state with
    | none => .error (.missingModeState token none)
    | some name =>
      match values.get? name with
      | some v => .ok v
      | none => .error (.missingModeState token (some name))
  | a => .ok a.toValue

/-- A value and the tokens that were walked through to reach it, in order. -/
structure Trace where
  value : Value
  path : List String

namespace Scope

theorem unvisited_lt {names path : List String} {token : String} (hn : token ∈ names)
    (hp : token ∉ path) :
    (names.filter (· ∉ path ++ [token])).length < (names.filter (· ∉ path)).length := by
  have hsub : names.filter (· ∉ path ++ [token]) =
      (names.filter (· ∉ path)).filter (· ≠ token) := by
    rw [List.filter_filter]
    apply List.filter_congr
    intro x _
    by_cases hx : x ∈ path <;> by_cases ht : x = token <;> simp [hx, ht]
  rw [hsub]
  apply List.length_filter_lt_length_iff_exists.mpr
  exact ⟨token, by simp [hn, hp], by simp⟩

/-- Walks on from a token after the given path. -/
@[semireducible]
def walk (s : Scope) (options : ResolveOptions) (state : Option String) (token : String)
    (path : List String) : Except Fault Trace :=
  match _ : s.find? token with
  | none => .error (.unknownToken token)
  | some a =>
    if _ : token ∈ path then .error (.circularDependency token path)
    else
      match a.at token state with
      | .error e => .error e
      | .ok v =>
        match v.target? with
        | none => .ok ⟨v, path ++ [token]⟩
        | some target =>
          match options.property? target with
          | some property =>
            if (s.find? target).isSome then
              .ok ⟨.text ("var(" ++ property ++ ")"), path ++ [token]⟩
            else .error (.unknownToken target)
          | none => s.walk options state target (path ++ [token])
  termination_by (s.names.filter (· ∉ path)).length
  decreasing_by exact unvisited_lt (mem_names_of_find? ‹s.find? token = some a›) ‹token ∉ path›

end Scope

end DesignTokens
