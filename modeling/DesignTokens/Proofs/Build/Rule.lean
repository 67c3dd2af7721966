import DesignTokens.Build.Rule
import DesignTokens.Proofs.OrdMap
import Mathlib.Data.List.Nodup

/-!
The rule made of projected values. If distinct tokens have distinct properties, each token that has
a property is declared by it with its own value, and nothing else is declared.
-/

namespace DesignTokens

/-- Distinct tokens have distinct properties. -/
def Registry.Injective (registry : Registry) : Prop :=
  ∀ token token' property, registry.property? token = .ok (some property) →
    registry.property? token' = .ok (some property) → token = token'

theorem Registry.get?_of_property? {registry : Registry} {token property : String}
    (h : registry.property? token = .ok (some property)) :
    ∃ v, registry.properties.get? token = some v ∧ v.display = property := by
  unfold property? at h
  split at h
  · cases h
  · cases hv : registry.properties.get? token with
    | none => simp [hv, Value.truthy] at h
    | some v =>
        refine ⟨v, rfl, ?_⟩
        simp only [hv, Option.getD_some] at h
        split at h
        · cases h
        · cases h
        · split at h
          · exact Option.some.inj (Except.ok.inj h)
          · cases h

/-- Properties that occur once in the table belong to one token each. -/
theorem Registry.injective_of_nodup {registry : Registry}
    (h : (registry.properties.values.map Value.display).Nodup) : registry.Injective := by
  intro token token' property hproperty hproperty'
  obtain ⟨v, hv, rfl⟩ := get?_of_property? hproperty
  obtain ⟨v', hv', hsame⟩ := get?_of_property? hproperty'
  rw [OrdMap.values, List.map_map] at h
  have hentry : (token, v) = (token', v') :=
    List.inj_on_of_nodup_map h (OrdMap.mem_entries_iff.mpr hv) (OrdMap.mem_entries_iff.mpr hv')
      hsame.symm
  exact congrArg Prod.fst hentry

/-- The declarations of some values: each token's value stands at its property. -/
structure Declarations.Declare (d : Declarations) (registry : Registry) (values : Projected) :
    Prop where
  value : ∀ token property, registry.property? token = .ok (some property) →
    d.get? property = values.get? token
  token : ∀ property v, d.get? property = some v →
    ∃ token, registry.property? token = .ok (some property) ∧ values.get? token = some v

theorem Rule.get?_declare (r : Rule) (name property : String) (v : Value) :
    (r.declare name v).declarations.get? property =
      if property = name then some v else r.declarations.get? property := by
  simp only [declare, OrdMap.get?_insert, OrdMap.get?_erase]
  split <;> rfl

namespace RuleMaker

variable {maker : RuleMaker} {fragments fragments' : Selector.Fragments} {media : Value}
  {values : Projected} {r : Rule}

theorem make_selector (h : maker.make fragments media values = .ok r) :
    fragments.selector maker.customizer = .ok r.selector ∧ r.media = media := by
  obtain ⟨selector, hselector, hfold⟩ := Outcome.bind_eq_ok.mp h
  have hrun : r.selector = selector ∧ r.media = media := by
    refine Outcome.foldlM_induction
      (fun _ (r : Rule) => r.selector = selector ∧ r.media = media) ⟨rfl, rfl⟩ ?_ hfold
    rintro done ⟨token, v⟩ rest b c - hb hstep
    simp only [Outcome.bind_eq_ok] at hstep
    obtain ⟨property?, -, hstep⟩ := hstep
    cases property? with
    | none => exact Outcome.pure_eq_ok.mp hstep ▸ hb
    | some name => exact Outcome.pure_eq_ok.mp hstep ▸ hb
  exact ⟨hrun.1 ▸ hselector, hrun.2⟩

/-- What is declared is the value of a token, whatever the properties are. -/
theorem exists_token_of_make (h : maker.make fragments media values = .ok r) {property : String}
    {v : Value} (hv : r.declarations.get? property = some v) :
    ∃ token, maker.registry.property? token = .ok (some property) ∧
      values.get? token = some v := by
  obtain ⟨selector, -, hfold⟩ := Outcome.bind_eq_ok.mp h
  refine Outcome.foldlM_induction (fun _ (r : Rule) => ∀ property v,
    r.declarations.get? property = some v → ∃ token,
      maker.registry.property? token = .ok (some property) ∧ values.get? token = some v)
    (by simp) ?_ hfold property v hv
  rintro done ⟨token, w⟩ rest b c hsplit hall hstep property v hv
  obtain ⟨property?, hproperty, hstep⟩ := Outcome.bind_eq_ok.mp hstep
  cases property? with
  | none =>
      obtain rfl := Outcome.pure_eq_ok.mp hstep
      exact hall property v hv
  | some name =>
      obtain rfl := Outcome.pure_eq_ok.mp hstep
      rw [Rule.get?_declare] at hv
      split at hv
      · next hname =>
          obtain rfl := Option.some.inj hv
          refine ⟨token, hname ▸ hproperty, OrdMap.mem_entries_iff.mp ?_⟩
          rw [hsplit]
          simp
      · exact hall property v hv

/-- A token with a value has its property declared. -/
theorem exists_value_of_make (h : maker.make fragments media values = .ok r)
    {token property : String}
    (hproperty : maker.registry.property? token = .ok (some property)) {v : Value}
    (hv : values.get? token = some v) : ∃ w, r.declarations.get? property = some w := by
  obtain ⟨selector, -, hfold⟩ := Outcome.bind_eq_ok.mp h
  have hrun : ∀ e ∈ values.entries, maker.registry.property? e.1 = .ok (some property) →
      ∃ w, r.declarations.get? property = some w := by
    refine Outcome.foldlM_induction (fun done (r : Rule) => ∀ e ∈ done,
      maker.registry.property? e.1 = .ok (some property) →
        ∃ w, r.declarations.get? property = some w) (by simp) ?_ hfold
    rintro done ⟨token, w⟩ rest b c - hall hstep e he hproperty
    obtain ⟨property?, hhere, hstep⟩ := Outcome.bind_eq_ok.mp hstep
    obtain he | rfl := List.mem_append.mp he |>.imp_right List.mem_singleton.mp
    · obtain ⟨w', hw'⟩ := hall e he hproperty
      cases property? with
      | none =>
          obtain rfl := Outcome.pure_eq_ok.mp hstep
          exact ⟨w', hw'⟩
      | some name =>
          obtain rfl := Outcome.pure_eq_ok.mp hstep
          rw [Rule.get?_declare]
          split
          · exact ⟨w, rfl⟩
          · exact ⟨w', hw'⟩
    · simp only at hproperty hhere
      obtain rfl := Except.ok.inj (hproperty.symm.trans hhere)
      obtain rfl := Outcome.pure_eq_ok.mp hstep
      rw [Rule.get?_declare, if_pos rfl]
      exact ⟨w, rfl⟩
  exact hrun (token, v) (OrdMap.mem_entries_iff.mpr hv) hproperty

theorem make_declare (hinj : maker.registry.Injective)
    (h : maker.make fragments media values = .ok r) :
    r.declarations.Declare maker.registry values := by
  obtain ⟨selector, -, hfold⟩ := Outcome.bind_eq_ok.mp h
  have hrun : ∀ property v, r.declarations.get? property = some v ↔
      ∃ e ∈ values.entries, maker.registry.property? e.1 = .ok (some property) ∧ e.2 = v := by
    refine Outcome.foldlM_induction (fun done (r : Rule) => ∀ property v,
      r.declarations.get? property = some v ↔
        ∃ e ∈ done, maker.registry.property? e.1 = .ok (some property) ∧ e.2 = v)
      (by simp) ?_ hfold
    rintro done ⟨token, v⟩ rest b c hsplit hall hstep property w
    simp only [Outcome.bind_eq_ok] at hstep
    obtain ⟨property?, hproperty, hstep⟩ := hstep
    cases property? with
    | none =>
        obtain rfl := Outcome.pure_eq_ok.mp hstep
        rw [hall]
        simp [or_and_right, exists_or, hproperty]
    | some name =>
        obtain rfl := Outcome.pure_eq_ok.mp hstep
        rw [Rule.get?_declare]
        by_cases hname : property = name
        · subst hname
          -- no token before has the same property, since names occur once
          have hfirst : ∀ e ∈ done, maker.registry.property? e.1 ≠ .ok (some property) := by
            intro e he hprop
            have hkeys := values.nodup
            rw [hsplit, List.map_append, List.nodup_append] at hkeys
            exact hkeys.2.2 e.1 (List.mem_map_of_mem he) token (by simp)
              (hinj e.1 token property hprop hproperty)
          rw [if_pos rfl, Option.some.injEq]
          constructor
          · rintro rfl
            exact ⟨(token, v), by simp, hproperty, rfl⟩
          · rintro ⟨e, he, hprop, rfl⟩
            obtain he | rfl := List.mem_append.mp he |>.imp_right List.mem_singleton.mp
            · exact absurd hprop (hfirst e he)
            · rfl
        · rw [if_neg hname, hall]
          simp [or_and_right, exists_or, hproperty, Ne.symm hname]
  refine ⟨?_, ?_⟩
  · intro token property hproperty
    refine Option.ext fun v => ?_
    rw [hrun]
    constructor
    · rintro ⟨e, he, hprop, rfl⟩
      obtain rfl := hinj e.1 token property hprop hproperty
      exact OrdMap.mem_entries_iff.mp he
    · intro hv
      exact ⟨(token, v), OrdMap.mem_entries_iff.mpr hv, hproperty, rfl⟩
  · intro property v hv
    obtain ⟨e, he, hprop, rfl⟩ := (hrun property v).mp hv
    exact ⟨e.1, hprop, OrdMap.mem_entries_iff.mp he⟩

/-- Of the fragments only the selector counts. -/
theorem make_congr
    (h : fragments.selector maker.customizer = fragments'.selector maker.customizer)
    (media : Value) (values : Projected) :
    maker.make fragments media values = maker.make fragments' media values := by
  rw [make, make, h]

end RuleMaker

end DesignTokens
