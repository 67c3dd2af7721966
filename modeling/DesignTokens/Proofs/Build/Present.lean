import DesignTokens.Proofs.Build.Values
import DesignTokens.Proofs.Palette.Expansion

/-!
No rule declares null. Projections leave null out, and a palette has no rung without a colour.
-/

namespace DesignTokens

/-! ### Values of places -/

theorem Resolution.ne_null_of_project {r : Resolution} {t : Theme} {p : Projection}
    {base : Option Theme} {values : Projected} (h : r.project t p base = .ok values)
    {token : String} {v : Value} (hv : values.get? token = some v) : v ≠ .null := by
  obtain ⟨g, hg, rfl⟩ := OrdMap.filterMapM_eq_ok.mp h
  rw [OrdMap.get?_filterMap, Option.bind_eq_some_iff] at hv
  obtain ⟨resolved, hresolved, hv⟩ := hv
  have hstep := hg token resolved hresolved
  simp only [Outcome.bind_eq_ok, Outcome.pure_eq_ok] at hstep
  obtain ⟨mode?, -, picked, -, hpicked⟩ := hstep
  rw [hv, Option.filter_eq_some_iff] at hpicked
  rintro rfl
  simp [Value.isNull] at hpicked

variable {N : Type} [Add N] [Sub N] [Mul N] [Div N] [LE N] [LT N] [DecidableLE N] [DecidableLT N]
  [OfScientific N] {space : ColorSpace N}

/-- What palettes add to values stands for a token of theirs by itself. -/
theorem Theme.get?_withPaletteValues {t : Theme} {options : ResolveOptions} {values all : Projected}
    (h : t.withPaletteValues space options values = .ok all) :
    ∃ palettes, t.withPaletteValues space options .empty = .ok palettes ∧
      ∀ token, all.get? token = (values.get? token).or (palettes.get? token) := by
  unfold withPaletteValues at h ⊢
  split at h
  · next hvars =>
      obtain ⟨generated, hgenerated, h⟩ := Outcome.bind_eq_ok.mp h
      obtain rfl := Outcome.pure_eq_ok.mp h
      rw [if_pos hvars]
      refine ⟨_, Outcome.bind_eq_ok.mpr ⟨generated, hgenerated, rfl⟩, fun token => ?_⟩
      rw [OrdMap.get?_foldl_insertNew, OrdMap.get?_foldl_insertNew, OrdMap.get?_empty,
        Option.none_or]
  · next hvars =>
      obtain rfl := Outcome.pure_eq_ok.mp h
      rw [if_neg hvars]
      exact ⟨.empty, rfl, by simp⟩

theorem Theme.ne_null_of_withPaletteValues {t : Theme} {options : ResolveOptions}
    {palettes : Projected} (h : t.withPaletteValues space options .empty = .ok palettes)
    {token : String} {v : Value} (hv : palettes.get? token = some v) : v ≠ .null := by
  unfold withPaletteValues at h
  split at h
  · obtain ⟨generated, hgenerated, h⟩ := Outcome.bind_eq_ok.mp h
    obtain rfl := Outcome.pure_eq_ok.mp h
    rw [OrdMap.get?_foldl_insertNew, OrdMap.get?_empty, Option.none_or] at hv
    unfold paletteTokens at hgenerated
    split at hgenerated
    · obtain rfl := Except.ok.inj hgenerated
      cases hv
    · refine Palette.forall_tokens (P := (· ≠ .null)) (fun e _ steps hsteps => ?_) hgenerated hv
      refine Palette.allRungs_expand (fun _ => Value.noConfusion) ?_ hsteps
      rintro fields - v - htruthy rfl
      cases htruthy
  · obtain rfl := Outcome.pure_eq_ok.mp h
    cases hv

namespace SingleBuild

variable {b : SingleBuild} {q : Place} {values : Projected} {token : String} {v : Value}

/-- A value of the theme's own rule is that of a projection, or of a palette. -/
theorem get?_rootValues (hbase : b.base = none) (h : b.values space .root = .ok values) :
    ∃ defaults palettes, b.resolution.project b.theme .defaults = .ok defaults ∧
      b.theme.withPaletteValues space b.options .empty = .ok palettes ∧
      ∀ token, values.get? token = (defaults.get? token).or (palettes.get? token) := by
  simp only [SingleBuild.values, Theme.rootValues, hbase, Outcome.bind_eq_ok, Option.isNone_none,
    if_true] at h
  obtain ⟨defaults, hdefaults, h⟩ := h
  obtain ⟨palettes, hpalettes, hget⟩ := Theme.get?_withPaletteValues h
  exact ⟨defaults, palettes, hdefaults, hpalettes, hget⟩

/-- The values of a place are never null. -/
theorem ne_null_of_values (hbase : b.base = none)
    (hres : b.theme.resolve none b.options = .ok b.resolution) (h : b.values space q = .ok values)
    (hv : values.get? token = some v) : v ≠ .null := by
  by_cases hroot : q = .root
  · subst hroot
    obtain ⟨defaults, palettes, hdefaults, hpalettes, hget⟩ := get?_rootValues hbase h
    rw [hget, Option.or_eq_some_iff] at hv
    obtain hv | ⟨-, hv⟩ := hv
    · exact Resolution.ne_null_of_project hdefaults hv
    · exact Theme.ne_null_of_withPaletteValues hpalettes hv
  · obtain ⟨r, -, hproject⟩ := (values_eq_ok hbase hres hroot).mp h
    exact Resolution.ne_null_of_project hproject hv

end SingleBuild

end DesignTokens
