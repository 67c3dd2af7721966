import DesignTokens.Proofs.Build.Values

/-!
The minimal form of a built sheet, place by place. The theme's own rule keeps all its declarations;
any other rule keeps those that the rules it inherits from do not give in the minimal form.
-/

namespace DesignTokens

variable {N : Type} [Add N] [Sub N] [Mul N] [Div N] [LE N] [LT N] [DecidableLE N] [DecidableLT N]
  [OfScientific N] {space : ColorSpace N}

/-- What keeps the rules of a theme apart: all assignments are plain, no two rules have one selector
and no two tokens one property. -/
structure Theme.Declarable (maker : RuleMaker) (t : Theme) : Prop where
  plain : t.IsPlain
  distinct : t.DistinctSelectors maker.customizer
  injective : maker.registry.Injective

/-- The sheet of a theme without base and the minimal form of that. -/
structure SingleBuild.Minimized (space : ColorSpace N) (b : SingleBuild) (s m : Stylesheet) :
    Prop where
  declarable : b.theme.Declarable b.maker
  base : b.base = none
  resolved : b.theme.resolve none b.options = .ok b.resolution
  built : ∃ root?, b.Built space root? s b.theme.places
  minimal : m.IsMinimalOf s

theorem SingleBuild.Built.isPlan_of_declarable {b : SingleBuild} {root? : Option RuleId}
    {s : Stylesheet} (h : b.Built space root? s b.theme.places)
    (hdeclarable : b.theme.Declarable b.maker) (hbase : b.base = none)
    (hres : b.theme.resolve none b.options = .ok b.resolution) :
    IsPlan (b.theme.places.map (b.planned space)) := by
  refine h.isPlan hdeclarable.distinct fun q hq hne => ?_
  exact textual_declarations hbase hres hdeclarable.plain hdeclarable.injective (h.made q hq) hq hne

/-- Every sheet that is built has a minimal form. -/
theorem Theme.Declarable.exists_minimized {t : Theme} {maker : RuleMaker} {options : ResolveOptions}
    {s : Stylesheet} (h : t.Declarable maker)
    (hs : buildSingle space maker t none options = .ok s) :
    ∃ r m, t.resolve none options = .ok r ∧ s.minimal = .ok m ∧
      SingleBuild.Minimized space ⟨maker, t, none, options, r⟩ s m := by
  obtain ⟨r, root?, hr, hbuilt⟩ := built_of_buildSingle h.distinct hs
  have hplan := hbuilt.isPlan_of_declarable h rfl hr
  obtain ⟨m, hm, hminimal⟩ := (hbuilt.follows.grounded hplan).exists_minimal
  exact ⟨r, m, hr, hm, h, rfl, hr, ⟨root?, hbuilt⟩, hminimal⟩

namespace SingleBuild.Minimized

variable {b : SingleBuild} {s m : Stylesheet} {q : Place} {r : Resolution} {property : String}
  {token : String} {v : Value}

theorem isPlan (h : b.Minimized space s m) : IsPlan (b.theme.places.map (b.planned space)) := by
  obtain ⟨root?, hbuilt⟩ := h.built
  exact hbuilt.isPlan_of_declarable h.declarable h.base h.resolved

/-! ### Declarations before and after -/

theorem declared_eq (h : b.Minimized space s m) (hq : q ∈ b.theme.places) :
    s.declared (b.selector q) = (b.rule space q).declarations := by
  obtain ⟨root?, hbuilt⟩ := h.built
  have hdeclared := hbuilt.follows.lists.declared_eq h.isPlan.distinct
    (List.mem_map_of_mem (f := b.planned space) hq)
  rwa [Planned.selector, planned, ← selector_eq (hbuilt.made q hq)] at hdeclared

theorem root_eq (h : b.Minimized space s m) :
    m.declared (b.selector .root) = s.declared (b.selector .root) := by
  obtain ⟨root?, hbuilt⟩ := h.built
  have hroot := Theme.root_mem_places b.theme
  have htop := hbuilt.follows.declared_minimal_top h.isPlan h.minimal
    (List.mem_map_of_mem (f := b.planned space) hroot) rfl
  rw [h.declared_eq hroot]
  rwa [Planned.selector, planned, ← selector_eq (hbuilt.made .root hroot)] at htop

theorem parents_planned_ne (hne : q ≠ .root) : (b.planned space q).parents ≠ [] := by
  cases q with
  | root => exact absurd rfl hne
  | _ => simp [planned, Place.parents]

theorem eq_filter (h : b.Minimized space s m) (hq : q ∈ b.theme.places) (hne : q ≠ .root) :
    m.declared (b.selector q) = (s.declared (b.selector q)).filter fun property v =>
      Declarations.keeps (s.declared (b.selector q))
        (.overlay (q.parents.map fun a => m.declared (b.selector a)))
        (Stylesheet.comparesByValue (b.rule space q)) property v := by
  obtain ⟨root?, hbuilt⟩ := h.built
  have hdeclared := hbuilt.follows.declared_minimal h.isPlan h.minimal
    (List.mem_map_of_mem (f := b.planned space) hq) (parents_planned_ne hne)
  rw [h.declared_eq hq]
  rwa [Planned.selector, planned, ← selector_eq (hbuilt.made q hq), List.map_map] at hdeclared

/-- The minimal form declares nothing that was not declared before. -/
theorem declared_sub (h : b.Minimized space s m) (hq : q ∈ b.theme.places)
    (hv : (m.declared (b.selector q)).get? property = some v) :
    (s.declared (b.selector q)).get? property = some v := by
  by_cases hne : q = .root
  · rwa [hne, h.root_eq, ← hne] at hv
  · rw [h.eq_filter hq hne, OrdMap.get?_filter, Option.filter_eq_some_iff] at hv
    exact hv.1

/-- What it no longer declares is given by the parents. -/
theorem inherited_of_dropped (h : b.Minimized space s m) (hq : q ∈ b.theme.places)
    (hne : q ≠ .root) (hv : (s.declared (b.selector q)).get? property = some v)
    (hdropped : (m.declared (b.selector q)).get? property = none) :
    (Declarations.overlay (q.parents.map fun a => m.declared (b.selector a))).get? property =
      some v := by
  rw [h.eq_filter hq hne, OrdMap.get?_filter, hv, Option.filter_eq_none_iff] at hdropped
  have hnot := hdropped v rfl
  have htextual : (s.declared (b.selector q)).Textual := by
    rw [h.declared_eq hq]
    exact h.isPlan.textual _ (List.mem_map_of_mem (f := b.planned space) hq)
      (parents_planned_ne hne)
  exact Declarations.get?_parent_of_dropped htextual hv (by simpa using hnot)

/-! ### Values of tokens -/

theorem fits (h : b.Minimized space s m) (hq : q ∈ b.theme.places)
    (hr : b.theme.resolveInside b.options q.inside? = .ok r) : r.Fits b.theme :=
  Theme.fits_of_resolveInside h.declarable.plain (Place.inside?_mem (Place.isOf_of_mem hq)) hr

/-- The theme's own rule declares every token of the theme by its value at the default state. -/
theorem declared_root (h : b.Minimized space s m)
    (hproperty : b.maker.registry.property? token = .ok (some property))
    {f : Option String → Value}
    (hget : b.resolution.get? token = some (.ofStates (b.theme.modeOf token) f)) :
    ∃ state, Projection.defaults.stateFor (b.theme.modeOf token) = some state ∧
      (m.declared (b.selector .root)).get? property = some (f state) := by
  obtain ⟨root?, hbuilt⟩ := h.built
  have hroot := Theme.root_mem_places b.theme
  rw [h.root_eq, h.declared_eq hroot]
  exact get?_declarations_root h.base h.declarable.injective (hbuilt.made .root hroot)
    (h.fits hroot h.resolved) hproperty hget

/-- Any other rule declared a token by its value at the state of the rule, if the token has one. -/
theorem get?_declared (h : b.Minimized space s m) (hq : q ∈ b.theme.places) (hne : q ≠ .root)
    (hr : b.theme.resolveInside b.options q.inside? = .ok r)
    (hproperty : b.maker.registry.property? token = .ok (some property)) :
    (r.get? token = none → (s.declared (b.selector q)).get? property = none) ∧
      ∀ f, r.get? token = some (.ofStates (b.theme.modeOf token) f) →
        (s.declared (b.selector q)).get? property =
          (q.projection.stateFor (b.theme.modeOf token)).map f := by
  obtain ⟨root?, hbuilt⟩ := h.built
  rw [h.declared_eq hq]
  exact get?_declarations h.base h.resolved h.declarable.injective (hbuilt.made q hq) hne hr
    (h.fits hq hr) hproperty

/-- In the minimal form it declares the token at most by that value. -/
theorem value_of_declared (h : b.Minimized space s m) (hq : q ∈ b.theme.places) (hne : q ≠ .root)
    (hr : b.theme.resolveInside b.options q.inside? = .ok r)
    (hproperty : b.maker.registry.property? token = .ok (some property))
    (hv : (m.declared (b.selector q)).get? property = some v) :
    ∃ f state, r.get? token = some (.ofStates (b.theme.modeOf token) f) ∧
      q.projection.stateFor (b.theme.modeOf token) = some state ∧ v = f state := by
  obtain ⟨hnone, hvalue⟩ := h.get?_declared hq hne hr hproperty
  have hbefore := h.declared_sub hq hv
  cases hget : r.get? token with
  | none =>
      rw [hnone hget] at hbefore
      cases hbefore
  | some resolved =>
      obtain ⟨f, rfl, -⟩ := (h.fits hq hr).states token resolved hget
      rw [hvalue f hget, Option.map_eq_some_iff] at hbefore
      obtain ⟨state, hstate, rfl⟩ := hbefore
      exact ⟨f, state, rfl, hstate, rfl⟩

/-- A rule that does not declare a token has its value from the rules it inherits from. -/
theorem declared_or_inherited (h : b.Minimized space s m) (hq : q ∈ b.theme.places)
    (hne : q ≠ .root) (hr : b.theme.resolveInside b.options q.inside? = .ok r)
    (hproperty : b.maker.registry.property? token = .ok (some property))
    {f : Option String → Value} (hget : r.get? token = some (.ofStates (b.theme.modeOf token) f))
    {state : Option String} (hstate : q.projection.stateFor (b.theme.modeOf token) = some state) :
    (m.declared (b.selector q)).get? property = some (f state) ∨
      (m.declared (b.selector q)).get? property = none ∧
        (Declarations.overlay (q.parents.map fun a => m.declared (b.selector a))).get? property =
          some (f state) := by
  have hbefore := (h.get?_declared hq hne hr hproperty).2 f hget
  rw [hstate, Option.map_some] at hbefore
  cases hv : (m.declared (b.selector q)).get? property with
  | none => exact .inr ⟨rfl, h.inherited_of_dropped hq hne hbefore hv⟩
  | some v =>
      rw [← hbefore, h.declared_sub hq hv]
      exact .inl rfl

end SingleBuild.Minimized

end DesignTokens
