import DesignTokens.Proofs.Build.Single
import DesignTokens.Proofs.Resolution.Collapse
import DesignTokens.Proofs.Resolution.Project

/-!
What the rules of a theme without base declare. Every rule belongs to a resolution, that of the
theme or that of the theme inside a context, and to a projection; it declares each token by its
value at the state that the projection picks.
-/

namespace DesignTokens

/-! ### Resolutions of plain themes, with and without a base -/

/-- A theme with all assignments plain, also in contexts. -/
structure Theme.IsPlain (t : Theme) : Prop where
  tokens : PlainTokens t.tokens
  contexts : ∀ c ∈ t.contexts.values, PlainTokens c.tokens

/-- Every token of a resolution stands for texts at the states of its mode. -/
structure Resolution.Fits (r : Resolution) (t : Theme) : Prop where
  mode : ∀ token ∈ r.keys, t.modeFor token = .ok (t.modeOf token)
  states : ∀ token resolved, r.get? token = some resolved →
    ∃ f, resolved = .ofStates (t.modeOf token) f ∧
      ∀ state ∈ statesOf (t.modeOf token), ∃ text, f state = .text text

theorem Resolution.Fits.text {r : Resolution} {t : Theme} (h : r.Fits t) {token : String}
    {f : Option String → Value} (hget : r.get? token = some (.ofStates (t.modeOf token) f)) :
    ∀ state ∈ statesOf (t.modeOf token), ∃ text, f state = .text text := by
  obtain ⟨g, hsame, htext⟩ := h.states token _ hget
  intro state hstate
  rw [Resolved.ofStates_inj.mp hsame state hstate]
  exact htext state hstate

namespace Theme

variable {t b inside : Theme} {base : Option Theme} {c : Context} {changed : Option Resolution}
  {options : ResolveOptions} {r : Resolution}

/-- The walks and the projection find the same mode for a token, that of the base if there is one.
-/
theorem fits_of_resolve_onto (hown : PlainTokens t.tokens)
    (hbase : ∀ b ∈ base, PlainTokens b.tokens) (h : t.resolve base options = .ok r) :
    r.Fits (base.getD t) := by
  obtain ⟨f, hf, hget⟩ := get?_of_resolve h
  refine ⟨fun token htoken => (hf token (mem_source_of_resolve h htoken)).1, ?_⟩
  intro token resolved hresolved
  have htoken := mem_source_of_resolve h (OrdMap.mem_keys_of_get? hresolved)
  have hhere := hget token htoken
  rw [hresolved] at hhere
  split at hhere
  · refine ⟨fun state => (f token state).value, Option.some.inj hhere, fun state hstate => ?_⟩
    exact ((hf token htoken).2 state hstate).text fun _ _ ha => plain_of_find? hown hbase ha
  · cases hhere

/-- What a theme is inside a context: the context's assignments are written over its own, or over
what it is rebaselined to. -/
theorem within_cases (h : t.within c base changed = .ok inside) :
    inside = { t with tokens := t.tokens.union (c.tokens.mapWith ((base.getD t).collapsed c)) } ∨
    ∃ b baseContext r, b ∈ base ∧ b.counterpart? c = .ok (some baseContext) ∧
      inside = { t with
        tokens := ((t.rebaselined b baseContext r).mapWith (b.collapsed c)).union
          (c.tokens.mapWith (b.collapsed c)) } := by
  have hunfolded := h
  obtain ⟨own, hown, h⟩ := Outcome.bind_eq_ok.mp h
  rw [collapseAll_eq hown] at h
  cases base with
  | none => exact .inl (Outcome.pure_eq_ok.mp h).symm
  | some b =>
      obtain ⟨counterpart?, hcounterpart, h⟩ := Outcome.bind_eq_ok.mp h
      cases changed with
      | none => exact .inl (Outcome.pure_eq_ok.mp h).symm
      | some r =>
          cases counterpart? with
          | none => exact .inl (Outcome.pure_eq_ok.mp h).symm
          | some baseContext =>
              exact .inr ⟨b, baseContext, r, rfl, hcounterpart, within_eq_ok hcounterpart hunfolded⟩

theorem counterpart?_mem {baseContext : Context} (h : b.counterpart? c = .ok (some baseContext)) :
    baseContext ∈ b.contexts.values := by
  obtain ⟨name?, -, h⟩ := Outcome.bind_eq_ok.mp h
  obtain ⟨name, -, hname⟩ := Option.bind_eq_some_iff.mp (Outcome.pure_eq_ok.mp h)
  exact OrdMap.mem_values_iff.mpr ⟨name, hname⟩

theorem plain_union {lower upper : OrdMap Assignment} (hlower : PlainTokens lower)
    (hupper : PlainTokens upper) : PlainTokens (lower.union upper) := by
  intro token a ha
  rcases Option.or_eq_some_iff.mp (OrdMap.get?_union lower upper token ▸ ha) with ha | ⟨-, ha⟩
  · exact hupper token a ha
  · exact hlower token a ha

theorem plain_collapsed {tokens : OrdMap Assignment} (h : PlainTokens tokens) :
    PlainTokens (tokens.mapWith (t.collapsed c)) := by
  intro token a ha
  obtain ⟨own, hown, rfl⟩ := Option.map_eq_some_iff.mp (OrdMap.get?_mapWith _ tokens token ▸ ha)
  exact collapsed_isPlain (h token own hown)

theorem plain_rebaselined {baseContext : Context} (hown : PlainTokens t.tokens)
    (hcontext : PlainTokens baseContext.tokens) (r : Resolution) :
    PlainTokens (t.rebaselined b baseContext r) := by
  intro token a ha
  rcases get?_rebaselined ha with ha | ⟨-, ha, -⟩
  · exact hcontext token a ha
  · exact hown token a ha

theorem plain_within_onto (hown : PlainTokens t.tokens) (hc : PlainTokens c.tokens)
    (hbase : ∀ b ∈ base, b.IsPlain) (h : t.within c base changed = .ok inside) :
    PlainTokens inside.tokens := by
  rcases within_cases h with rfl | ⟨b, baseContext, changed, hb, hcounterpart, rfl⟩
  · exact plain_union hown (plain_collapsed hc)
  · have hcontext := (hbase b hb).contexts baseContext (counterpart?_mem hcounterpart)
    exact plain_union (plain_collapsed (plain_rebaselined hown hcontext changed))
      (plain_collapsed hc)

theorem fits_of_resolveIn_onto (hown : PlainTokens t.tokens) (hc : PlainTokens c.tokens)
    (hbase : ∀ b ∈ base, b.IsPlain) (h : t.resolveIn c base changed options = .ok r) :
    r.Fits (base.getD t) := by
  obtain ⟨inside, hinside, hr⟩ := Outcome.bind_eq_ok.mp h
  obtain ⟨hmode, hstates⟩ := fits_of_resolve_onto (plain_within_onto hown hc hbase hinside)
    (fun b hb => (hbase b hb).tokens) hr
  cases base with
  | some b => exact ⟨hmode, hstates⟩
  | none =>
      -- without a base the modes are those of the theme inside the context, which are its own
      rcases within_cases hinside with rfl | ⟨b, _, _, hb, -, -⟩
      · exact ⟨hmode, hstates⟩
      · cases hb

theorem fits_of_resolve (hplain : PlainTokens t.tokens) (h : t.resolve none options = .ok r) :
    r.Fits t :=
  fits_of_resolve_onto hplain (by nofun) h

theorem plain_within (hown : PlainTokens t.tokens) (hc : PlainTokens c.tokens)
    (h : t.within c none none = .ok inside) : PlainTokens inside.tokens :=
  plain_within_onto hown hc (by nofun) h

theorem fits_of_resolveIn (hown : PlainTokens t.tokens) (hc : PlainTokens c.tokens)
    (h : t.resolveIn c none none options = .ok r) : r.Fits t :=
  fits_of_resolveIn_onto hown hc (by nofun) h

theorem mem_keys_resolve (h : t.resolve none options = .ok r) {token : String} :
    token ∈ r.keys ↔ token ∈ t.tokens.keys := by
  constructor
  · exact mem_source_of_resolve h
  · intro htoken
    obtain ⟨f, -, hget⟩ := get?_of_resolve h
    have hhere := hget token htoken
    simp only [Option.isNone_none, true_or, if_true] at hhere
    exact OrdMap.mem_keys_of_get? hhere

end Theme

/-! ### Values of places -/

namespace Place

/-- The state that a place stands for, if it is not the default one. -/
def projection : Place → Projection
  | root => .defaults
  | state x => x.projection
  | context .. => .defaults
  | contextState x .. => x.projection

/-- The context that a place belongs to. -/
def inside? : Place → Option Context
  | root => none
  | state _ => none
  | context c _ => some c
  | contextState _ c _ => some c

/-- A place made of the states and contexts of a theme. -/
def IsOf (t : Theme) : Place → Prop
  | root => True
  | state x => x ∈ t.optionalStates
  | context c _ => c ∈ t.contexts.values
  | contextState x c _ => x ∈ t.optionalStates ∧ c ∈ t.contexts.values

theorem inside?_mem {t : Theme} {q : Place} (hq : q.IsOf t) :
    ∀ c ∈ q.inside?, c ∈ t.contexts.values := by
  intro c hc
  cases q with
  | root => cases hc
  | state x => cases hc
  | context d on => exact Option.some.inj hc ▸ hq
  | contextState x d on => exact Option.some.inj hc ▸ hq.2

theorem isOf_of_mem {t : Theme} {q : Place} (hq : q ∈ t.places) : q.IsOf t := by
  cases q with
  | root => trivial
  | state x => exact Theme.state_mem_places.mp hq
  | context c on => exact (Theme.context_mem_places.mp hq).1
  | contextState x c on => exact Theme.contextState_mem_places.mp hq

end Place

/-- What the tokens of a theme stand for, by themselves or inside a context. -/
def Theme.resolveInside (t : Theme) (options : ResolveOptions) :
    Option Context → Except Fault Resolution
  | none => t.resolve none options
  | some c => t.resolveIn c none none options

theorem Theme.fits_of_plain {t : Theme} {options : ResolveOptions} {inside : Option Context}
    {r : Resolution} (hown : PlainTokens t.tokens) (hinside : ∀ c ∈ inside, PlainTokens c.tokens)
    (h : t.resolveInside options inside = .ok r) : r.Fits t := by
  cases inside with
  | none => exact fits_of_resolve hown h
  | some c => exact fits_of_resolveIn hown (hinside c rfl) h

theorem Theme.fits_of_resolveInside {t : Theme} {options : ResolveOptions} {inside : Option Context}
    {r : Resolution} (hplain : t.IsPlain) (hinside : ∀ c ∈ inside, c ∈ t.contexts.values)
    (h : t.resolveInside options inside = .ok r) : r.Fits t :=
  fits_of_plain hplain.tokens (fun c hc => hplain.contexts c (hinside c hc)) h

namespace Resolution

variable {r : Resolution} {t : Theme} {p : Projection} {values : Projected}

theorem get?_project_none (h : r.project t p = .ok values) {token : String}
    (hget : r.get? token = none) : values.get? token = none := by
  rw [OrdMap.get?_eq_none_iff] at hget ⊢
  exact fun hmem => hget (mem_keys_of_project h hmem)

theorem textual_project (hfits : r.Fits t) (h : r.project t p = .ok values) {token : String}
    {v : Value} (hv : values.get? token = some v) : ∃ text, v = .text text := by
  obtain ⟨resolved, hresolved⟩ := OrdMap.mem_keys_iff.mp
    (mem_keys_of_project h (OrdMap.mem_keys_of_get? hv))
  obtain ⟨f, rfl, htext⟩ := hfits.states token resolved hresolved
  obtain ⟨hvalue, hmem⟩ := get?_project h hresolved htext
  rw [hvalue, Option.map_eq_some_iff] at hv
  obtain ⟨state, hstate, rfl⟩ := hv
  exact htext state (hmem state hstate)

/-- Every token has a value at the default states. -/
theorem stateFor_defaults (h : r.project t .defaults = .ok values) {token : String}
    {resolved : Resolved} (hget : r.get? token = some resolved) (hfits : r.Fits t) :
    ∃ state, Projection.defaults.stateFor (t.modeOf token) = some state := by
  obtain ⟨f, rfl, htext⟩ := hfits.states token resolved hget
  cases hmode : t.modeOf token with
  | none => exact ⟨none, rfl⟩
  | some mode =>
      rw [hmode] at hget
      obtain ⟨g, hg, -⟩ := OrdMap.filterMapM_eq_ok.mp h
      have hstep := hg token _ hget
      simp only [Option.getD_none, Outcome.bind_eq_ok] at hstep
      obtain ⟨mode?, hfor, picked, hpicked, -⟩ := hstep
      obtain rfl := Theme.modeFor_eq hfor
      rw [hmode] at hpicked
      simp only [Projection.apply, Resolved.ofStates, Outcome.bind_eq_ok] at hpicked
      obtain ⟨state, hstate, -⟩ := hpicked
      exact ⟨some state, by simp [Projection.stateFor, Mode.defaultState_eq_ok.mp hstate]⟩

end Resolution

variable {N : Type} [Add N] [Sub N] [Mul N] [Div N] [LE N] [LT N] [DecidableLE N] [DecidableLT N]
  [OfScientific N] {space : ColorSpace N}

namespace SingleBuild

variable {b : SingleBuild} {q : Place} {r : Resolution} {values : Projected}

/-- Apart from the theme's own rule, the values of a place are a projection of its resolution. -/
theorem values_eq (hbase : b.base = none)
    (hres : b.theme.resolve none b.options = .ok b.resolution) (hq : q ≠ .root) :
    b.values space q = b.theme.resolveInside b.options q.inside? >>= fun r =>
      r.project b.theme q.projection := by
  cases q with
  | root => exact absurd rfl hq
  | state x =>
      simp only [values, Theme.resolveInside, Place.inside?, hres, hbase]
      rfl
  | context c on => simp [values, valuesIn, Theme.contextValues, changed, hbase,
      Theme.resolveInside, Place.inside?, Place.projection]
  | contextState x c on => simp [values, valuesIn, Theme.contextValues, changed, hbase,
      Theme.resolveInside, Place.inside?, Place.projection]

/-- To the values of the theme's own rule those of its palettes are added. -/
theorem values_root (hbase : b.base = none)
    (hres : b.theme.resolve none b.options = .ok b.resolution) :
    b.values space .root = (b.theme.resolve none b.options >>= fun r =>
      r.project b.theme .defaults) >>= b.theme.withPaletteValues space b.options := by
  simp only [values, Theme.rootValues, hbase, hres]
  rfl

theorem values_eq_ok (hbase : b.base = none)
    (hres : b.theme.resolve none b.options = .ok b.resolution) (hq : q ≠ .root) :
    b.values space q = .ok values ↔ ∃ r, b.theme.resolveInside b.options q.inside? = .ok r ∧
      r.project b.theme q.projection = .ok values := by
  rw [values_eq hbase hres hq, Outcome.bind_eq_ok]

/-- The theme's own rule has the values at the default states; palettes are added to them. -/
theorem get?_values_root (hbase : b.base = none) (h : b.values space .root = .ok values)
    (hfits : b.resolution.Fits b.theme) {token : String} {f : Option String → Value}
    (hget : b.resolution.get? token = some (.ofStates (b.theme.modeOf token) f)) :
    ∃ state, Projection.defaults.stateFor (b.theme.modeOf token) = some state ∧
      values.get? token = some (f state) := by
  simp only [SingleBuild.values, Theme.rootValues, hbase, Outcome.bind_eq_ok, Option.isNone_none,
    if_true] at h
  obtain ⟨defaults, hdefaults, h⟩ := h
  obtain ⟨state, hstate⟩ := Resolution.stateFor_defaults hdefaults hget hfits
  obtain ⟨hvalue, -⟩ := Resolution.get?_project hdefaults hget (hfits.text hget)
  rw [hstate, Option.map_some] at hvalue
  refine ⟨state, hstate, ?_⟩
  unfold Theme.withPaletteValues at h
  split at h
  · obtain ⟨generated, -, h⟩ := Outcome.bind_eq_ok.mp h
    obtain rfl := Outcome.pure_eq_ok.mp h
    rw [OrdMap.get?_foldl_insertNew, hvalue, Option.some_or]
  · obtain rfl := Outcome.pure_eq_ok.mp h
    exact hvalue

/-! ### Declarations of places -/

variable {property : String}

/-- Apart from the theme's own rule, a rule declares each token by its value in the resolution of
the place, at the state of the place, and declares no other token. -/
theorem get?_declarations (hbase : b.base = none)
    (hres : b.theme.resolve none b.options = .ok b.resolution)
    (hinj : b.maker.registry.Injective) (hmade : b.makeRule space q = .ok (b.rule space q))
    (hq : q ≠ .root) (hr : b.theme.resolveInside b.options q.inside? = .ok r)
    (hfits : r.Fits b.theme) {token : String}
    (hproperty : b.maker.registry.property? token = .ok (some property)) :
    (r.get? token = none → (b.rule space q).declarations.get? property = none) ∧
      ∀ f, r.get? token = some (.ofStates (b.theme.modeOf token) f) →
        (b.rule space q).declarations.get? property =
          (q.projection.stateFor (b.theme.modeOf token)).map f := by
  obtain ⟨values, hvalues, hmake⟩ := Outcome.bind_eq_ok.mp hmade
  obtain ⟨r', hr', hproject⟩ := (values_eq_ok hbase hres hq).mp hvalues
  obtain rfl := Except.ok.inj (hr'.symm.trans hr)
  rw [(RuleMaker.make_declare hinj hmake).value token property hproperty]
  refine ⟨Resolution.get?_project_none hproject, fun f hget => ?_⟩
  exact (Resolution.get?_project hproject hget (hfits.text hget)).1

/-- The theme's own rule declares each token by its value at the default state. -/
theorem get?_declarations_root (hbase : b.base = none)
    (hinj : b.maker.registry.Injective)
    (hmade : b.makeRule space .root = .ok (b.rule space .root))
    (hfits : b.resolution.Fits b.theme) {token : String}
    (hproperty : b.maker.registry.property? token = .ok (some property))
    {f : Option String → Value}
    (hget : b.resolution.get? token = some (.ofStates (b.theme.modeOf token) f)) :
    ∃ state, Projection.defaults.stateFor (b.theme.modeOf token) = some state ∧
      (b.rule space .root).declarations.get? property = some (f state) := by
  obtain ⟨values, hvalues, hmake⟩ := Outcome.bind_eq_ok.mp hmade
  rw [(RuleMaker.make_declare hinj hmake).value token property hproperty]
  exact get?_values_root hbase hvalues hfits hget

/-- In a plain theme all rules but its own declare texts. -/
theorem textual_declarations (hbase : b.base = none)
    (hres : b.theme.resolve none b.options = .ok b.resolution) (hplain : b.theme.IsPlain)
    (hinj : b.maker.registry.Injective) (hmade : b.makeRule space q = .ok (b.rule space q))
    (hq : q ∈ b.theme.places) (hne : q ≠ .root) : (b.rule space q).declarations.Textual := by
  obtain ⟨values, hvalues, hmake⟩ := Outcome.bind_eq_ok.mp hmade
  obtain ⟨r, hr, hproject⟩ := (values_eq_ok hbase hres hne).mp hvalues
  have hfits := Theme.fits_of_resolveInside hplain (Place.inside?_mem (Place.isOf_of_mem hq)) hr
  intro property v hv
  obtain ⟨token, -, hvalue⟩ := (RuleMaker.make_declare hinj hmake).token property v hv
  exact Resolution.textual_project hfits hproject hvalue

/-- The theme's own rule does too, unless palettes are declared there. -/
theorem textual_declarations_root (hbase : b.base = none)
    (hres : b.theme.resolve none b.options = .ok b.resolution) (hplain : b.theme.IsPlain)
    (hvars : b.options.useVars = false) (hinj : b.maker.registry.Injective)
    (hmade : b.makeRule space .root = .ok (b.rule space .root)) :
    (b.rule space .root).declarations.Textual := by
  obtain ⟨values, hvalues, hmake⟩ := Outcome.bind_eq_ok.mp hmade
  have hproject : b.resolution.project b.theme .defaults = .ok values := by
    simp only [SingleBuild.values, Theme.rootValues, Theme.withPaletteValues, hbase, hvars,
      Bool.false_and, Bool.false_eq_true, if_false, Outcome.bind_eq_ok] at hvalues
    obtain ⟨defaults, hdefaults, hsame⟩ := hvalues
    simp only [Option.isNone_none, if_true, Outcome.pure_eq_ok] at hsame
    exact hsame ▸ hdefaults
  intro property v hv
  obtain ⟨token, -, hvalue⟩ := (RuleMaker.make_declare hinj hmake).token property v hv
  exact Resolution.textual_project (Theme.fits_of_resolve hplain.tokens hres) hproject hvalue

end SingleBuild

end DesignTokens
