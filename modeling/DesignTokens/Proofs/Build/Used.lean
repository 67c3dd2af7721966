import DesignTokens.Build.Css
import DesignTokens.Proofs.Build.Multi
import DesignTokens.Proofs.Build.Present
import DesignTokens.Proofs.Stylesheet.Restricted

/-!
Sheets that declare some of the tokens. With fewer tokens to be declared rules have fewer
declarations, and whole rules vanish; what is declared for the other tokens stays the same. For
sheets as they are built this holds of any values. In the minimal form a declaration may be kept for
a property that its value refers to, so there it holds where no value refers to one.
-/

namespace DesignTokens

/-! ### Registries for fewer tokens -/

namespace Registry

variable {part full registry : Registry} {token property : String}

/-- The property of a token that is to be declared. -/
def declares (registry : Registry) (property : String) : Bool :=
  registry.properties.keys.any fun token =>
    Outcome.valueOr none (registry.property? token) == some property

theorem declares_iff : registry.declares property = true ↔
    ∃ token, registry.property? token = .ok (some property) := by
  simp only [declares, List.any_eq_true, beq_iff_eq]
  constructor
  · rintro ⟨token, -, hvalue⟩
    refine ⟨token, ?_⟩
    cases hproperty : registry.property? token with
    | error e =>
        rw [hproperty] at hvalue
        cases hvalue
    | ok property? =>
        rw [hproperty] at hvalue
        exact congrArg Except.ok hvalue
  · rintro ⟨token, hproperty⟩
    obtain ⟨v, hv, -⟩ := get?_of_property? hproperty
    refine ⟨token, OrdMap.mem_keys_of_get? hv, ?_⟩
    rw [hproperty]
    rfl

/-- A registry that declares the tokens of another, or some of them. -/
def Narrows (part full : Registry) : Prop :=
  ∀ token, part.property? token = full.property? token ∨ part.property? token = .ok none

theorem narrows_of_subset {properties : OrdMap Value} {used used' : List String}
    (h : used ⊆ used') : Narrows ⟨properties, some used⟩ ⟨properties, some used'⟩ := by
  intro token
  by_cases htoken : token ∈ used
  · exact .inl (by simp [property?, htoken, h htoken])
  · exact .inr (by simp [property?, htoken])

theorem narrows_all (properties : OrdMap Value) (used : List String) :
    Narrows ⟨properties, some used⟩ ⟨properties, none⟩ := by
  intro token
  by_cases htoken : token ∈ used
  · exact .inl (by simp [property?, htoken])
  · exact .inr (by simp [property?, htoken])

/-- A property is declared for fewer tokens if it is that of one of them. -/
theorem Narrows.property?_eq (h : Narrows part full) (hinj : full.Injective)
    (hproperty : full.property? token = .ok (some property)) :
    part.property? token = .ok (if part.declares property then some property else none) := by
  split
  · next hdeclares =>
      obtain ⟨token', htoken'⟩ := declares_iff.mp hdeclares
      obtain hsame | hnone := h token'
      · obtain rfl := hinj token token' property hproperty (hsame ▸ htoken')
        exact htoken'
      · cases htoken'.symm.trans hnone
  · next hnot =>
      obtain hsame | hnone := h token
      · exact absurd (declares_iff.mpr ⟨token, hsame.trans hproperty⟩) hnot
      · exact hnone

end Registry

theorem Rule.only_declare (r : Rule) (property : String) (v : Value) (p : String → Bool) :
    (r.declare property v).only p = if p property then (r.only p).declare property v
      else r.only p := by
  rw [Rule.only, declare, Declarations.only, OrdMap.filter_insert_erase]
  split <;> rfl

variable {customizer : Customizer} {part full : Registry}

/-- A rule for fewer tokens has their declarations. -/
theorem RuleMaker.make_only (hnarrow : part.Narrows full) (hinj : full.Injective)
    {fragments : Selector.Fragments} {media : Value} {values : Projected} {r : Rule}
    (h : (⟨customizer, full⟩ : RuleMaker).make fragments media values = .ok r) :
    (⟨customizer, part⟩ : RuleMaker).make fragments media values =
      .ok (r.only part.declares) := by
  obtain ⟨selector, hselector, hfold⟩ := Outcome.bind_eq_ok.mp h
  refine Outcome.bind_eq_ok.mpr ⟨selector, hselector, ?_⟩
  refine Outcome.foldlM_carried (Rule.only · part.declares) ?_ hfold
  rintro ⟨token, v⟩ b c hstep
  obtain ⟨property?, hproperty, hstep⟩ := Outcome.bind_eq_ok.mp hstep
  cases property? with
  | none =>
      obtain rfl := Outcome.pure_eq_ok.mp hstep
      have hpart : part.property? token = .ok none :=
        (hnarrow token).elim (fun hsame => hsame.trans hproperty) id
      exact Outcome.bind_eq_ok.mpr ⟨none, hpart, rfl⟩
  | some property =>
      obtain rfl := Outcome.pure_eq_ok.mp hstep
      have hpart := hnarrow.property?_eq hinj hproperty
      rw [Rule.only_declare]
      refine Outcome.bind_eq_ok.mpr ⟨_, hpart, ?_⟩
      cases part.declares property <;> rfl

/-! ### Plans for fewer tokens -/

variable {N : Type} [Add N] [Sub N] [Mul N] [Div N] [LE N] [LT N] [DecidableLE N] [DecidableLT N]
  [OfScientific N] {space : ColorSpace N} {options : ResolveOptions} {themes : List Theme}
  {t : Theme} {q : Place} {u : Stylesheet}

section Narrow

variable (hnarrow : part.Narrows full) (hinj : full.Injective)

include hnarrow hinj

/-- A place has its values whatever tokens are declared. -/
theorem SingleBuild.makeRule_only {base : Option Theme} {resolution : Resolution} {r : Rule}
    (h : makeRule space ⟨⟨customizer, full⟩, t, base, options, resolution⟩ q = .ok r) :
    makeRule space ⟨⟨customizer, part⟩, t, base, options, resolution⟩ q =
      .ok (r.only part.declares) := by
  obtain ⟨values, hvalues, hmake⟩ := Outcome.bind_eq_ok.mp h
  have hsame : SingleBuild.values space ⟨⟨customizer, part⟩, t, base, options, resolution⟩ q =
      .ok values := by
    rw [← hvalues]
    cases q <;> rfl
  exact Outcome.bind_eq_ok.mpr ⟨values, hsame, RuleMaker.make_only hnarrow hinj hmake⟩

theorem Theme.Makes.only (h : t.Makes space ⟨customizer, full⟩ none options) (below : Bool) :
    t.Makes space ⟨customizer, part⟩ none options ∧
      t.plan space ⟨customizer, part⟩ none options below =
        (t.plan space ⟨customizer, full⟩ none options below).map
          (Planned.only · part.declares) := by
  refine ⟨⟨h.resolves, fun q hq => ?_⟩, ?_⟩
  · obtain ⟨r, hr⟩ := h.rule q hq
    exact ⟨_, SingleBuild.makeRule_only hnarrow hinj hr⟩
  · rw [plan, plan, List.map_map]
    refine List.map_congr_left fun q hq => ?_
    obtain ⟨r, hr⟩ := h.rule q hq
    have hpart : SingleBuild.rule space (t.build ⟨customizer, part⟩ none options) q =
        r.only part.declares :=
      SingleBuild.rule_eq (SingleBuild.makeRule_only hnarrow hinj hr)
    rw [SingleBuild.entry, hpart, ← SingleBuild.rule_eq hr]
    rfl

theorem plans_only {order : List Theme} {below : Bool}
    (h : ∀ t ∈ order, t.Makes space ⟨customizer, full⟩ none options) :
    order.flatMap (Theme.plan space ⟨customizer, part⟩ none options below) =
      (order.flatMap (Theme.plan space ⟨customizer, full⟩ none options below)).map
        (Planned.only · part.declares) := by
  rw [List.map_flatMap]
  exact List.flatMap_congr fun t ht => ((h t ht).only hnarrow hinj below).2

/-- What is built for some tokens is built for fewer. -/
theorem exists_buildSingle_only
    (h : ∃ s, buildSingle space ⟨customizer, full⟩ t none options = .ok s) :
    ∃ s, buildSingle space ⟨customizer, part⟩ t none options = .ok s := by
  obtain ⟨resolution, hresolution, hmade⟩ := exists_buildSingle_iff.mp h
  refine exists_buildSingle_iff.mpr ⟨resolution, hresolution, fun q hq => ?_⟩
  obtain ⟨r, hr⟩ := hmade q hq
  exact ⟨_, SingleBuild.makeRule_only hnarrow hinj hr⟩

theorem exists_buildMulti_only (hsep : Separated customizer themes)
    (h : buildMulti space ⟨customizer, full⟩ themes options = .ok u) :
    ∃ v, buildMulti space ⟨customizer, part⟩ themes options = .ok v := by
  by_cases hroot : ∃ primary ∈ themes, primary.selector = .text ":root"
  · obtain ⟨primary, hprimary, hroot⟩ := hroot
    obtain ⟨s, hs, hmakes, -⟩ := (buildMulti_eq_ok hsep hprimary hroot).mp h
    obtain ⟨s', hs'⟩ := exists_buildSingle_only hnarrow hinj ⟨s, hs⟩
    exact ⟨_, (buildMulti_eq_ok hsep hprimary hroot).mpr
      ⟨s', hs', fun t ht => ((hmakes t ht).only hnarrow hinj true).1, rfl⟩⟩
  · have hother : ∀ t ∈ themes, t.selector ≠ .text ":root" := fun t ht heq => hroot ⟨t, ht, heq⟩
    rw [buildMulti_apart hsep hother] at h ⊢
    have hfull : ∀ t ∈ themes,
        ∃ s, buildSingle space ⟨customizer, full⟩ t none options = .ok s := by
      refine Outcome.foldlM_induction (fun done _ => ∀ t ∈ done, ∃ s,
        buildSingle space ⟨customizer, full⟩ t none options = .ok s) (by simp) ?_ h
      rintro done t rest s s' - hdone hstep
      obtain ⟨sheet, hsheet, -⟩ := Outcome.map_eq_ok.mp hstep
      exact List.forall_mem_append.mpr ⟨hdone, List.forall_mem_singleton.mpr ⟨sheet, hsheet⟩⟩
    refine Outcome.exists_foldlM_of_forall _ fun t ht s => ?_
    obtain ⟨sheet, hsheet⟩ := exists_buildSingle_only hnarrow hinj (hfull t ht)
    exact ⟨_, Outcome.map_eq_ok.mpr ⟨sheet, hsheet, rfl⟩⟩

end Narrow

/-- Themes are built in an order that their selectors tell, whatever is declared. -/
theorem Separated.exists_order (hsep : Separated customizer themes) (space : ColorSpace N)
    (options : ResolveOptions) : ∃ (order : List Theme) (below : Bool), order ⊆ themes ∧
      ∀ registry u, buildMulti space ⟨customizer, registry⟩ themes options = .ok u →
        (∀ t ∈ order, t.Makes space ⟨customizer, registry⟩ none options) ∧
        u.Lists (order.flatMap (Theme.plan space ⟨customizer, registry⟩ none options below)) ∧
        Layered ((order.flatMap (Theme.plan space ⟨customizer, registry⟩ none options below)).map
          Planned.outline) := by
  by_cases hroot : ∃ primary ∈ themes, primary.selector = .text ":root"
  · obtain ⟨primary, hprimary, hroot⟩ := hroot
    refine ⟨primary :: secondary themes, true, hsep.order_subset hprimary, fun registry u hu => ?_⟩
    have hmaker : Separated (RuleMaker.customizer ⟨customizer, registry⟩) themes := hsep
    obtain ⟨hmakes, hlists⟩ := lists_of_buildMulti hmaker hprimary hroot hu
    exact ⟨hmakes, hlists, hmaker.layered_below hprimary hroot (List.Sublist.refl _) hmakes⟩
  · have hother : ∀ t ∈ themes, t.selector ≠ .text ":root" := fun t ht heq => hroot ⟨t, ht, heq⟩
    refine ⟨themes, false, List.Subset.refl _, fun registry u hu => ?_⟩
    have hmaker : Separated (RuleMaker.customizer ⟨customizer, registry⟩) themes := hsep
    obtain ⟨hmakes, hlists⟩ := lists_of_buildMulti_apart hmaker hother hu
    exact ⟨hmakes, hlists, hmaker.layered_plans (List.Subset.refl _) hsep.distinctThemes
      (fun hfalse => Bool.noConfusion hfalse) hmakes⟩

/-! ### Values without references -/

/-- A value that refers to no property. -/
def Value.IsVarFree (v : Value) : Prop := ∀ name, v.firstVar? ≠ .ok (some name)

/-- The values of a token at its states. -/
def Resolved.values : Resolved → List Value
  | .single v => [v]
  | .perState values => values.values

/-- No value that is resolved for a theme refers to a property, neither by itself nor in a context,
nor does any of its palettes. -/
structure Theme.IsVarFree (space : ColorSpace N) (options : ResolveOptions) (t : Theme) : Prop where
  tokens : ∀ inside : Option Context, (∀ c ∈ inside, c ∈ t.contexts.values) →
    ∀ r, t.resolveInside options inside = .ok r →
      ∀ token resolved, r.get? token = some resolved → ∀ v ∈ resolved.values, v.IsVarFree
  palettes : ∀ values, t.withPaletteValues space options .empty = .ok values →
    ∀ token v, values.get? token = some v → v.IsVarFree

theorem Projection.mem_values_of_apply {p : Projection} {mode? : Option Mode} {token : String}
    {resolved : Resolved} {v : Value} (h : p.apply mode? token resolved = .ok (some v)) :
    v ∈ resolved.values := by
  have hpick : ∀ {state}, pick resolved state = .ok v → v ∈ resolved.values := by
    intro state hpick
    unfold pick at hpick
    split at hpick
    · split at hpick
      · next values _ w hw =>
          obtain rfl := Except.ok.inj hpick
          exact OrdMap.mem_values_iff.mpr ⟨_, hw⟩
      · cases hpick
    · cases hpick
  unfold apply at h
  split at h
  · obtain rfl := Option.some.inj (Except.ok.inj h)
    exact List.mem_singleton_self _
  · simp only [Outcome.bind_eq_ok, Outcome.pure_eq_ok] at h
    obtain ⟨state, -, w, hw, hsame⟩ := h
    obtain rfl := Option.some.inj hsame
    exact hpick hw
  · split at h
    · obtain ⟨w, hw, hsame⟩ := Outcome.map_eq_ok.mp h
      obtain rfl := Option.some.inj hsame
      exact hpick hw
    · cases h
  · cases h

/-- A projected value is one of those of its token. -/
theorem Resolution.exists_of_project {r : Resolution} {p : Projection} {base : Option Theme}
    {values : Projected} (h : r.project t p base = .ok values) {token : String} {v : Value}
    (hv : values.get? token = some v) : ∃ resolved, r.get? token = some resolved ∧
      v ∈ resolved.values := by
  obtain ⟨g, hg, rfl⟩ := OrdMap.filterMapM_eq_ok.mp h
  rw [OrdMap.get?_filterMap, Option.bind_eq_some_iff] at hv
  obtain ⟨resolved, hresolved, hv⟩ := hv
  have hstep := hg token resolved hresolved
  simp only [Outcome.bind_eq_ok, Outcome.pure_eq_ok] at hstep
  obtain ⟨mode?, -, picked, hpicked, hfilter⟩ := hstep
  rw [hv, Option.filter_eq_some_iff] at hfilter
  obtain ⟨rfl, -⟩ := hfilter
  exact ⟨resolved, hresolved, Projection.mem_values_of_apply hpicked⟩

namespace SingleBuild

variable {b : SingleBuild} {values : Projected} {token : String} {v : Value}

theorem isVarFree_of_values (hbase : b.base = none)
    (hres : b.theme.resolve none b.options = .ok b.resolution)
    (hfree : b.theme.IsVarFree space b.options) (hq : q.IsOf b.theme)
    (h : b.values space q = .ok values) (hv : values.get? token = some v) : v.IsVarFree := by
  by_cases hroot : q = .root
  · subst hroot
    obtain ⟨defaults, palettes, hdefaults, hpalettes, hget⟩ := get?_rootValues hbase h
    rw [hget, Option.or_eq_some_iff] at hv
    obtain hv | ⟨-, hv⟩ := hv
    · obtain ⟨resolved, hresolved, hmem⟩ := Resolution.exists_of_project hdefaults hv
      exact hfree.tokens none (by simp) b.resolution hres token resolved hresolved v hmem
    · exact hfree.palettes palettes hpalettes token v hv
  · obtain ⟨r, hr, hproject⟩ := (values_eq_ok hbase hres hroot).mp h
    obtain ⟨resolved, hresolved, hmem⟩ := Resolution.exists_of_project hproject hv
    exact hfree.tokens q.inside? (Place.inside?_mem hq) r hr token resolved hresolved v hmem

end SingleBuild

/-- What the rules of a theme declare is not null, and refers to no property if the theme does not.
-/
theorem Theme.Makes.declarations {maker : RuleMaker} (h : t.Makes space maker none options)
    {below : Bool} {e : Planned} (he : e ∈ t.plan space maker none options below) :
    e.declarations.IsPresent ∧ (t.IsVarFree space options → e.declarations.IsVarFree) := by
  obtain ⟨q, hq, rfl⟩ := List.mem_map.mp he
  obtain ⟨resolution, hres⟩ := h.resolves
  obtain ⟨r, hr⟩ := h.rule q hq
  rw [build_eq hres] at hr
  let b : SingleBuild := ⟨maker, t, none, options, resolution⟩
  obtain ⟨values, hvalues, hmake⟩ := Outcome.bind_eq_ok.mp hr
  have hrule :
      ((t.build maker none options).entry space below q).declarations = r.declarations := by
    rw [build_eq hres, Planned.declarations, SingleBuild.entry, SingleBuild.rule_eq hr]
  rw [hrule]
  refine ⟨fun property v hv => ?_, fun hfree property v hv => ?_⟩
  · obtain ⟨token, -, hvalue⟩ := RuleMaker.exists_token_of_make hmake hv
    exact SingleBuild.ne_null_of_values (b := b) rfl hres hvalues hvalue
  · obtain ⟨token, -, hvalue⟩ := RuleMaker.exists_token_of_make hmake hv
    exact SingleBuild.isVarFree_of_values (b := b) rfl hres hfree (Place.isOf_of_mem hq) hvalues
      hvalue

/-! ### Sheets for fewer tokens -/

/-- What is declared for a token does not depend on which other tokens are declared. If no value
refers to a property, the minimal sheet for fewer tokens is that for more without the declarations
of the others, and without the rules that are then empty. -/
theorem buildSheet_used {primary : Theme} {others : List Theme} {properties : OrdMap Value}
    {used used' : List String} (hsep : Separated customizer (primary :: others))
    (hinj : Registry.Injective ⟨properties, some used'⟩) (hsub : used ⊆ used')
    (hfree : ∀ t ∈ primary :: others, t.IsVarFree space options)
    (h : buildSheet space primary others properties customizer used' options = .ok u) :
    ∃ v, buildSheet space primary others properties customizer used options = .ok v ∧
      v.listing = (u.listing.map (Rule.only · (Registry.declares ⟨properties, some used⟩))).filter
        fun r => !r.isEmpty := by
  have hnarrow : Registry.Narrows ⟨properties, some used⟩ ⟨properties, some used'⟩ :=
    Registry.narrows_of_subset hsub
  obtain ⟨s, hs, hu⟩ := Outcome.bind_eq_ok.mp h
  replace hu : s.minimal = .ok u := by simpa using hu
  obtain ⟨s', hs'⟩ := exists_buildMulti_only hnarrow hinj hsep hs
  obtain ⟨order, below, hthemes, horder⟩ := hsep.exists_order space options
  obtain ⟨hmakes, hlists, hlayers⟩ := horder _ s hs
  obtain ⟨-, hlists', -⟩ := horder _ s' hs'
  rw [plans_only hnarrow hinj hmakes] at hlists'
  have hvars : ∀ e ∈ order.flatMap (Theme.plan space ⟨customizer, ⟨properties, some used'⟩⟩ none
      options below), e.declarations.IsVarFree := by
    intro e he
    obtain ⟨t, ht, he⟩ := List.mem_flatMap.mp he
    exact ((hmakes t ht).declarations he).2 (hfree t (hthemes ht))
  have hpresent : ∀ e ∈ order.flatMap (Theme.plan space ⟨customizer, ⟨properties, some used'⟩⟩ none
      options below), e.declarations.IsPresent := by
    intro e he
    obtain ⟨t, ht, he⟩ := List.mem_flatMap.mp he
    exact ((hmakes t ht).declarations he).1
  obtain ⟨v, hv, hlisting⟩ := hlists.exists_minimal_only hlayers hvars hpresent hu hlists'
  exact ⟨v, Outcome.bind_eq_ok.mpr ⟨s', hs', by simpa using hv⟩, hlisting⟩

theorem isVarFree_site : ∀ t ∈ [site, sidebar, panel], t.IsVarFree Cam16.space {} := by
  have hvalues : ∀ r : Resolution, (r.values.all fun resolved => resolved.values.all fun v =>
      v.text?.any fun s => (firstVar? s).isNone) = true →
        ∀ token resolved, r.get? token = some resolved → ∀ v ∈ resolved.values, v.IsVarFree := by
    intro r hr token resolved hresolved v hv name hname
    simp only [List.all_eq_true] at hr
    have htext := hr resolved (OrdMap.mem_values_iff.mpr ⟨token, hresolved⟩) v hv
    obtain ⟨s, hs, hnone⟩ := (Option.any_eq_true _ _).mp htext
    obtain rfl := Value.eq_text_of_text? hs
    rw [Option.isNone_iff_eq_none] at hnone
    simp [Value.firstVar?, hnone] at hname
  have hsite : site.resolveInside {} none = .ok (.ofList [("ink",
      .perState (.ofList [("light", "black"), ("dark", "white")]))]) := rfl
  have hsidebar : sidebar.resolveInside {} none = .ok (.ofList [("ink", .single "black")]) := rfl
  have hpanel : panel.resolveInside {} none = .ok (.ofList [("ink", .single "black"),
      ("line", .perState (.ofList [("light", "gray"), ("dark", "black")]))]) := rfl
  have hcard : panel.resolveInside {} (some card) = .ok (.ofList [("ink", .single "navy"),
      ("line", .perState (.ofList [("light", "gray"), ("dark", "navy")]))]) := panel_resolveIn_card
  intro t ht
  refine ⟨fun inside hinside r hr => hvalues r ?_, fun values hvalues token v hv => ?_⟩
  · simp only [List.mem_cons, List.not_mem_nil, or_false] at ht
    obtain rfl | rfl | rfl := ht
    · cases inside with
      | none =>
          obtain rfl := Except.ok.inj (hsite.symm.trans hr)
          rfl
      | some c => cases hinside c rfl
    · cases inside with
      | none =>
          obtain rfl := Except.ok.inj (hsidebar.symm.trans hr)
          rfl
      | some c => cases hinside c rfl
    · cases inside with
      | none =>
          obtain rfl := Except.ok.inj (hpanel.symm.trans hr)
          rfl
      | some c =>
          obtain rfl := List.mem_singleton.mp (hinside c rfl)
          obtain rfl := Except.ok.inj (hcard.symm.trans hr)
          rfl
  · obtain rfl := Except.ok.inj hvalues
    cases hv

theorem buildSheet_used_site : Separated panelMaker.customizer [site, sidebar, panel] ∧
    (∀ t ∈ [site, sidebar, panel], t.IsVarFree Cam16.space {}) ∧
    ∃ u v, buildSheet Cam16.space site [sidebar, panel] panelMaker.registry.properties
        panelMaker.customizer ["ink", "line"] = .ok u ∧
      buildSheet Cam16.space site [sidebar, panel] panelMaker.registry.properties
        panelMaker.customizer ["line"] = .ok v ∧
      v.listing = (u.listing.map (Rule.only ·
        (Registry.declares ⟨panelMaker.registry.properties, some ["line"]⟩))).filter
          fun r => !r.isEmpty := by
  let full : Registry := ⟨panelMaker.registry.properties, some ["ink", "line"]⟩
  have hinj : full.Injective := Registry.injective_of_nodup (by decide)
  obtain ⟨all, hall⟩ := exists_buildMulti_site
  obtain ⟨s, hs⟩ := exists_buildMulti_only (Registry.narrows_all _ ["ink", "line"])
    (Registry.injective_of_nodup (by decide)) separated_site hall
  have hsep : Separated (RuleMaker.customizer ⟨panelMaker.customizer, full⟩)
      [site, sidebar, panel] := separated_site
  obtain ⟨u, hu, -⟩ :=
    exists_minimal_of_plain hsep List.mem_cons_self rfl isPlain_site hinj rfl hs
  have hsheet : buildSheet Cam16.space site [sidebar, panel] panelMaker.registry.properties
      panelMaker.customizer ["ink", "line"] = .ok u := by
    rw [buildSheet, Outcome.bind_eq_ok]
    exact ⟨s, hs, by simpa using hu⟩
  have hsub : ["line"] ⊆ ["ink", "line"] := by simp
  obtain ⟨v, hv, hlisting⟩ := buildSheet_used separated_site hinj hsub isVarFree_site hsheet
  exact ⟨separated_site, isVarFree_site, u, v, hsheet, hv, hlisting⟩

end DesignTokens
