import DesignTokens.Proofs.Build.Standing
import DesignTokens.Proofs.Resolution.Written

/-!
References in rules. Where properties are written for references, a rule refers to the property of a
token that is resolved elsewhere, so that property must be declared where the rule applies. For a
token to be declared it is, by the rule or by one on its path: the theme's own rule declares all
tokens of the theme, it is on the path of every other rule, and no minimal form takes anything from
it. A token that only a context assigns is declared by the rules of the context, which are on the
paths of rules for its states as long as no two rules have one selector. A token that is not to be
declared has its property nowhere.
-/

namespace DesignTokens

/-! ### Walks that stop in front of a token -/

namespace Scope

variable {s : Scope} {options : ResolveOptions} {state : Option String} {token target : String}

theorem Chain.stop_last {ts : List String} {v : Value} (h : s.Chain options state token ts v) :
    ∃ last, ts.getLast? = some last ∧ s.hop options state last = .ok (.stop v) := by
  induction h with
  | @stop token v hs => exact ⟨token, rfl, hs⟩
  | @go token target rest v hg tail ih =>
      obtain ⟨last, hlast, hstop⟩ := ih
      obtain ⟨more, rfl⟩ := tail.head
      exact ⟨last, by rw [List.getLast?_cons_cons, hlast], hstop⟩

/-- In front of a token a walk writes the token's property. -/
theorem writes_of_ahead? {trace : Trace} (h : s.walk options state token [] = .ok trace)
    (hahead : s.ahead? state trace = some target) :
    ∃ property, options.property? target = some property ∧
      trace.value = .text ("var(" ++ property ++ ")") ∧ (s.find? target).isSome := by
  obtain ⟨last, hlast, hstop⟩ := (walk_nil_eq_ok.mp h).stop_last
  obtain ⟨a, v, ha, hv, hleaves⟩ := hop_eq_ok.mp hstop
  have htarget : v.target? = some target := by
    simpa [ahead?, next?, hlast, ha, hv, Except.toOption, ResolveOptions.property?] using hahead
  generalize trace.value = written at hleaves
  cases hleaves with
  | literal ht =>
      rw [ht] at htarget
      cases htarget
  | property ht hproperty hfound =>
      obtain rfl := Option.some.inj (ht.symm.trans htarget)
      exact ⟨_, hproperty, rfl, hfound⟩

end Scope

/-! ### Properties of tokens to be declared -/

/-- A rule was made only if every token with a value could be looked up. -/
theorem RuleMaker.exists_property_of_make {maker : RuleMaker} {fragments : Selector.Fragments}
    {media : Value} {values : Projected} {r : Rule} (h : maker.make fragments media values = .ok r)
    {token : String} {v : Value} (hv : values.get? token = some v) :
    ∃ property?, maker.registry.property? token = .ok property? := by
  obtain ⟨selector, -, hfold⟩ := Outcome.bind_eq_ok.mp h
  have hall : ∀ e ∈ values.entries, ∃ property?, maker.registry.property? e.1 = .ok property? := by
    refine Outcome.foldlM_induction (fun done (_ : Rule) => ∀ e ∈ done,
      ∃ property?, maker.registry.property? e.1 = .ok property?) (by simp) ?_ hfold
    rintro done e rest b c - hdone hstep
    obtain ⟨property?, hproperty, -⟩ := Outcome.bind_eq_ok.mp hstep
    exact List.forall_mem_append.mpr ⟨hdone, List.forall_mem_singleton.mpr ⟨_, hproperty⟩⟩
  exact hall (token, v) (OrdMap.mem_entries_iff.mpr hv)

/-- A token to be declared is declared by its property. -/
theorem Registry.property?_of_used {properties : OrdMap Value} {used : List String}
    {token property : String} {property? : Option String}
    (h : (⟨properties, some used⟩ : Registry).property? token = .ok property?)
    (hused : token ∈ used) (hproperty : (properties.get? token).map Value.display = some property) :
    property? = some property := by
  obtain ⟨v, hv, rfl⟩ := Option.map_eq_some_iff.mp hproperty
  unfold Registry.property? at h
  split at h
  · next hunused => simp [hused] at hunused
  · simp only [hv, Option.getD_some] at h
    split at h
    · cases h
    · cases h
    · split at h
      · exact (Except.ok.inj h).symm
      · cases h

/-! ### Paths -/

theorem Rule.isEmpty_of_get? {r : Rule} {property : String} {v : Value}
    (hv : r.declarations.get? property = some v) : r.isEmpty = false := by
  cases hempty : r.isEmpty with
  | false => rfl
  | true => simp [OrdMap.eq_empty_of_isEmpty hempty] at hv

namespace Stylesheet

/-- A placed rule or one on its path declares a property. -/
def Reaches (s : Stylesheet) (p : Placed) (property : String) : Prop :=
  ∃ id ∈ p.path ++ [p.rule], ∃ v, (s.rule id).declarations.get? property = some v

/-- What a rule of a plan declares is declared at its selector or at that of a parent. -/
def Retains (s : Stylesheet) (plan : List Planned) : Prop :=
  ∀ e ∈ plan, ∀ property v, e.declarations.get? property = some v →
    ∃ selector ∈ e.parents ++ [e.selector], ∃ w, (s.declared selector).get? property = some w

variable {s m u : Stylesheet} {plan : List Planned} {e : Planned} {p : Placed}
  {property selector : String} {v : Value}

theorem exists_of_get?_declared (h : (s.declared selector).get? property = some v) :
    ∃ p, s.placed.get? selector = some p ∧
      (s.rule p.rule).declarations.get? property = some v := by
  unfold declared at h
  split at h
  · next p hp => exact ⟨p, hp, h⟩
  · simp at h

namespace Follows

/-- What the rule of a parent declares is within reach. -/
theorem reaches (h : s.Follows plan) (hplan : IsPlan plan)
    (hsub : ∀ selector p, u.placed.get? selector = some p → s.placed.get? selector = some p)
    (he : e ∈ plan) (hp : u.placed.get? e.selector = some p)
    (hselector : selector ∈ e.parents ++ [e.selector])
    (hv : (u.declared selector).get? property = some v) : u.Reaches p property := by
  obtain ⟨q, hq, hdeclared⟩ := exists_of_get?_declared hv
  refine ⟨q.rule, ?_, v, hdeclared⟩
  obtain hparent | hself := List.mem_append.mp hselector
  · have hfound : s.find? selector = some q.rule := by rw [find?, hsub selector q hq]; rfl
    have hfilled : e.rule.isEmpty = false := by
      cases hempty : e.rule.isEmpty with
      | false => rfl
      | true =>
          have hnone := h.lists.get?_placed_of_empty hplan.distinct he hempty
          rw [hsub _ p hp] at hnone
          cases hnone
    obtain ⟨id, -, -, hplace⟩ := h.place e he hfilled
    obtain rfl := Option.some.inj (hplace.symm.trans (hsub _ p hp))
    exact List.mem_append_left _ (List.mem_filterMap.mpr ⟨selector, hparent, hfound⟩)
  · obtain rfl := List.mem_singleton.mp hself
    obtain rfl := Option.some.inj (hp.symm.trans hq)
    exact List.mem_append_right _ (List.mem_singleton.mpr rfl)

theorem retains (h : s.Follows plan) (hplan : IsPlan plan) : s.Retains plan := by
  intro e he property v hv
  refine ⟨e.selector, by simp, v, ?_⟩
  rwa [h.lists.declared_eq hplan.distinct he]

/-- What the minimal form drops from a rule is declared by a parent. -/
theorem retains_minimal (h : s.Follows plan) (hplan : IsPlan plan) (hm : m.IsMinimalOf s) :
    m.Retains plan := by
  intro e he property v hv
  by_cases htop : e.parents = []
  · refine ⟨e.selector, by simp, v, ?_⟩
    rw [h.declared_minimal_top hplan hm he htop, hv]
  · have hdeclared := h.declared_minimal hplan hm he htop
    cases hkeeps : Declarations.keeps e.declarations (.overlay (e.parents.map m.declared))
        (comparesByValue e.rule) property v with
    | true =>
        refine ⟨e.selector, by simp, v, ?_⟩
        rw [hdeclared, OrdMap.get?_filter, hv, Option.filter_some, if_pos hkeeps]
    | false =>
        have hgiven := Declarations.get?_parent_of_dropped (hplan.textual e he htop) hv hkeeps
        obtain ⟨d, hd, hdv⟩ := Declarations.exists_of_get?_overlay hgiven
        obtain ⟨selector, hselector, rfl⟩ := List.mem_map.mp hd
        exact ⟨selector, List.mem_append_left _ hselector, v, hdv⟩

end Follows

end Stylesheet

/-! ### Rules of the theme and of contexts -/

/-- The theme with the assignments in force by itself or inside a context. -/
def Theme.inside (t : Theme) : Option Context → Except Fault Theme
  | none => .ok t
  | some c => t.within c none none

theorem Theme.resolveInside_eq (t : Theme) (options : ResolveOptions) (c? : Option Context) :
    t.resolveInside options c? = t.inside c? >>= fun inside => inside.resolve none options := by
  cases c? <;> rfl

variable {N : Type} [Add N] [Sub N] [Mul N] [Div N] [LE N] [LT N] [DecidableLE N] [DecidableLT N]
  [OfScientific N] {space : ColorSpace N}

namespace SingleBuild

variable {b : SingleBuild} {s m : Stylesheet} {done : List Place} {q : Place} {inside : Theme}
  {properties : OrdMap Value} {used : List String} {token target property : String} {v : Value}

/-- At a place the walk from a token stops in front of another token and writes a value for it. -/
def Writes (b : SingleBuild) (q : Place) (token target : String) (v : Value) : Prop :=
  ∃ inside state trace, b.theme.inside q.inside? = .ok inside ∧
    q.projection.stateFor (b.theme.modeOf token) = some state ∧
    (inside.scope none).walk b.options state token [] = .ok trace ∧ trace.value = v ∧
    (inside.scope none).ahead? state trace = some target

/-- Wherever a rule of a sheet declares a token by what was written for a target, that is the
property of the target, and the rule or one on its path declares this property. -/
def Defines (space : ColorSpace N) (b : SingleBuild) (s : Stylesheet) (target : String) : Prop :=
  ∀ selector p q token property v, s.placed.get? selector = some p →
    b.last? space b.theme.allPlaces selector = some q →
    b.maker.registry.property? token = .ok (some property) →
    (s.rule p.rule).declarations.get? property = some v → b.Writes q token target v →
    ∃ name, (b.maker.registry.properties.get? target).map Value.display = some name ∧
      v = .text ("var(" ++ name ++ ")") ∧ s.Reaches p name

/-- A rule for the default states declares every token that is assigned there, if it is one to be
declared. -/
theorem exists_declared_default (hbase : b.base = none)
    (hres : b.theme.resolve none b.options = .ok b.resolution) (hplain : b.theme.IsPlain)
    (hregistry : b.maker.registry = ⟨properties, some used⟩) (hq : q.IsOf b.theme)
    (hmade : b.makeRule space q = .ok (b.rule space q)) (hdefaults : q.projection = .defaults)
    (hinside : b.theme.inside q.inside? = .ok inside) (htarget : target ∈ inside.tokens.keys)
    (hused : target ∈ used)
    (hproperty : (properties.get? target).map Value.display = some property) :
    ∃ w, (b.rule space q).declarations.get? property = some w := by
  obtain ⟨values, hvalues, hmake⟩ := Outcome.bind_eq_ok.mp hmade
  suffices hvalue : ∃ w, values.get? target = some w by
    obtain ⟨w, hw⟩ := hvalue
    obtain ⟨property?, hlookup⟩ := RuleMaker.exists_property_of_make hmake hw
    have hname : property? = some property :=
      Registry.property?_of_used (hregistry ▸ hlookup) hused hproperty
    exact RuleMaker.exists_value_of_make hmake (hname ▸ hlookup) hw
  by_cases hroot : q = .root
  · obtain rfl := hroot
    obtain rfl := Except.ok.inj hinside
    obtain ⟨resolved, hresolved⟩ :=
      OrdMap.mem_keys_iff.mp ((Theme.mem_keys_resolve hres).mpr htarget)
    have hfits := Theme.fits_of_resolve hplain.tokens hres
    obtain ⟨f, rfl, -⟩ := hfits.states target resolved hresolved
    obtain ⟨state, -, hvalue⟩ := get?_values_root hbase hvalues hfits hresolved
    exact ⟨_, hvalue⟩
  · obtain ⟨r, hr, hproject⟩ := (values_eq_ok hbase hres hroot).mp hvalues
    have hfits := Theme.fits_of_resolveInside hplain (Place.inside?_mem hq) hr
    rw [Theme.resolveInside_eq, hinside] at hr
    obtain ⟨resolved, hresolved⟩ :=
      OrdMap.mem_keys_iff.mp ((Theme.mem_keys_resolve hr).mpr htarget)
    obtain ⟨f, rfl, htext⟩ := hfits.states target resolved hresolved
    rw [hdefaults] at hproject
    obtain ⟨state, hstate⟩ := Resolution.stateFor_defaults hproject hresolved hfits
    obtain ⟨hvalue, -⟩ := Resolution.get?_project hproject hresolved htext
    rw [hstate, Option.map_some] at hvalue
    exact ⟨_, hvalue⟩

/-! ### The theme's own rule -/

/-- Once made, the theme's own rule stays what it is, and every other rule is placed below it. -/
theorem Steps.below_root (h : b.Steps space done s) {root : RuleId}
    (hroot : b.root? space = some root) :
    root < s.rules.length ∧ s.rule root = b.rule space .root ∧
      ∀ selector p, s.placed.get? selector = some p →
        (p.rule = root ∧ p.path = []) ∨ (p.rule ≠ root ∧ root ∈ p.path) := by
  induction h with
  | root _ =>
      cases hfilled : (b.rule space .root).isEmpty with
      | true => simp [root?, Stylesheet.add_of_isEmpty _ hfilled] at hroot
      | false =>
          rw [root?, Stylesheet.id_add _ hfilled] at hroot
          obtain rfl := Option.some.inj hroot
          refine ⟨?_, ?_, fun selector p hp => .inl ?_⟩
          · rw [Stylesheet.length_rules_add _ hfilled]
            exact Nat.lt_succ_self _
          · rw [Stylesheet.rule_add _ hfilled, if_pos rfl]
          · rw [Stylesheet.get?_placed_add _ hfilled] at hp
            split at hp
            · obtain rfl := Option.some.inj hp
              exact ⟨rfl, rfl⟩
            · cases hp
  | @place done s q path _ _ _ _ ih =>
      obtain ⟨hlt, hrule, hplaced⟩ := ih
      cases hfilled : (b.rule space q).isEmpty with
      | true =>
          rw [Stylesheet.add_of_isEmpty _ hfilled]
          exact ⟨hlt, hrule, hplaced⟩
      | false =>
          refine ⟨?_, ?_, fun selector p hp => ?_⟩
          · rw [Stylesheet.length_rules_add _ hfilled]
            exact Nat.lt_succ_of_lt hlt
          · rw [Stylesheet.rule_add _ hfilled, if_neg (Nat.ne_of_lt hlt), hrule]
          · rw [Stylesheet.get?_placed_add _ hfilled] at hp
            split at hp
            · obtain rfl := Option.some.inj hp
              exact .inr ⟨(Nat.ne_of_lt hlt).symm, by simp [hroot]⟩
            · exact hplaced selector p hp

/-- What the theme's own rule declares is within reach of every rule, also when declarations are
dropped. -/
theorem Steps.reaches_root (h : b.Steps space done s) (hm : s.Shrinks m)
    (hv : (b.rule space .root).declarations.get? property = some v) {selector : String}
    {p : Placed} (hp : m.placed.get? selector = some p) : m.Reaches p property := by
  have hroot : b.root? space = some 0 := Stylesheet.id_add _ (Rule.isEmpty_of_get? hv) []
  obtain ⟨-, hrule, hplaced⟩ := h.below_root hroot
  have hkept : m.rule 0 = b.rule space .root := by
    rw [hm.rule 0 fun selector q hq hzero => ?_, hrule]
    obtain ⟨-, htop⟩ | ⟨hne, -⟩ := hplaced selector q hq
    · exact htop
    · exact absurd hzero hne
  refine ⟨0, ?_, v, by rwa [hkept]⟩
  obtain ⟨hself, -⟩ | ⟨-, hbelow⟩ := hplaced selector p (hm.placed selector p hp)
  · simp [hself]
  · exact List.mem_append_left _ hbelow

/-! ### Rules of a context -/

/-- A rule that belongs to a context is below the theme's own rule and a rule of the context. -/
theorem exists_context (hdistinct : b.theme.DistinctSelectors b.maker.customizer)
    (hq : q.IsOf b.theme) {c : Context} (hc : q.inside? = some c) :
    ∃ on ∈ b.theme.scopings, ∀ a ∈ b.theme.places, b.selector a = b.selector q →
      ∀ selector ∈ [b.selector .root, b.selector (.context c on)],
        selector ∈ a.parents.map b.selector ++ [b.selector a] := by
  have hsame : ∀ a ∈ b.theme.places, ∀ a' ∈ b.theme.places, b.selector a = b.selector a' →
      a = a' := fun a ha a' ha' => List.inj_on_of_nodup_map hdistinct ha ha'
  cases q with
  | root => cases hc
  | state x => cases hc
  | context d on =>
      obtain rfl := Option.some.inj hc
      obtain ⟨on', hon', hselector⟩ := Place.exists_scoping hdistinct hq on
      refine ⟨on', hon', fun a ha haq => ?_⟩
      obtain rfl := hsame a ha (.context d on') (Theme.context_mem_places.mpr ⟨hq, hon'⟩)
        (haq.trans hselector.symm)
      simp [Place.parents]
  | contextState x d on =>
      obtain rfl := Option.some.inj hc
      obtain ⟨on', hon', hselector⟩ := Place.exists_scoping hdistinct hq.2 on
      refine ⟨on', hon', fun a ha haq => ?_⟩
      obtain rfl := hsame a ha _ (Theme.contextState_mem_places.mpr hq) haq
      have hselector' : b.selector (.context d on') = b.selector (.context d on) := hselector
      simp [Place.parents, hselector']

/-- What the rules of a context declare is within reach of every rule that belongs to the context,
in a sheet that retains it. -/
theorem Built.reaches_context {root? : Option RuleId} (h : b.Built space root? s b.theme.places)
    (hplan : IsPlan (b.theme.places.map (b.planned space)))
    (hdistinct : b.theme.DistinctSelectors b.maker.customizer)
    (hsub : ∀ selector p, m.placed.get? selector = some p → s.placed.get? selector = some p)
    (hretains : m.Retains (b.theme.places.map (b.planned space)))
    (hq : q.IsOf b.theme) {c : Context} (hc : q.inside? = some c)
    (hdeclared : ∀ on, ∃ w, (b.rule space (.context c on)).declarations.get? property = some w)
    {p : Placed} (hp : m.placed.get? (b.selector q) = some p) : m.Reaches p property := by
  have hplanned : ∀ a ∈ b.theme.places, (b.planned space a).selector = b.selector a :=
    fun a ha => (selector_eq (h.made a ha)).symm
  obtain ⟨on, hon, hbelow⟩ := exists_context hdistinct hq hc
  have hcontext : Place.context c on ∈ b.theme.places :=
    Theme.context_mem_places.mpr ⟨Place.inside?_mem hq c hc, hon⟩
  obtain ⟨w, hw⟩ := hdeclared on
  obtain ⟨selector, hselector, w', hw'⟩ := hretains _ (List.mem_map_of_mem hcontext) property w hw
  rw [hplanned _ hcontext] at hselector
  obtain ⟨e, he, -, hqe⟩ :=
    h.follows.lists.mem_keys_iff.mp (OrdMap.mem_keys_of_get? (hsub _ p hp))
  obtain ⟨a, ha, rfl⟩ := List.mem_map.mp he
  rw [hplanned a ha] at hqe
  refine h.follows.reaches hplan hsub he (by rwa [hplanned a ha, hqe]) ?_ hw'
  rw [hplanned a ha]
  exact hbelow a ha hqe selector hselector

/-! ### Texts -/

theorem textual_rule (hbase : b.base = none)
    (hres : b.theme.resolve none b.options = .ok b.resolution) (hplain : b.theme.IsPlain)
    (hq : q.IsOf b.theme) (hmade : b.makeRule space q = .ok (b.rule space q)) (hne : q ≠ .root) :
    (b.rule space q).declarations.Textual := by
  obtain ⟨values, hvalues, hmake⟩ := Outcome.bind_eq_ok.mp hmade
  obtain ⟨r, hr, hproject⟩ := (values_eq_ok hbase hres hne).mp hvalues
  have hfits := Theme.fits_of_resolveInside hplain (Place.inside?_mem hq) hr
  intro property v hv
  obtain ⟨token, -, hvalue⟩ := RuleMaker.exists_token_of_make hmake hv
  exact Resolution.textual_project hfits hproject hvalue

/-- What is placed below other rules is not the theme's own rule. -/
theorem Steps.exists_below (h : b.Steps space done s) : ∀ selector p,
    s.placed.get? selector = some p → p.path ≠ [] →
      ∃ q ∈ done, q ≠ .root ∧ s.rule p.rule = b.rule space q := by
  induction h with
  | root _ =>
      intro selector p hp hpath
      cases hfilled : (b.rule space .root).isEmpty with
      | true =>
          rw [Stylesheet.add_of_isEmpty _ hfilled] at hp
          cases hp
      | false =>
          rw [Stylesheet.get?_placed_add _ hfilled] at hp
          split at hp
          · obtain rfl := Option.some.inj hp
            exact absurd rfl hpath
          · cases hp
  | @place done s q path hsteps _ hne _ ih =>
      intro selector p hp hpath
      have hearlier : s.placed.get? selector = some p →
          ∃ q' ∈ done ++ [q], q' ≠ .root ∧ s.rule p.rule = b.rule space q' := by
        intro hp
        obtain ⟨q', hq', hrest⟩ := ih selector p hp hpath
        exact ⟨q', List.mem_append_left _ hq', hrest⟩
      cases hfilled : (b.rule space q).isEmpty with
      | true =>
          rw [Stylesheet.add_of_isEmpty _ hfilled] at hp ⊢
          exact hearlier hp
      | false =>
          rw [Stylesheet.get?_placed_add _ hfilled] at hp
          rw [Stylesheet.rule_add _ hfilled]
          split at hp
          · obtain rfl := Option.some.inj hp
            exact ⟨q, by simp, hne, if_pos rfl⟩
          · rw [if_neg (Nat.ne_of_lt (hsteps.sound.known selector p hp))]
            exact hearlier hp

/-! ### All rules -/

/-- In a built sheet, or what is left of it, no reference to a token to be declared dangles. -/
theorem Steps.defines (h : b.Steps space b.theme.allPlaces s) (hm : s.Shrinks m)
    (hbase : b.base = none) (hoptions : b.options = .writing properties)
    (hregistry : b.maker.registry = ⟨properties, some used⟩)
    (hres : b.theme.resolve none b.options = .ok b.resolution) (hplain : b.theme.IsPlain)
    (hused : target ∈ used)
    (hcontext : target ∉ b.theme.tokens.keys → ∀ q c selector p property,
      q.IsOf b.theme → q.inside? = some c → b.selector q = selector →
      m.placed.get? selector = some p →
      (∀ on, ∃ w, (b.rule space (.context c on)).declarations.get? property = some w) →
        m.Reaches p property) :
    b.Defines space m target := by
  rintro selector p q token property v hp hlast - -
    ⟨inside, state, trace, hinside, -, hwalk, rfl, hahead⟩
  obtain ⟨name, hname, hvalue, hfound⟩ := Scope.writes_of_ahead? hwalk hahead
  rw [hoptions, ResolveOptions.property?_writing] at hname
  refine ⟨name, by rw [hregistry, hname], hvalue, ?_⟩
  obtain ⟨hq, hselector, -⟩ := last?_eq_some hlast
  have hplace := Theme.mem_allPlaces.mp hq
  by_cases hown : target ∈ b.theme.tokens.keys
  · have hroot : Place.root.IsOf b.theme := trivial
    obtain ⟨w, hw⟩ := exists_declared_default hbase hres hplain hregistry hroot
      (h.made _ (Theme.mem_allPlaces.mpr hroot)) rfl rfl hown hused hname
    exact h.reaches_root hm hw hp
  · have htarget : target ∈ inside.tokens.keys := by
      simpa [Scope.names, Theme.scope] using
        Scope.mem_names_of_find? (Option.isSome_iff_exists.mp hfound).choose_spec
    cases hc : q.inside? with
    | none =>
        rw [hc] at hinside
        obtain rfl := Except.ok.inj hinside
        exact absurd htarget hown
    | some c =>
        refine hcontext hown q c selector p name hplace hc hselector hp fun on => ?_
        rw [hc] at hinside
        have hcontext : (Place.context c on).IsOf b.theme := Place.inside?_mem hplace c hc
        exact exists_declared_default hbase hres hplain hregistry hcontext
          (h.made _ (Theme.mem_allPlaces.mpr hcontext)) rfl hinside htarget hused hname

end SingleBuild

variable {customizer : Customizer} {properties : OrdMap Value} {used : List String} {t : Theme}
  {s : Stylesheet}

/-- No reference to a token to be declared dangles, before and after inherited declarations are
dropped, if the theme assigns the token itself or its rules have distinct selectors. -/
theorem buildSingle_defines (hplain : t.IsPlain)
    (h : buildSingle space ⟨customizer, ⟨properties, some used⟩⟩ t none (.writing properties) =
      .ok s) :
    ∃ resolution m, t.resolve none (.writing properties) = .ok resolution ∧ s.minimal = .ok m ∧
      ∀ target ∈ used, target ∈ t.tokens.keys ∨ t.DistinctSelectors customizer →
        SingleBuild.Defines space ⟨⟨customizer, ⟨properties, some used⟩⟩, t, none,
          .writing properties, resolution⟩ s target ∧
        SingleBuild.Defines space ⟨⟨customizer, ⟨properties, some used⟩⟩, t, none,
          .writing properties, resolution⟩ m target := by
  obtain ⟨resolution, hres, hsteps⟩ := exists_steps_of_buildSingle h
  let b : SingleBuild := ⟨⟨customizer, ⟨properties, some used⟩⟩, t, none, .writing properties,
    resolution⟩
  have htextual : ∀ q : Place, q.IsOf t → q ≠ .root → (b.rule space q).declarations.Textual :=
    fun q hq hne => SingleBuild.textual_rule rfl hres hplain hq
      (hsteps.made q (Theme.mem_allPlaces.mpr hq)) hne
  have hminimal : ∃ m, s.minimal = .ok m ∧ s.Shrinks m := by
    refine hsteps.sound.exists_minimal fun p hp hpath => ?_
    obtain ⟨selector, hget⟩ := OrdMap.mem_values_iff.mp hp
    obtain ⟨q, hq, hne, hrule⟩ := hsteps.exists_below selector p hget hpath
    rw [hrule]
    exact htextual q (Theme.mem_allPlaces.mp hq) hne
  obtain ⟨m, hm, hshrinks⟩ := hminimal
  refine ⟨resolution, m, hres, hm, fun target hused hcase => ?_⟩
  -- where the theme does not assign the token its sheet follows a plan
  have hplanned : target ∉ t.tokens.keys → t.DistinctSelectors customizer ∧
      ∃ root?, b.Built space root? s t.places ∧ IsPlan (t.places.map (b.planned space)) := by
    intro hown
    have hdistinct := hcase.resolve_left hown
    obtain ⟨resolution', root?, hres', hbuilt⟩ := built_of_buildSingle hdistinct h
    obtain rfl := Except.ok.inj (hres.symm.trans hres')
    exact ⟨hdistinct, root?, hbuilt, hbuilt.isPlan hdistinct fun q hq =>
      htextual q (Place.isOf_of_mem hq)⟩
  have hdefines : ∀ u, s.Shrinks u → (∀ root?, b.Built space root? s t.places →
      IsPlan (t.places.map (b.planned space)) → u.Retains (t.places.map (b.planned space))) →
        b.Defines space u target := by
    intro u hu hretains
    refine hsteps.defines hu rfl rfl rfl hres hplain hused
      fun hown q c selector p property hq hc hselector hp hdeclared => ?_
    obtain ⟨hdistinct, root?, hbuilt, hplan⟩ := hplanned hown
    exact hbuilt.reaches_context hplan hdistinct hu.placed (hretains root? hbuilt hplan) hq hc
      hdeclared (hselector ▸ hp)
  constructor
  · exact hdefines s (.refl s) fun _ hbuilt hplan => hbuilt.follows.retains hplan
  · refine hdefines m hshrinks fun _ hbuilt hplan => ?_
    obtain ⟨m', hm', hmin⟩ := (hbuilt.follows.grounded hplan).exists_minimal
    obtain rfl := Except.ok.inj (hm.symm.trans hm')
    exact hbuilt.follows.retains_minimal hplan hmin

/-! ### A reference that dangles -/

/-- A theme whose lines have the colour of its ink. -/
def note : Theme where
  id := "note"
  selector := ".t"
  tokens := .ofList [("line", .text "\x7bink\x7d"), ("ink", .text "black")]

def noteProperties : OrdMap Value := .ofList [("line", "--line"), ("ink", "--ink")]

/-- Rules that declare the given tokens of the note. -/
def noteMaker (used : List String) : RuleMaker where
  customizer := fun selector => selector
  registry := ⟨noteProperties, some used⟩

/-- With both tokens declared, the line refers to the ink. -/
def noteSheet : Stylesheet where
  rules := [
    { selector := ".t", declarations := .ofList [("--line", "var(--ink)"), ("--ink", "black")] }]
  placed := .ofList [(".t", ⟨0, []⟩)]

/-- With the line alone declared, it refers to the ink all the same. -/
def bareSheet : Stylesheet where
  rules := [{ selector := ".t", declarations := .ofList [("--line", "var(--ink)")] }]
  placed := .ofList [(".t", ⟨0, []⟩)]

theorem buildSingle_defines_note :
    note.IsPlain ∧
      buildSingle Cam16.space (noteMaker ["line", "ink"]) note none (.writing noteProperties) =
        .ok noteSheet ∧
      ∃ resolution m, note.resolve none (.writing noteProperties) = .ok resolution ∧
        noteSheet.minimal = .ok m ∧
        ∀ target ∈ ["line", "ink"],
          target ∈ note.tokens.keys ∨ note.DistinctSelectors (noteMaker []).customizer →
          SingleBuild.Defines Cam16.space ⟨noteMaker ["line", "ink"], note, none,
            .writing noteProperties, resolution⟩ noteSheet target ∧
          SingleBuild.Defines Cam16.space ⟨noteMaker ["line", "ink"], note, none,
            .writing noteProperties, resolution⟩ m target := by
  have hplain : note.IsPlain :=
    ⟨PlainTokens.of_entries (List.forall_mem_cons.mpr
      ⟨trivial, List.forall_mem_singleton.mpr trivial⟩),
      by simp [note, OrdMap.values, OrdMap.empty]⟩
  have hbuild : buildSingle Cam16.space (noteMaker ["line", "ink"]) note none
      (.writing noteProperties) = .ok noteSheet := rfl
  exact ⟨hplain, hbuild, buildSingle_defines hplain hbuild⟩

/-- The reference to a token that is not declared dangles. -/
theorem note_dangles :
    ∃ resolution,
      note.resolve none (.writing noteProperties) = .ok resolution ∧
      buildSingle Cam16.space (noteMaker ["line"]) note none (.writing noteProperties) =
        .ok bareSheet ∧
      bareSheet.minimal = .ok bareSheet ∧
      bareSheet.placed.get? ".t" = some ⟨0, []⟩ ∧
      (bareSheet.rule 0).declarations.get? "--line" = some "var(--ink)" ∧
      SingleBuild.Writes ⟨noteMaker ["line"], note, none, .writing noteProperties, resolution⟩
        .root "line" "ink" "var(--ink)" ∧
      ¬ bareSheet.Reaches ⟨0, []⟩ "--ink" := by
  refine ⟨.ofList [("line", .single "var(--ink)"), ("ink", .single "black")], rfl, rfl,
    rfl, rfl, rfl, ?_, ?_⟩
  · exact ⟨note, none, ⟨"var(--ink)", ["line"]⟩, rfl, rfl, rfl, rfl, rfl⟩
  · rintro ⟨id, hid, v, hv⟩
    obtain rfl := List.mem_singleton.mp hid
    have hnone : (bareSheet.rule 0).declarations.get? "--ink" = none := rfl
    rw [hnone] at hv
    cases hv

/-! ### Rules that take the place of others -/

/-- A mode without optional states. -/
def tone : Mode where
  id := "tone"
  states := .ofList [("plain", .fallback true)]
  id_truthy := rfl

/-- A context whose lines have the colour of its ink. -/
def front : Context where
  id := "front"
  selector := ".c"
  tokens := .ofList [("ink", .states (.ofList [("plain", "black")])),
    ("line", .states (.ofList [("light", "\x7bink\x7d"), ("dark", "\x7bink\x7d")]))]

/-- A context with the same selector. -/
def back : Context where
  id := "back"
  selector := ".c"
  tokens := .ofList [("size", .states (.ofList [("plain", "2")]))]

/-- A theme that assigns all its tokens in contexts. -/
def badge : Theme where
  id := "badge"
  selector := ".t"
  modes := .ofList [("lighting", lighting), ("tone", tone)]
  bindings := .ofList [("line", "lighting"), ("ink", "tone"), ("size", "tone")]
  contexts := .ofList [("front", front), ("back", back)]

def badgeProperties : OrdMap Value :=
  .ofList [("line", "--line"), ("ink", "--ink"), ("size", "--size")]

def badgeMaker : RuleMaker where
  customizer := fun selector => selector
  registry := ⟨badgeProperties, some ["line", "ink", "size"]⟩

/-- The rules for the back have taken the places of those that declare the ink. -/
def badgeSheet : Stylesheet where
  rules := [
    { selector := ".t .c", declarations := .ofList [("--ink", "black"), ("--line", "var(--ink)")] },
    { selector := ".c.t", declarations := .ofList [("--ink", "black"), ("--line", "var(--ink)")] },
    { selector := ".t .c", declarations := .ofList [("--size", "2")] },
    { selector := ".c.t", declarations := .ofList [("--size", "2")] },
    { selector := ".d.t .c", declarations := .ofList [("--line", "var(--ink)")] },
    { selector := ".c.d.t", declarations := .ofList [("--line", "var(--ink)")] }]
  placed := .ofList [(".t .c", ⟨2, []⟩), (".c.t", ⟨3, []⟩), (".d.t .c", ⟨4, [2]⟩),
    (".c.d.t", ⟨5, [3]⟩)]

/-- Where rules share a selector and the theme does not assign the token, the reference to a token
to be declared may dangle: in the dark the front still refers to its ink. -/
theorem badge_dangles :
    badge.resolve none (.writing badgeProperties) = .ok .empty ∧
      buildSingle Cam16.space badgeMaker badge none (.writing badgeProperties) = .ok badgeSheet ∧
      badgeSheet.placed.get? ".d.t .c" = some ⟨4, [2]⟩ ∧
      (badgeSheet.rule 4).declarations.get? "--line" = some "var(--ink)" ∧
      SingleBuild.Writes ⟨badgeMaker, badge, none, .writing badgeProperties, .empty⟩
        (.contextState dark front false) "line" "ink" "var(--ink)" ∧
      ¬ badgeSheet.Reaches ⟨4, [2]⟩ "--ink" := by
  refine ⟨rfl, rfl, rfl, rfl, ?_, ?_⟩
  · exact ⟨{ badge with tokens := front.tokens }, some "dark", ⟨"var(--ink)", ["line"]⟩, rfl,
      rfl, rfl, rfl, rfl⟩
  · have hfront : (badgeSheet.rule 4).declarations.get? "--ink" = none := rfl
    have hback : (badgeSheet.rule 2).declarations.get? "--ink" = none := rfl
    rintro ⟨id, hid, v, hv⟩
    rcases List.mem_pair.mp hid with rfl | rfl
    · rw [hback] at hv
      cases hv
    · rw [hfront] at hv
      cases hv

end DesignTokens
