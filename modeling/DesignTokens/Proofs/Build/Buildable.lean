import DesignTokens.Palette.Cam16
import DesignTokens.Proofs.Build.Minimal
import DesignTokens.Proofs.Build.Steps

/-!
Which themes are built. A theme that resolves by itself and in its contexts is built if its modes
have default states, what its selectors are made of are texts, what is to be declared has properties
and its palettes, if they are to be declared, can be generated.
-/

namespace DesignTokens

namespace Theme

variable {t : Theme} {x : OptionalState} {mode : Mode}

/-- Modes are stored under their ids. -/
def ModesUnderIds (t : Theme) : Prop :=
  ∀ key mode, t.modes.get? key = some mode → mode.id = .text key

/-! ### States of a mode -/

theorem mem_optionalStates_mode (hx : x ∈ mode.optionalStates) :
    x.mode = mode ∧ x.name ∈ mode.states.keys := by
  simp only [Mode.optionalStates, List.mem_filterMap] at hx
  obtain ⟨⟨name, state⟩, hmem, hx⟩ := hx
  cases state with
  | fallback b => cases hx
  | optional selector media =>
      obtain rfl := Option.some.inj hx
      exact ⟨rfl, List.mem_map_of_mem hmem⟩

theorem mem_optionalStates : x ∈ t.optionalStates ↔
    ∃ key, t.modes.get? key = some x.mode ∧ x ∈ x.mode.optionalStates := by
  simp only [optionalStates, List.mem_flatMap, OrdMap.mem_values_iff]
  constructor
  · rintro ⟨mode, ⟨key, hkey⟩, hx⟩
    obtain ⟨rfl, -⟩ := mem_optionalStates_mode hx
    exact ⟨key, hkey, hx⟩
  · rintro ⟨key, hkey, hx⟩
    exact ⟨x.mode, ⟨key, hkey⟩, hx⟩

theorem get?_modes_of_modeOf {token : String} (h : t.modeOf token = some mode) :
    ∃ key, t.modes.get? key = some mode := by
  simp only [modeOf, Option.bind_eq_bind, Option.bind_eq_some_iff] at h
  obtain ⟨id, -, key, -, hkey⟩ := h
  exact ⟨key, hkey⟩

/-- A state belongs to the mode of a token if the ids of the modes agree. -/
theorem same_id_iff (hids : t.ModesUnderIds) (hx : x ∈ t.optionalStates) {token : String}
    (hmode : t.modeOf token = some mode) : mode.id.same x.mode.id = true ↔ x.mode = mode := by
  obtain ⟨key, hkey, -⟩ := mem_optionalStates.mp hx
  obtain ⟨key', hkey'⟩ := get?_modes_of_modeOf hmode
  rw [hids key' mode hkey', hids key x.mode hkey, Value.same_text, beq_iff_eq]
  constructor
  · rintro rfl
    exact Option.some.inj (hkey.symm.trans hkey')
  · rintro rfl
    exact Value.text.inj ((hids key' x.mode hkey').symm.trans (hids key x.mode hkey))

theorem stateFor_state (hids : t.ModesUnderIds) (hx : x ∈ t.optionalStates) {token : String}
    (hmode : t.modeOf token = some mode) :
    (x.projection.stateFor (t.modeOf token) = some (some x.name) ∧ x.mode = mode) ∨
      (x.projection.stateFor (t.modeOf token) = none ∧ x.mode ≠ mode) := by
  rw [hmode]
  simp only [OptionalState.projection, Projection.stateFor]
  by_cases hsame : x.mode = mode
  · exact .inl ⟨if_pos ((same_id_iff hids hx hmode).mpr hsame), hsame⟩
  · exact .inr ⟨if_neg fun h => hsame ((same_id_iff hids hx hmode).mp h), hsame⟩

end Theme

/-! ### Projections that succeed -/

theorem Mode.defaultState?_mem {mode : Mode} {state : String}
    (h : mode.defaultState? = some state) :
    state ∈ mode.states.keys := by
  obtain ⟨e, he, rfl⟩ := Option.map_eq_some_iff.mp h
  exact List.mem_map_of_mem (List.mem_of_find?_eq_some he)

theorem Projection.stateFor_defaults_mem {mode? : Option Mode} {state : Option String}
    (h : Projection.defaults.stateFor mode? = some state) : state ∈ statesOf mode? := by
  cases mode? with
  | none =>
      obtain rfl := Option.some.inj h
      simp [statesOf]
  | some mode =>
      obtain ⟨name, hname, rfl⟩ := Option.map_eq_some_iff.mp h
      exact mem_statesOf_some.mpr (Mode.defaultState?_mem hname)

/-- The state that is picked is one of the mode. -/
def Projection.Picks (mode : Mode) : Projection → Prop
  | defaults => ∃ state, mode.defaultState? = some state
  | state id chosen => mode.id.same id = true → chosen ∈ mode.states.keys

theorem Projection.pick_ofStates_ok {mode : Mode} {f : Option String → Value} {state : String}
    (hstate : state ∈ mode.states.keys) :
    pick (.ofStates (some mode) f) state = .ok (f (some state)) := by
  obtain ⟨a, ha⟩ := OrdMap.mem_keys_iff.mp hstate
  simp [pick, Resolved.ofStates, OrdMap.get?_mapWith, ha]

theorem Projection.exists_apply {p : Projection} {mode? : Option Mode}
    {f : Option String → Value} {token : String} (hpick : ∀ mode ∈ mode?, p.Picks mode)
    (htext : ∀ state ∈ statesOf mode?, ∃ text, f state = .text text) :
    ∃ picked, p.apply mode? token (.ofStates mode? f) = .ok picked := by
  cases mode? with
  | none =>
      obtain ⟨text, hf⟩ := htext none (by simp [statesOf])
      exact ⟨some (.text text), by simp [apply, Resolved.ofStates, hf]⟩
  | some mode =>
      have hpick := hpick mode rfl
      cases p with
      | defaults =>
          obtain ⟨state, hstate⟩ := hpick
          have hok := pick_ofStates_ok (f := f) (Mode.defaultState?_mem hstate)
          refine ⟨some (f (some state)), ?_⟩
          simp only [apply, Resolved.ofStates, Outcome.bind_eq_ok] at hok ⊢
          exact ⟨state, Mode.defaultState_eq_ok.mpr hstate, f (some state), hok, rfl⟩
      | state id chosen =>
          simp only [apply, Resolved.ofStates]
          split
          · next hid =>
              exact ⟨_, Outcome.map_eq_ok.mpr ⟨_, pick_ofStates_ok (hpick hid), rfl⟩⟩
          · exact ⟨none, rfl⟩

theorem Resolution.exists_project {r : Resolution} {t : Theme} {p : Projection}
    (hfits : r.Fits t)
    (hpick : ∀ token ∈ r.keys, ∀ mode, t.modeOf token = some mode → p.Picks mode) :
    ∃ values, r.project t p = .ok values := by
  refine OrdMap.exists_filterMapM fun token resolved hget => ?_
  obtain ⟨f, rfl, htext⟩ := hfits.states token resolved hget
  obtain ⟨picked, hpicked⟩ : ∃ picked,
      p.apply (t.modeOf token) token (.ofStates (t.modeOf token) f) = .ok picked :=
    Projection.exists_apply (hpick token (OrdMap.mem_keys_of_get? hget)) htext
  have hmode := hfits.mode token (OrdMap.mem_keys_of_get? hget)
  exact ⟨_, Outcome.bind_eq_ok.mpr ⟨t.modeOf token, hmode,
    Outcome.bind_eq_ok.mpr ⟨picked, hpicked, rfl⟩⟩⟩

/-! ### Rules that are made -/

theorem Selector.exists_fragmentTexts {fragments : List Value}
    (h : ∀ v ∈ fragments, ∃ text, v = .text text) :
    ∃ texts, fragmentTexts fragments = .ok texts := by
  refine ⟨_, Outcome.mapM_eq_ok.mpr ⟨fun v => (v.text?).getD "", ?_, rfl⟩⟩
  intro v hv
  obtain ⟨text, rfl⟩ := h v hv
  rfl

theorem Selector.exists_selector {fragments : Fragments}
    (houter : ∀ v ∈ fragments.outer, ∃ text, v = .text text)
    (hinner : ∀ v ∈ fragments.inner, ∃ text, v = .text text) (customizer : Customizer) :
    ∃ text, fragments.selector customizer = .ok text := by
  obtain ⟨outer, houter⟩ := exists_fragmentTexts houter
  obtain ⟨inner, hinner⟩ := exists_fragmentTexts hinner
  exact ⟨_, Outcome.bind_eq_ok.mpr ⟨outer, houter, Outcome.bind_eq_ok.mpr ⟨inner, hinner, rfl⟩⟩⟩

/-- The places of a theme have selectors if it is made of texts. -/
theorem Place.exists_selector {t : Theme} (htheme : ∃ text, t.selector = .text text)
    (hstates : ∀ x ∈ t.optionalStates, ∃ text, x.selector = .text text)
    (hcontexts : ∀ c ∈ t.contexts.values, ∃ text, c.selector = .text text) {q : Place}
    (hq : q.IsOf t) (customizer : Customizer) :
    ∃ text, (q.fragments t).selector customizer = .ok text := by
  obtain ⟨theme, htheme⟩ := htheme
  cases q with
  | root =>
      exact Selector.exists_selector (by simp [htheme, fragments]) (by simp [fragments]) _
  | state x =>
      obtain ⟨state, hstate⟩ := hstates x hq
      exact Selector.exists_selector (by simp [htheme, hstate, fragments]) (by simp [fragments]) _
  | context c on =>
      obtain ⟨context, hcontext⟩ := hcontexts c hq
      cases on <;> exact Selector.exists_selector (by simp [htheme, hcontext, fragments])
        (by simp [hcontext, fragments]) _
  | contextState x c on =>
      obtain ⟨state, hstate⟩ := hstates x hq.1
      obtain ⟨context, hcontext⟩ := hcontexts c hq.2
      cases on <;> exact Selector.exists_selector
        (by simp [htheme, hstate, hcontext, fragments]) (by simp [hcontext, fragments]) _

theorem RuleMaker.exists_make {maker : RuleMaker} {fragments : Selector.Fragments} {media : Value}
    {values : Projected} (hselector : ∃ text, fragments.selector maker.customizer = .ok text)
    (hproperty : ∀ token ∈ values.keys,
      ∃ property?, maker.registry.property? token = .ok property?) :
    ∃ r, maker.make fragments media values = .ok r := by
  obtain ⟨text, htext⟩ := hselector
  simp only [make, Outcome.bind_eq_ok, htext, Except.ok.injEq, exists_eq_left']
  refine Outcome.exists_foldlM_of_forall _ fun e he r => ?_
  obtain ⟨property?, hproperty⟩ := hproperty e.1 (List.mem_map_of_mem he)
  cases property? with
  | none => exact ⟨r, Outcome.bind_eq_ok.mpr ⟨none, hproperty, rfl⟩⟩
  | some name => exact ⟨_, Outcome.bind_eq_ok.mpr ⟨some name, hproperty, rfl⟩⟩

variable {N : Type} [Add N] [Sub N] [Mul N] [Div N] [LE N] [LT N] [DecidableLE N] [DecidableLT N]
  [OfScientific N] {space : ColorSpace N}

/-! ### Themes that are built -/

/-- The tokens that a theme may declare: its own, those of its contexts and, where they are
declared, those of its palettes. -/
def Theme.Declares (space : ColorSpace N) (t : Theme) (options : ResolveOptions) (token : String) :
    Prop :=
  token ∈ t.tokens.keys ∨ (∃ c ∈ t.contexts.values, token ∈ c.tokens.keys) ∨
    ∃ palettes, t.withPaletteValues space options .empty = .ok palettes ∧ token ∈ palettes.keys

/-- What the build of a theme without base relies on. -/
structure Theme.Buildable (space : ColorSpace N) (maker : RuleMaker) (t : Theme)
    (options : ResolveOptions) : Prop extends t.Declarable maker where
  ids : t.ModesUnderIds
  defaults : ∀ mode ∈ t.modes.values, ∃ state, mode.defaultState? = some state
  selector : ∃ text, t.selector = .text text
  stateSelectors : ∀ x ∈ t.optionalStates, ∃ text, x.selector = .text text
  contextSelectors : ∀ c ∈ t.contexts.values, ∃ text, c.selector = .text text
  resolved : ∃ r, t.resolve none options = .ok r
  resolvedIn : ∀ c ∈ t.contexts.values, ∃ r, t.resolveIn c none none options = .ok r
  palettes : ∃ palettes, t.withPaletteValues space options .empty = .ok palettes
  properties : ∀ token, t.Declares space options token →
    ∃ property?, maker.registry.property? token = .ok property?

/-- Palettes that can be declared by themselves can be added to other values. -/
theorem Theme.exists_withPaletteValues {t : Theme} {options : ResolveOptions} {palettes : Projected}
    (h : t.withPaletteValues space options .empty = .ok palettes) (values : Projected) :
    ∃ all, t.withPaletteValues space options values = .ok all ∧
      ∀ token ∈ all.keys, token ∈ values.keys ∨ token ∈ palettes.keys := by
  unfold withPaletteValues at h ⊢
  split at h
  · next hvars =>
      obtain ⟨generated, hgenerated, h⟩ := Outcome.bind_eq_ok.mp h
      obtain rfl := Outcome.pure_eq_ok.mp h
      rw [if_pos hvars]
      refine ⟨_, Outcome.bind_eq_ok.mpr ⟨generated, hgenerated, rfl⟩, fun token htoken => ?_⟩
      obtain hown | hpalette := (OrdMap.mem_keys_foldl_insertNew _).mp htoken
      · exact .inl hown
      · exact .inr ((OrdMap.mem_keys_foldl_insertNew _).mpr (.inr hpalette))
  · next hvars =>
      rw [if_neg hvars]
      exact ⟨values, rfl, fun token htoken => .inl htoken⟩

namespace Theme.Buildable

variable {t : Theme} {maker : RuleMaker} {options : ResolveOptions} {r : Resolution}

theorem exists_default (h : t.Buildable space maker options) (token : String) :
    ∃ state, Projection.defaults.stateFor (t.modeOf token) = some state := by
  cases hmode : t.modeOf token with
  | none => exact ⟨none, rfl⟩
  | some mode =>
      obtain ⟨key, hkey⟩ := get?_modes_of_modeOf hmode
      obtain ⟨state, hstate⟩ := h.defaults mode (OrdMap.mem_values_iff.mpr ⟨key, hkey⟩)
      exact ⟨some state, Option.map_eq_some_iff.mpr ⟨state, hstate, rfl⟩⟩

/-- By itself and in each context a theme resolves, to texts of tokens that it may declare. -/
theorem exists_resolveInside (h : t.Buildable space maker options) {inside : Option Context}
    (hinside : ∀ c ∈ inside, c ∈ t.contexts.values) :
    ∃ r, t.resolveInside options inside = .ok r ∧ r.Fits t ∧
      ∀ token ∈ r.keys, t.Declares space options token := by
  cases inside with
  | none =>
      obtain ⟨r, hr⟩ := h.resolved
      exact ⟨r, hr, fits_of_resolve h.plain.tokens hr, fun token htoken =>
        .inl ((mem_keys_resolve hr).mp htoken)⟩
  | some c =>
      have hc := hinside c rfl
      obtain ⟨r, hr⟩ := h.resolvedIn c hc
      have hfits := fits_of_resolveIn h.plain.tokens (h.plain.contexts c hc) hr
      refine ⟨r, hr, hfits, fun token htoken => ?_⟩
      obtain ⟨inside, hwithin, hresolve⟩ := Outcome.bind_eq_ok.mp hr
      obtain rfl := within_none hwithin
      obtain hown | hcontext := OrdMap.mem_keys_union.mp ((mem_keys_resolve hresolve).mp htoken)
      · exact .inl hown
      · exact .inr (.inl ⟨c, hc, by rwa [OrdMap.keys_mapWith] at hcontext⟩)

theorem exists_selector (h : t.Buildable space maker options) {q : Place} (hq : q.IsOf t) :
    ∃ text, (q.fragments t).selector maker.customizer = .ok text :=
  Place.exists_selector h.selector h.stateSelectors h.contextSelectors hq maker.customizer

/-- The rule of every place can be made. -/
theorem exists_makeRule (h : t.Buildable space maker options)
    (hr : t.resolve none options = .ok r) {q : Place} (hq : q.IsOf t) :
    ∃ rule, SingleBuild.makeRule space ⟨maker, t, none, options, r⟩ q = .ok rule := by
  obtain ⟨rq, hrq, hfits, hdeclares⟩ := h.exists_resolveInside (Place.inside?_mem hq)
  have hpick : ∀ token mode, t.modeOf token = some mode → q.projection.Picks mode := by
    intro token mode hmode
    obtain ⟨key, hkey⟩ := get?_modes_of_modeOf hmode
    have hdefault := h.defaults mode (OrdMap.mem_values_iff.mpr ⟨key, hkey⟩)
    -- modes with one id are one mode, so the state is among those of the token's mode
    have hstate : ∀ x ∈ t.optionalStates, x.projection.Picks mode := by
      intro x hx hsame
      rw [← (same_id_iff h.ids hx hmode).mp hsame]
      obtain ⟨-, -, hxm⟩ := mem_optionalStates.mp hx
      exact (mem_optionalStates_mode hxm).2
    cases q with
    | root => exact hdefault
    | state x => exact hstate x hq
    | context c on => exact hdefault
    | contextState x c on => exact hstate x hq.1
  obtain ⟨values, hvalues⟩ := Resolution.exists_project hfits fun token _ => hpick token
  have hkeys : ∀ token ∈ values.keys, t.Declares space options token :=
    fun token htoken => hdeclares token (Resolution.mem_keys_of_project hvalues htoken)
  suffices hplace : ∃ values, SingleBuild.values space ⟨maker, t, none, options, r⟩ q = .ok values ∧
      ∀ token ∈ values.keys, t.Declares space options token by
    obtain ⟨values, hvalues, hkeys⟩ := hplace
    obtain ⟨rule, hrule⟩ : ∃ rule, maker.make (q.fragments t) q.media values = .ok rule :=
      RuleMaker.exists_make (h.exists_selector hq) fun token htoken =>
        h.properties token (hkeys token htoken)
    exact ⟨rule, Outcome.bind_eq_ok.mpr ⟨values, hvalues, hrule⟩⟩
  by_cases hroot : q = .root
  · obtain rfl := hroot
    obtain rfl := Except.ok.inj (hr.symm.trans hrq)
    obtain ⟨palettes, hpalettes⟩ := h.palettes
    obtain ⟨all, hall, hadded⟩ := exists_withPaletteValues hpalettes values
    refine ⟨all, Outcome.bind_eq_ok.mpr ⟨values, hvalues, hall⟩, fun token htoken => ?_⟩
    obtain hown | hpalette := hadded token htoken
    · exact hkeys token hown
    · exact .inr (.inr ⟨palettes, hpalettes, hpalette⟩)
  · let b : SingleBuild := ⟨maker, t, none, options, r⟩
    have hplace : b.values space q = .ok values :=
      (SingleBuild.values_eq_ok rfl hr hroot).mpr ⟨rq, hrq, hvalues⟩
    exact ⟨values, hplace, hkeys⟩

/-- A theme is built from the rules of its places. -/
theorem exists_buildSingle (h : t.Buildable space maker options) :
    ∃ s, buildSingle space maker t none options = .ok s := by
  obtain ⟨r, hr⟩ := h.resolved
  exact exists_buildSingle_iff.mpr ⟨r, hr, fun _ hq => h.exists_makeRule hr hq⟩

end Theme.Buildable

/-! ### A theme with a mode and a context -/

/-- A mode that is light or, where `.d` applies, dark. -/
def lighting : Mode where
  id := "lighting"
  states := .ofList [("light", .fallback true), ("dark", .optional ".d" .null)]
  id_truthy := rfl

/-- A context with an ink of its own. -/
def card : Context where
  id := "card"
  selector := ".c"
  tokens := .ofList [("ink", .text "navy")]

/-- A theme whose lines have the colour of its ink where it is dark. -/
def panel : Theme where
  id := "panel"
  selector := ".p"
  tokens := .ofList [("ink", .text "black"),
    ("line", .states (.ofList [("light", "gray"), ("dark", "\x7bink\x7d")]))]
  modes := .ofList [("lighting", lighting)]
  bindings := .ofList [("line", "lighting")]
  contexts := .ofList [("card", card)]

/-- Rules for `panel`, without boost. -/
def panelMaker : RuleMaker where
  customizer := fun selector => selector
  registry := { properties := .ofList [("ink", "--ink"), ("line", "--line")] }

/-- The only optional state of `panel`. -/
def dark : OptionalState := ⟨lighting, "dark", ".d", .null⟩

theorem panel_places : panel.places = [.root, .state dark, .context card false,
    .context card true, .contextState dark card false, .contextState dark card true] := rfl

theorem panel_distinct : panel.DistinctSelectors panelMaker.customizer := by
  have hroot : Place.root.selector panelMaker.customizer panel = ".p" := rfl
  have hstate : (Place.state dark).selector panelMaker.customizer panel = ".d.p" := rfl
  have hbelow : (Place.context card false).selector panelMaker.customizer panel =
      ".p .c" := rfl
  have hon : (Place.context card true).selector panelMaker.customizer panel =
      ".c.p" := rfl
  have hdarkBelow : (Place.contextState dark card false).selector panelMaker.customizer panel =
      ".d.p .c" := rfl
  have hdarkOn : (Place.contextState dark card true).selector panelMaker.customizer panel =
      ".c.d.p" := rfl
  rw [Theme.DistinctSelectors, panel_places]
  simp only [List.map_cons, List.map_nil, hroot, hstate, hbelow, hon, hdarkBelow, hdarkOn]
  decide

theorem panel_resolveIn_card : panel.resolveIn card = .ok (.ofList [("ink", .single "navy"),
    ("line", .perState (.ofList [("light", "gray"), ("dark", "navy")]))]) := rfl

theorem panel_buildable : panel.Buildable Cam16.space panelMaker {} where
  plain := by
    have hstates : ∀ e ∈ [("light", Value.text "gray"), ("dark", .text "{ink}")],
        ∃ s, e.2 = .text s := by simp
    refine ⟨PlainTokens.of_entries ?_, fun c hc => ?_⟩
    · exact List.forall_mem_cons.mpr ⟨trivial, List.forall_mem_singleton.mpr hstates⟩
    · obtain rfl := List.mem_singleton.mp hc
      exact PlainTokens.of_entries (List.forall_mem_singleton.mpr trivial)
  ids := by
    intro key mode h
    obtain ⟨rfl, rfl⟩ := Prod.mk.inj (List.mem_singleton.mp (OrdMap.mem_entries_iff.mpr h))
    rfl
  defaults := by
    intro mode hmode
    obtain rfl := List.mem_singleton.mp hmode
    exact ⟨"light", rfl⟩
  selector := ⟨_, rfl⟩
  stateSelectors := by
    intro x hx
    obtain rfl := List.mem_singleton.mp hx
    exact ⟨_, rfl⟩
  contextSelectors := by
    intro c hc
    obtain rfl := List.mem_singleton.mp hc
    exact ⟨_, rfl⟩
  distinct := panel_distinct
  resolved := ⟨.ofList [("ink", .single "black"),
    ("line", .perState (.ofList [("light", "gray"), ("dark", "black")]))], rfl⟩
  resolvedIn := by
    intro c hc
    obtain rfl := List.mem_singleton.mp hc
    exact ⟨_, panel_resolveIn_card⟩
  palettes := ⟨.empty, rfl⟩
  properties := by
    have hdeclared : ∀ token, panel.Declares Cam16.space {} token →
        token = "ink" ∨ token = "line" := by
      rintro token (hown | ⟨c, hc, hcontext⟩ | ⟨generated, hgenerated, hpalette⟩)
      · have hkeys : panel.tokens.keys = ["ink", "line"] := rfl
        simpa [hkeys] using hown
      · obtain rfl := List.mem_singleton.mp hc
        exact .inl (List.mem_singleton.mp hcontext)
      · obtain rfl := Except.ok.inj hgenerated
        cases hpalette
    intro token htoken
    obtain rfl | rfl := hdeclared token htoken
    · exact ⟨_, rfl⟩
    · exact ⟨_, rfl⟩
  injective := Registry.injective_of_nodup (by decide)

end DesignTokens
