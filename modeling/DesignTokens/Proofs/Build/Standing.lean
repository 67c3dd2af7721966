import DesignTokens.Proofs.Build.Buildable
import DesignTokens.Proofs.Stylesheet.Sound

/-!
Which rules stand in a sheet at the end, whatever the selectors are. A selector has one rule there,
and a rule that is added later replaces the one before, also one for another media query. Therefore
of the places with one selector the last that declares something has its rule in the sheet, and the
others have lost theirs.
-/

namespace DesignTokens

/-! ### The last place with a selector -/

variable {N : Type} [Add N] [Sub N] [Mul N] [Div N] [LE N] [LT N] [DecidableLE N] [DecidableLT N]
  [OfScientific N] {space : ColorSpace N}

namespace SingleBuild

variable {b : SingleBuild} {s : Stylesheet} {done : List Place} {q : Place} {selector : String}

/-- Of the places with a selector the last whose rule declares something. -/
def last? (space : ColorSpace N) (b : SingleBuild) (done : List Place) (selector : String) :
    Option Place :=
  (done.filter fun q => b.selector q == selector && !(b.rule space q).isEmpty).getLast?

theorem last?_append (done : List Place) (q : Place) (selector : String) :
    b.last? space (done ++ [q]) selector =
      if b.selector q = selector ∧ (b.rule space q).isEmpty = false then some q
      else b.last? space done selector := by
  rw [last?, List.filter_append, last?]
  by_cases hq : b.selector q = selector ∧ (b.rule space q).isEmpty = false
  · simp [hq.1, hq.2]
  · have hdropped : (b.selector q == selector && !(b.rule space q).isEmpty) = false := by
      simpa using hq
    rw [if_neg hq, List.filter_cons_of_neg (by simp [hdropped]), List.filter_nil, List.append_nil]

theorem last?_eq_some (h : b.last? space done selector = some q) :
    q ∈ done ∧ b.selector q = selector ∧ (b.rule space q).isEmpty = false := by
  simpa using List.mem_filter.mp (List.mem_of_getLast? h)

namespace Steps

theorem sound (h : b.Steps space done s) : s.Sound := by
  induction h with
  | root _ => exact Stylesheet.Sound.start.add _ _
  | place q path _ _ _ _ ih => exact ih.add _ _

/-- At each selector stands the rule of the last place that has it. -/
theorem ruleAt?_eq (h : b.Steps space done s) (selector : String) :
    s.ruleAt? selector = (b.last? space done selector).map (b.rule space) := by
  have hadd : ∀ (s : Stylesheet) (done : List Place) (q : Place), s.Sound →
      b.makeRule space q = .ok (b.rule space q) →
      s.ruleAt? selector = (b.last? space done selector).map (b.rule space) →
      ∀ path, (s.add (b.rule space q) path).1.ruleAt? selector =
        (b.last? space (done ++ [q]) selector).map (b.rule space) := by
    intro s done q hsound hmade hbefore path
    rw [hsound.ruleAt?_add, last?_append, selector_eq hmade]
    split
    · rfl
    · exact hbefore
  induction h with
  | root hmade => exact hadd _ [] _ Stylesheet.Sound.start hmade rfl []
  | place q path hsteps _ _ hmade ih => exact hadd _ _ q hsteps.sound hmade ih _

/-- A sheet has the rules that stand at their selectors, as they were made. -/
theorem mem_listing_iff (h : b.Steps space done s) {r : Rule} : r ∈ s.listing ↔
    ∃ q, b.last? space done r.selector = some q ∧ b.rule space q = r := by
  rw [h.sound.mem_listing_iff, h.ruleAt?_eq, Option.map_eq_some_iff]

end Steps

/-! ### Rules of states -/

variable {x : OptionalState}

/-- A sheet has the rule of an optional state: one with its selector and media query that declares
every token of its mode by what the token stands for in the state. -/
def HasState (b : SingleBuild) (s : Stylesheet) (x : OptionalState) : Prop :=
  ∃ r ∈ s.listing, r.selector = b.selector (.state x) ∧ r.media = x.media ∧
    ∀ token ∈ b.theme.tokens.keys, b.theme.modeOf token = some x.mode → ∃ property values v,
      b.maker.registry.property? token = .ok (some property) ∧
      b.resolution.get? token = some (.perState values) ∧ values.get? x.name = some v ∧
      r.declarations.get? property = some v

/-- Of all places with the selector of a state the last that declares something is in its media
query and declares the tokens of its mode by the same values. -/
def KeepsState (space : ColorSpace N) (b : SingleBuild) (x : OptionalState) : Prop :=
  ∃ q, b.last? space b.theme.allPlaces (b.selector (.state x)) = some q ∧ q.media = x.media ∧
    ∀ token ∈ b.theme.tokens.keys, b.theme.modeOf token = some x.mode →
      ∀ property, b.maker.registry.property? token = .ok (some property) →
        (b.rule space q).declarations.get? property =
          (b.rule space (.state x)).declarations.get? property

/-- The rule made for a state declares the tokens of its mode by what they stand for in it. -/
theorem declared_state (hbase : b.base = none)
    (hres : b.theme.resolve none b.options = .ok b.resolution) (hplain : b.theme.IsPlain)
    (hinj : b.maker.registry.Injective) (hid : ∃ id, x.mode.id = .text id)
    (hx : x ∈ b.theme.optionalStates)
    (hmade : b.makeRule space (.state x) = .ok (b.rule space (.state x)))
    (token property : String) (htoken : token ∈ b.theme.tokens.keys)
    (hmode : b.theme.modeOf token = some x.mode)
    (hproperty : b.maker.registry.property? token = .ok (some property)) :
    ∃ values v, b.resolution.get? token = some (.perState values) ∧
      values.get? x.name = some v ∧
      (b.rule space (.state x)).declarations.get? property = some v := by
  have hfits := Theme.fits_of_resolve hplain.tokens hres
  obtain ⟨resolved, hresolved⟩ :=
    OrdMap.mem_keys_iff.mp ((Theme.mem_keys_resolve hres).mpr htoken)
  obtain ⟨f, rfl, -⟩ := hfits.states token resolved hresolved
  have hdeclared := (get?_declarations hbase hres hinj hmade Place.noConfusion hres hfits
    hproperty).2 f hresolved
  have hstate : (Place.state x).projection.stateFor (some x.mode) = some (some x.name) := by
    obtain ⟨id, hid⟩ := hid
    simp [Place.projection, OptionalState.projection, Projection.stateFor, hid]
  have hvalues : Resolved.ofStates (some x.mode) f =
      .perState (x.mode.states.mapWith fun state _ => f (some state)) := rfl
  rw [hmode, hstate, Option.map_some] at hdeclared
  rw [hmode, hvalues] at hresolved
  obtain ⟨-, -, hxm⟩ := Theme.mem_optionalStates.mp hx
  obtain ⟨state, hname⟩ := OrdMap.mem_keys_iff.mp (Theme.mem_optionalStates_mode hxm).2
  refine ⟨_, f (some x.name), hresolved, ?_, hdeclared⟩
  rw [OrdMap.get?_mapWith, hname, Option.map_some]

end SingleBuild

variable {maker : RuleMaker} {t : Theme} {options : ResolveOptions} {s : Stylesheet}
  {x : OptionalState}

/-- A state has its rule in the sheet just if no place with its selector takes that from it. -/
theorem hasState_iff (hplain : t.IsPlain) (hinj : maker.registry.Injective)
    (htotal : ∀ token ∈ t.tokens.keys, ∃ property,
      maker.registry.property? token = .ok (some property))
    (hid : ∃ id, x.mode.id = .text id) (hx : x ∈ t.optionalStates)
    (h : buildSingle space maker t none options = .ok s) :
    ∃ resolution, t.resolve none options = .ok resolution ∧
      (SingleBuild.HasState ⟨maker, t, none, options, resolution⟩ s x ↔
        SingleBuild.KeepsState space ⟨maker, t, none, options, resolution⟩ x) := by
  obtain ⟨resolution, hres, hsteps⟩ := exists_steps_of_buildSingle h
  refine ⟨resolution, hres, ?_⟩
  let b : SingleBuild := ⟨maker, t, none, options, resolution⟩
  have hown := SingleBuild.declared_state (b := b) rfl hres hplain hinj hid hx
    (hsteps.made _ (Theme.mem_allPlaces.mpr hx))
  constructor
  · rintro ⟨r, hr, hselector, hmedia, hdeclared⟩
    rw [hsteps.mem_listing_iff, hselector] at hr
    obtain ⟨q, hlast, rfl⟩ := hr
    have hmade := hsteps.made q (SingleBuild.last?_eq_some hlast).1
    refine ⟨q, hlast, (SingleBuild.media_eq hmade).trans hmedia, ?_⟩
    intro token htoken hmode property hproperty
    obtain ⟨property', values, v, hproperty', hvalues, hv, hrule⟩ := hdeclared token htoken hmode
    obtain rfl : property' = property :=
      Option.some.inj (Except.ok.inj (hproperty'.symm.trans hproperty))
    obtain ⟨values', v', hvalues', hv', hrule'⟩ := hown _ _ htoken hmode hproperty
    obtain rfl := Resolved.perState.inj (Option.some.inj (hvalues.symm.trans hvalues'))
    obtain rfl := Option.some.inj (hv.symm.trans hv')
    rw [hrule, hrule']
  · rintro ⟨q, hlast, hmedia, hsame⟩
    obtain ⟨hq, hselector, -⟩ := SingleBuild.last?_eq_some hlast
    have hmade := hsteps.made q hq
    have hstands : (b.rule space q).selector = b.selector (.state x) :=
      (SingleBuild.selector_eq hmade).symm.trans hselector
    refine ⟨b.rule space q, ?_, hstands, (SingleBuild.media_eq hmade).symm.trans hmedia, ?_⟩
    · rw [hsteps.mem_listing_iff, hstands]
      exact ⟨q, hlast, rfl⟩
    · intro token htoken hmode
      obtain ⟨property, hproperty⟩ := htotal token htoken
      obtain ⟨values, v, hvalues, hv, hrule⟩ := hown _ _ htoken hmode hproperty
      exact ⟨property, values, v, hproperty, hvalues, hv,
        (hsame token htoken hmode property hproperty).trans hrule⟩

/-- In the panel nothing takes the rule of the dark state. -/
theorem hasState_iff_panel :
    panel.IsPlain ∧ panelMaker.registry.Injective ∧
      (∀ token ∈ panel.tokens.keys, ∃ property,
        panelMaker.registry.property? token = .ok (some property)) ∧
      (∃ id, dark.mode.id = .text id) ∧ dark ∈ panel.optionalStates ∧
      ∃ s resolution, buildSingle Cam16.space panelMaker panel none {} = .ok s ∧
        panel.resolve none {} = .ok resolution ∧
        (SingleBuild.HasState ⟨panelMaker, panel, none, {}, resolution⟩ s dark ↔
          SingleBuild.KeepsState Cam16.space ⟨panelMaker, panel, none, {}, resolution⟩ dark) := by
  have htotal : ∀ token ∈ panel.tokens.keys, ∃ property,
      panelMaker.registry.property? token = .ok (some property) := by
    have hkeys : panel.tokens.keys = ["ink", "line"] := rfl
    rw [hkeys]
    exact List.forall_mem_cons.mpr ⟨⟨"--ink", rfl⟩, List.forall_mem_singleton.mpr ⟨"--line", rfl⟩⟩
  have hdark : dark ∈ panel.optionalStates := List.mem_singleton.mpr rfl
  obtain ⟨s, hs⟩ := panel_buildable.exists_buildSingle
  obtain ⟨resolution, hres, hiff⟩ := hasState_iff panel_buildable.plain panel_buildable.injective
    htotal ⟨"lighting", rfl⟩ hdark hs
  exact ⟨panel_buildable.plain, panel_buildable.injective, htotal, ⟨"lighting", rfl⟩, hdark,
    s, resolution, hs, hres, hiff⟩

/-! ### A state that is lost -/

/-- A mode with two optional states at one selector, in different media. -/
def medium : Mode where
  id := "medium"
  states := .ofList [("any", .fallback true), ("paper", .optional ".d" "print"),
    ("display", .optional ".d" "screen")]
  id_truthy := rfl

/-- A theme with an ink for each medium. -/
def leaflet : Theme where
  id := "leaflet"
  selector := ".t"
  tokens := .ofList
    [("ink", .states (.ofList [("any", "black"), ("paper", "gray"), ("display", "navy")]))]
  modes := .ofList [("medium", medium)]
  bindings := .ofList [("ink", "medium")]

def paper : OptionalState := ⟨medium, "paper", ".d", "print"⟩

def display : OptionalState := ⟨medium, "display", ".d", "screen"⟩

def leafletResolution : Resolution :=
  .ofList [("ink", .perState (.ofList [("any", "black"), ("paper", "gray"), ("display", "navy")]))]

/-- The rule for paper was made, but it is not in the sheet. -/
def leafletSheet : Stylesheet where
  rules := [
    { selector := ".t", declarations := .ofList [("--ink", "black")] },
    { selector := ".d.t", media := "print", declarations := .ofList [("--ink", "gray")] },
    { selector := ".d.t", media := "screen", declarations := .ofList [("--ink", "navy")] }]
  placed := .ofList [(".t", ⟨0, []⟩), (".d.t", ⟨2, [0]⟩)]

/-- The rule for the display takes the place of the rule for paper. -/
theorem leaflet_loses_paper :
    leaflet.optionalStates = [paper, display] ∧ paper.media ≠ display.media ∧
      (∀ x ∈ leaflet.optionalStates, x.selector ≠ leaflet.selector ∧
        ∀ c ∈ leaflet.contexts.values, x.selector ≠ c.selector) ∧
      panelMaker.registry.Injective ∧
      (∀ token ∈ leaflet.tokens.keys, ∃ property,
        panelMaker.registry.property? token = .ok (some property)) ∧
      leaflet.modeOf "ink" = some paper.mode ∧
      leaflet.resolve none {} = .ok leafletResolution ∧
      buildSingle Cam16.space panelMaker leaflet none {} = .ok leafletSheet ∧
      ¬ SingleBuild.HasState ⟨panelMaker, leaflet, none, {}, leafletResolution⟩ leafletSheet
        paper := by
  have hstates : leaflet.optionalStates = [paper, display] := rfl
  have hmedia : paper.media ≠ display.media := by simp [paper, display]
  have hselectors : ∀ x ∈ leaflet.optionalStates, x.selector ≠ leaflet.selector ∧
      ∀ c ∈ leaflet.contexts.values, x.selector ≠ c.selector := by
    have hcontexts : leaflet.contexts.values = [] := rfl
    rw [hstates, hcontexts]
    simp [paper, display, leaflet]
  have htotal : ∀ token ∈ leaflet.tokens.keys, ∃ property,
      panelMaker.registry.property? token = .ok (some property) :=
    List.forall_mem_singleton.mpr ⟨"--ink", rfl⟩
  refine ⟨hstates, hmedia, hselectors, Registry.injective_of_nodup (by decide), htotal, rfl,
    rfl, rfl, ?_⟩
  rintro ⟨r, hr, -, hprint, -⟩
  have hlisting : leafletSheet.listing.map Rule.media = [.null, .text "screen"] := rfl
  have hmem : r.media ∈ leafletSheet.listing.map Rule.media := List.mem_map_of_mem hr
  rw [hlisting, hprint] at hmem
  simp [paper] at hmem

end DesignTokens
