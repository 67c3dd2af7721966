import DesignTokens.Build.Css
import DesignTokens.Proofs.Build.Failing
import DesignTokens.Proofs.Override.Minimal
import DesignTokens.Proofs.Stylesheet.Sound

/-!
Overrides that change nothing. Where the theme after an override resolves as the base does, nothing
of the override is left in the minimal theme. On top of the base, such a theme leaves every walk as
it was and meets none, so nothing is declared at any of its places, also inside contexts of the
base, which are rebaselined only for tokens that changed.
-/

namespace DesignTokens

/-! ### What did not change -/

/-- Texts do not differ from themselves. -/
theorem Resolved.difference?_self {mode? : Option Mode} {f : Option String → Value}
    (htext : ∀ state ∈ statesOf mode?, ∃ text, f state = .text text) :
    (ofStates mode? f).difference? (ofStates mode? f) = none := by
  cases mode? with
  | none =>
      obtain ⟨text, htext⟩ := htext none (List.mem_singleton.mpr rfl)
      simp [ofStates, difference?, htext]
  | some mode =>
      let values := mode.states.mapWith fun state _ => f (some state)
      have hchanged : (values.filter fun state v =>
          !((values.get? state).getD .null).same v) = .empty := by
        refine OrdMap.eq_empty_of_get? fun state => ?_
        rw [OrdMap.get?_filter, Option.filter_eq_none_iff]
        intro v hv
        have hmem : state ∈ mode.states.keys := by
          simpa only [values, OrdMap.keys_mapWith] using OrdMap.mem_keys_of_get? hv
        obtain ⟨text, htext⟩ := htext (some state) (mem_statesOf_some.mpr hmem)
        obtain ⟨x, -, rfl⟩ := Option.map_eq_some_iff.mp (OrdMap.get?_mapWith _ _ state ▸ hv)
        rw [hv, Option.getD_some, htext, Value.same_text]
        simp
      simp only [ofStates, difference?, values, hchanged]
      rfl

theorem Resolution.difference_eq_empty {t : Theme} {before after : Resolution}
    (hfits : before.Fits t)
    (hagree : ∀ token ∈ before.keys, after.get? token = before.get? token) :
    before.difference after = .empty := by
  refine OrdMap.eq_empty_of_get? fun token => ?_
  rw [difference, OrdMap.get?_filterMap, Option.bind_eq_none_iff]
  intro resolved hafter
  cases hbefore : before.get? token with
  | none => rfl
  | some earlier =>
      rw [hagree token (OrdMap.mem_keys_of_get? hbefore), hbefore] at hafter
      obtain rfl := Option.some.inj hafter
      obtain ⟨f, rfl, htext⟩ := hfits.states token earlier hbefore
      exact Resolved.difference?_self htext

namespace Theme

variable {t base : Theme} {options : ResolveOptions} {before : Resolution} {c : Context}

/-! ### Themes that assign nothing -/

/-- A base without its assignments. -/
structure IsBareOf (t base : Theme) : Prop where
  tokens : t.tokens = .empty
  selector : t.selector = base.selector
  modes : t.modes = base.modes
  contexts : ∀ c ∈ t.contexts.values, ∃ b ∈ base.contexts.values, c = { b with tokens := .empty }

/-- On top of a base nothing is resolved for a theme without tokens. -/
theorem resolve_of_bare (htokens : t.tokens = .empty)
    (hbefore : base.resolve none options = .ok before) :
    t.resolve (some base) options = .ok .empty := by
  obtain ⟨f, hf, -⟩ := resolve_eq_ok.mp hbefore
  have hfind : ∀ token, (t.scope (some base)).find? token = (base.scope none).find? token :=
    fun token => find?_of_notMem (htokens ▸ List.not_mem_nil)
  have hchains : t.Traces (some base) options f := by
    intro token htoken
    obtain ⟨hmode, hchains⟩ := hf token htoken
    refine ⟨hmode, fun state hstate => (hchains state hstate).transfer fun x _ next hnext => ?_⟩
    exact Scope.hop_transfer (hfind x) (fun y _ hy => hfind y ▸ hy) hnext
  refine resolve_eq_ok.mpr ⟨f, hchains, (OrdMap.eq_empty_of_get? fun token => ?_).symm⟩
  have hpasses : (Traced.ofStates (base.modeOf token) (f token)).passes t.tokens = false := by
    rw [Bool.eq_false_iff, Ne, Traced.passes_ofStates, htokens]
    rintro ⟨_, _, x, _, hx⟩
    exact List.not_mem_nil hx
  rw [OrdMap.get?_filterMap, Option.bind_eq_none_iff]
  intro a _
  simp [keptChains, hpasses]

/-- Nor is anything inside a context of it. -/
theorem resolveIn_of_bare (htokens : t.tokens = .empty) (hc : c.tokens = .empty)
    (hid : ∃ name?, c.id.lookupName? = .ok name?)
    (hbefore : base.resolve none options = .ok before) :
    t.resolveIn c (some base) (some .empty) options = .ok .empty := by
  obtain ⟨name?, hid⟩ := hid
  have hwithin : t.within c (some base) (some .empty) = .ok { t with tokens := .empty } := by
    refine Outcome.bind_eq_ok.mpr ⟨.empty, by rw [hc]; rfl, ?_⟩
    refine Outcome.bind_eq_ok.mpr
      ⟨name?.bind base.contexts.get?, Outcome.bind_eq_ok.mpr ⟨name?, hid, rfl⟩, ?_⟩
    cases name?.bind base.contexts.get? with
    | none =>
        rw [htokens]
        rfl
    | some b => rfl
  exact Outcome.bind_eq_ok.mpr ⟨_, hwithin, resolve_of_bare rfl hbefore⟩

end Theme

/-! ### Their sheets -/

variable {N : Type} [Add N] [Sub N] [Mul N] [Div N] [LE N] [LT N] [DecidableLE N] [DecidableLT N]
  [OfScientific N] {space : ColorSpace N} {maker : RuleMaker} {t base : Theme}
  {options : ResolveOptions} {before : Resolution}

namespace SingleBuild

variable {b : SingleBuild} {done : List Place} {s : Stylesheet} {q : Place}

/-- A sheet to which empty rules only were added is empty. -/
theorem Steps.eq_empty (h : b.Steps space done s)
    (hempty : ∀ q ∈ done, (b.rule space q).isEmpty = true) : s = {} := by
  induction h with
  | root _ => rw [Stylesheet.add_of_isEmpty _ (hempty .root List.mem_cons_self)]
  | @place done s q path _ _ _ _ ih =>
      obtain ⟨hdone, hq⟩ := List.forall_mem_append.mp hempty
      rw [Stylesheet.add_of_isEmpty _ (hq q List.mem_cons_self), ih hdone]

end SingleBuild

/-- Where no place of a theme has values, its sheet is empty. -/
theorem buildSingle_eq_empty {base : Option Theme} {r : Resolution}
    (hres : t.resolve base options = .ok r)
    (hselectors : ∀ q : Place, q.IsOf t →
      ∃ text, (q.fragments t).selector maker.customizer = .ok text)
    (hvalues : ∀ q : Place, q.IsOf t →
      SingleBuild.values space ⟨maker, t, base, options, r⟩ q = .ok .empty) :
    buildSingle space maker t base options = .ok {} := by
  have hmade : ∀ q : Place, q.IsOf t → ∃ rule : Rule, rule.isEmpty = true ∧
      SingleBuild.makeRule space ⟨maker, t, base, options, r⟩ q = .ok rule := by
    intro q hq
    obtain ⟨text, htext⟩ := hselectors q hq
    refine ⟨⟨text, q.media, .empty⟩, rfl, Outcome.bind_eq_ok.mpr ⟨.empty, hvalues q hq, ?_⟩⟩
    exact Outcome.bind_eq_ok.mpr ⟨text, htext, rfl⟩
  obtain ⟨s, hs⟩ := exists_buildSingle_iff.mpr
    ⟨r, hres, fun q hq => (hmade q hq).imp fun _ h => h.2⟩
  obtain ⟨r', hr', hsteps⟩ := exists_steps_of_buildSingle hs
  obtain rfl := Except.ok.inj (hres.symm.trans hr')
  rw [hs, hsteps.eq_empty fun q hq => ?_]
  obtain ⟨rule, hempty, hrule⟩ := hmade q (Theme.mem_allPlaces.mp hq)
  rwa [SingleBuild.rule_eq hrule]

/-- On top of its base a theme that assigns nothing declares nothing. -/
theorem Theme.IsBareOf.buildSingle (h : t.IsBareOf base) (htyped : base.IsTyped)
    (hids : ∀ c ∈ base.contexts.values, ∃ name?, c.id.lookupName? = .ok name?)
    (hbefore : base.resolve none options = .ok before) :
    buildSingle space maker t (some base) options = .ok {} := by
  have hstates : t.optionalStates = base.optionalStates := by
    rw [optionalStates, h.modes]
    rfl
  refine buildSingle_eq_empty (resolve_of_bare h.tokens hbefore) (fun q hq => ?_) fun q hq => ?_
  · refine Place.exists_selector (h.selector ▸ htyped.selector) (hstates ▸ htyped.stateSelectors)
      (fun c hc => ?_) hq _
    obtain ⟨b, hb, rfl⟩ := h.contexts c hc
    exact (htyped.contexts b hb).selector
  · have hinside : ∀ c ∈ t.contexts.values, ∀ p, SingleBuild.valuesIn
        ⟨maker, t, some base, options, .empty⟩ c p = .ok .empty := by
      intro c hc p
      obtain ⟨b, hb, rfl⟩ := h.contexts c hc
      exact Outcome.bind_eq_ok.mpr
        ⟨.empty, resolveIn_of_bare h.tokens rfl (hids b hb) hbefore, rfl⟩
    cases q with
    | root => rfl
    | state x => rfl
    | context c on => exact hinside c hq .defaults
    | contextState x c on => exact hinside c hq.2 x.projection

/-! ### Minimal themes of overrides that change nothing -/

namespace Theme

variable {o : Override} {after : Resolution} {m : Merged}

theorem merge_contexts (hcontexts : o.contexts = .empty) :
    (t.merge o).theme.contexts = t.contexts := by
  rw [merge_eq]
  refine OrdMap.mapWith_eq_self fun id c _ => recontexted_of_none ?_ c
  rw [hcontexts]
  rfl

/-- Where an override has nothing for contexts and names nothing of what they declare, they lose
all. -/
theorem mem_namedContexts (hcontexts : o.contexts = .empty)
    (hapart : ∀ c ∈ base.contexts.values, ∀ token ∈ c.tokens.keys, token ∉ o.tokens.keys)
    (hc : c ∈ (base.namedContexts o).values) :
    ∃ b ∈ base.contexts.values, c = { b with tokens := .empty } := by
  obtain ⟨id, hc⟩ := OrdMap.mem_values_iff.mp hc
  rw [namedContexts, OrdMap.get?_map] at hc
  obtain ⟨b, hb, rfl⟩ := Option.map_eq_some_iff.mp hc
  have hmem : b ∈ base.contexts.values := OrdMap.mem_values_iff.mpr ⟨id, hb⟩
  refine ⟨b, hmem, ?_⟩
  congr 1
  refine OrdMap.eq_empty_of_get? fun token => ?_
  rw [OrdMap.get?_filter, Option.filter_eq_none_iff]
  intro a ha
  have hown : o.tokens.contains token = false := by
    rw [Bool.eq_false_iff, Ne, OrdMap.contains_iff]
    exact hapart b hmem token (OrdMap.mem_keys_of_get? ha)
  have hnone : namedFor o b = .empty := by
    rw [namedFor, hcontexts]
    cases b.id.text? <;> rfl
  rw [isNamedIn, hown, hnone]
  exact Bool.false_ne_true

/-- If the full resolutions agree, the minimal theme is the base without its assignments. -/
theorem exists_minimal_of_agree (htyped : base.IsTyped)
    (hids : ∀ c ∈ base.contexts.values, ∃ name?, c.id.lookupName? = .ok name?)
    (hcontexts : o.contexts = .empty)
    (hapart : ∀ c ∈ base.contexts.values, ∀ token ∈ c.tokens.keys, token ∉ o.tokens.keys)
    (hbefore : base.resolve none options = .ok before)
    (hafter : (base.merge o).theme.resolve none options = .ok after)
    (hagree : ∀ token ∈ base.tokens.keys, after.get? token = before.get? token) :
    ∃ m, base.minimal o options = .ok m ∧ m.theme.IsBareOf base := by
  have hmodes : ∀ token ∈ base.namedBy o, ∃ mode?, base.modeFor token = .ok mode? :=
    fun token _ => ⟨_, modeFor_eq_ok (htyped.binds token)⟩
  have hdifference : before.difference after = .empty :=
    Resolution.difference_eq_empty (fits_of_resolve htyped.plain hbefore)
      fun token htoken => hagree token (mem_source_of_resolve hbefore htoken)
  obtain ⟨contexts, hmerge⟩ := (base.restrictedTo o).merge_theme o
  refine ⟨_, minimal_eq_ok hids hmodes hbefore hafter, ?_, ?_, ?_, ?_⟩
  · refine OrdMap.eq_empty_of_get? fun token => ?_
    have hnowhere : inSomeContext (base.namedContexts o) token = false := by
      rw [inSomeContext, List.any_eq_false]
      intro c hc
      obtain ⟨b, -, rfl⟩ := mem_namedContexts hcontexts hapart hc
      exact Bool.false_ne_true
    rw [OrdMap.get?_filter, Option.filter_eq_none_iff]
    intro a _
    rw [hdifference, hnowhere]
    exact Bool.false_ne_true
  · rw [hmerge]
    rfl
  · rw [hmerge]
    rfl
  · intro c hc
    rw [merge_contexts hcontexts] at hc
    exact mem_namedContexts hcontexts hapart hc

end Theme

/-- An override without contexts that names nothing the contexts of its base declare, and after
which the base resolves as before, has a minimal theme without any tokens, and its text is empty. -/
theorem overrideSheet_of_unchanged {o : Override} {after : Resolution} (space : ColorSpace N)
    (properties : OrdMap Value) (customizer : Customizer) (htyped : base.IsTyped)
    (hids : ∀ c ∈ base.contexts.values, ∃ name?, c.id.lookupName? = .ok name?)
    (hcontexts : o.contexts = .empty)
    (hapart : ∀ c ∈ base.contexts.values, ∀ token ∈ c.tokens.keys, token ∉ o.tokens.keys)
    (hbefore : base.resolve none options = .ok before)
    (hafter : (base.merge o).theme.resolve none options = .ok after)
    (hagree : ∀ token ∈ base.tokens.keys, after.get? token = before.get? token) :
    ∃ m, base.minimal o options = .ok m ∧ m.theme.tokens = .empty ∧
      (∀ c ∈ m.theme.contexts.values, c.tokens = .empty) ∧
      ∃ s, overrideSheet space base o properties customizer options = .ok (s, m.notes) ∧
        s.text = "" := by
  obtain ⟨m, hm, hbare⟩ := Theme.exists_minimal_of_agree htyped hids hcontexts hapart hbefore
    hafter hagree
  refine ⟨m, hm, hbare.tokens, fun c hc => ?_, {}, ?_, rfl⟩
  · obtain ⟨b, -, rfl⟩ := hbare.contexts c hc
    rfl
  · refine Outcome.bind_eq_ok.mpr ⟨m, hm, Outcome.bind_eq_ok.mpr ⟨{}, ?_, rfl⟩⟩
    exact hbare.buildSingle htyped hids hbefore

/-! ### An override that repeats a resolved value -/

theorem isTyped_panel : panel.IsTyped where
  plain := panel_buildable.plain.tokens
  binds := by
    intro token v h
    obtain ⟨-, rfl⟩ := Prod.mk.inj (List.mem_singleton.mp (OrdMap.mem_entries_iff.mpr h))
    exact ⟨"lighting", rfl⟩
  selector := ⟨_, rfl⟩
  stateSelectors := by
    have hstates : panel.optionalStates = [dark] := rfl
    rw [hstates]
    exact List.forall_mem_singleton.mpr ⟨_, rfl⟩
  contexts := by
    refine List.forall_mem_singleton.mpr ⟨?_, ⟨_, rfl⟩, .inl rfl⟩
    exact .of_entries (List.forall_mem_singleton.mpr trivial)
  palettes := nofun

/-- Sets the line to what it refers to where it is dark, and adds a token. -/
def repeated : Override where
  tokens := .ofList [("line", .states (.ofList [("dark", "black")])), ("gap", .text "8")]

theorem overrideSheet_of_unchanged_repeated :
    ∃ before after, panel.IsTyped ∧
      (∀ c ∈ panel.contexts.values, ∃ name?, c.id.lookupName? = .ok name?) ∧
      repeated.contexts = .empty ∧
      (∀ c ∈ panel.contexts.values, ∀ token ∈ c.tokens.keys, token ∉ repeated.tokens.keys) ∧
      panel.resolve none {} = .ok before ∧
      (panel.merge repeated).theme.resolve none {} = .ok after ∧
      (∀ token ∈ panel.tokens.keys, after.get? token = before.get? token) ∧
      ∃ m, panel.minimal repeated {} = .ok m ∧ m.theme.tokens = .empty ∧
        (∀ c ∈ m.theme.contexts.values, c.tokens = .empty) ∧
        ∃ s, overrideSheet Cam16.space panel repeated panelMaker.registry.properties
            panelMaker.customizer {} = .ok (s, m.notes) ∧ s.text = "" := by
  let before : Resolution := .ofList [("ink", .single "black"),
    ("line", .perState (.ofList [("light", "gray"), ("dark", "black")]))]
  have hids : ∀ c ∈ panel.contexts.values, ∃ name?, c.id.lookupName? = .ok name? :=
    List.forall_mem_singleton.mpr ⟨some "card", rfl⟩
  have hapart : ∀ c ∈ panel.contexts.values, ∀ token ∈ c.tokens.keys,
      token ∉ repeated.tokens.keys := by
    refine List.forall_mem_singleton.mpr (List.forall_mem_singleton.mpr ?_)
    decide
  have hbefore : panel.resolve none {} = .ok before := rfl
  have hafter : (panel.merge repeated).theme.resolve none {} =
      .ok (before.insert "gap" (.single "8")) := rfl
  have hagree : ∀ token ∈ panel.tokens.keys,
      (before.insert "gap" (.single "8")).get? token = before.get? token := by
    intro token htoken
    refine (OrdMap.get?_insert _ _ _ _).trans (if_neg ?_)
    rintro rfl
    exact absurd htoken (by decide)
  exact ⟨before, _, isTyped_panel, hids, rfl, hapart, hbefore, hafter, hagree,
    overrideSheet_of_unchanged Cam16.space panelMaker.registry.properties panelMaker.customizer
      isTyped_panel hids rfl hapart hbefore hafter hagree⟩

end DesignTokens
