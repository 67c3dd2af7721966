import DesignTokens.Build.Multi
import DesignTokens.Proofs.Build.Values
import DesignTokens.Proofs.Selector.Spot

/-!
Themes whose rules can be told apart. Every selector of a theme, a state or a context is a single
class, but that of one theme, which may be `:root`; no selector stands for two kinds of things, and
none is repeated where that would give two rules one selector. Then each rule of each theme has a
spot of its own, and the rules of all themes, in the order in which they are made, have layers.
-/

namespace DesignTokens

open Selector (Fragments)

/-- What a selector of a theme may be: a class, or `:root`. -/
def Value.IsClass (v : Value) : Prop := ∃ s, v = .text s ∧ Selector.isClass s = true

/-- Themes with selectors of their own. -/
structure Separated (customizer : Customizer) (themes : List Theme) : Prop where
  injective : Function.Injective customizer
  theme : ∀ t ∈ themes, t.selector = .text ":root" ∨ t.selector.IsClass
  state : ∀ t ∈ themes, ∀ x ∈ t.optionalStates, x.selector.IsClass
  context : ∀ t ∈ themes, ∀ c ∈ t.contexts.values, c.selector.IsClass
  /-- No selector stands for two kinds of things. -/
  themeState : ∀ t ∈ themes, ∀ u ∈ themes, ∀ x ∈ u.optionalStates, t.selector ≠ x.selector
  themeContext : ∀ t ∈ themes, ∀ u ∈ themes, ∀ c ∈ u.contexts.values, t.selector ≠ c.selector
  stateContext : ∀ t ∈ themes, ∀ x ∈ t.optionalStates, ∀ u ∈ themes, ∀ c ∈ u.contexts.values,
    x.selector ≠ c.selector
  /-- None is repeated among the themes, nor among the states or the contexts of one theme. -/
  distinctThemes : (themes.map Theme.selector).Nodup
  distinctStates : ∀ t ∈ themes, (t.optionalStates.map OptionalState.selector).Nodup
  distinctContexts : ∀ t ∈ themes, (t.contexts.values.map Context.selector).Nodup

/-- The spot of a place. A context on the element of a theme at `:root` reads as one inside it. -/
def Place.spot (t : Theme) : Place → Spot
  | .root => ⟨t.selector.display, none, none⟩
  | .state x => ⟨t.selector.display, some x.selector.display, none⟩
  | .context c on =>
    ⟨t.selector.display, none, some (c.selector.display, on && t.selector.display != ":root")⟩
  | .contextState x c on =>
    ⟨t.selector.display, some x.selector.display, some (c.selector.display, on)⟩

/-- The stages of a build: a theme's own rule, those of states, of contexts, and of contexts in
states. -/
def Place.stage : Place → Nat
  | .root => 0
  | .state _ => 1
  | .context .. => 2
  | .contextState .. => 3

/-- The spots of a theme's rules, in the order in which these are made. -/
def Theme.spots (t : Theme) : List Spot := t.places.map (Place.spot t)

/-! ### Selectors of spots -/

/-- The fragments of a spot as themes give them. -/
def Spot.fragments (a : Spot) : Fragments := ⟨a.outer.map .text, a.inner.map .text⟩

theorem Spot.fragments_selector (a : Spot) (customizer : Customizer) :
    a.fragments.selector customizer = .ok (a.selector customizer) := by
  simp only [Fragments.selector, fragments, Selector.fragmentTexts_map_text]
  rfl

theorem RuleMaker.find?_spot (maker : RuleMaker) (s : Stylesheet) (a : Spot) :
    maker.find? s a.fragments = .ok (s.find? (a.selector maker.customizer)) := by
  rw [RuleMaker.find?, Spot.fragments_selector]
  rfl

namespace Separated

variable {customizer : Customizer} {themes order : List Theme} {t : Theme} {q : Place} {a b : Spot}

theorem of_subset (h : Separated customizer themes) (hsub : order ⊆ themes)
    (hnodup : (order.map Theme.selector).Nodup) : Separated customizer order where
  injective := h.injective
  theme t ht := h.theme t (hsub ht)
  state t ht := h.state t (hsub ht)
  context t ht := h.context t (hsub ht)
  themeState t ht u hu := h.themeState t (hsub ht) u (hsub hu)
  themeContext t ht u hu := h.themeContext t (hsub ht) u (hsub hu)
  stateContext t ht x hx u hu := h.stateContext t (hsub ht) x hx u (hsub hu)
  distinctThemes := hnodup
  distinctStates t ht := h.distinctStates t (hsub ht)
  distinctContexts t ht := h.distinctContexts t (hsub ht)

theorem selector_text (h : Separated customizer themes) (ht : t ∈ themes) :
    t.selector = .text t.selector.display := by
  obtain heq | ⟨s, heq, -⟩ := h.theme t ht <;> rw [heq] <;> rfl

theorem state_text (h : Separated customizer themes) (ht : t ∈ themes) {x : OptionalState}
    (hx : x ∈ t.optionalStates) : x.selector = .text x.selector.display := by
  obtain ⟨s, heq, -⟩ := h.state t ht x hx
  rw [heq]
  rfl

theorem context_text (h : Separated customizer themes) (ht : t ∈ themes) {c : Context}
    (hc : c ∈ t.contexts.values) : c.selector = .text c.selector.display := by
  obtain ⟨s, heq, -⟩ := h.context t ht c hc
  rw [heq]
  rfl

/-- What the fragments of the themes stand for. -/
def vocabulary (h : Separated customizer themes) : Vocabulary where
  IsTheme s := ∃ t ∈ themes, t.selector = .text s
  IsState s := ∃ t ∈ themes, ∃ x ∈ t.optionalStates, x.selector = .text s
  IsContext s := ∃ t ∈ themes, ∃ c ∈ t.contexts.values, c.selector = .text s
  theme_class := by
    rintro s ⟨t, ht, heq⟩
    obtain hroot | ⟨s', hs', hclass⟩ := h.theme t ht
    · exact .inl (Value.text.inj (heq.symm.trans hroot))
    · exact .inr (Value.text.inj (heq.symm.trans hs') ▸ hclass)
  state_class := by
    rintro s ⟨t, ht, x, hx, heq⟩
    obtain ⟨s', hs', hclass⟩ := h.state t ht x hx
    exact Value.text.inj (heq.symm.trans hs') ▸ hclass
  context_class := by
    rintro s ⟨t, ht, c, hc, heq⟩
    obtain ⟨s', hs', hclass⟩ := h.context t ht c hc
    exact Value.text.inj (heq.symm.trans hs') ▸ hclass
  theme_state := by
    rintro s ⟨t, ht, heq⟩ ⟨u, hu, x, hx, heq'⟩
    exact h.themeState t ht u hu x hx (heq.trans heq'.symm)
  theme_context := by
    rintro s ⟨t, ht, heq⟩ ⟨u, hu, c, hc, heq'⟩
    exact h.themeContext t ht u hu c hc (heq.trans heq'.symm)
  state_context := by
    rintro s ⟨t, ht, x, hx, heq⟩ ⟨u, hu, c, hc, heq'⟩
    exact h.stateContext t ht x hx u hu c hc (heq.trans heq'.symm)

theorem of_spot (h : Separated customizer themes) (ht : t ∈ themes) (hq : q.IsOf t) :
    (q.spot t).Of h.vocabulary := by
  have htheme : h.vocabulary.IsTheme t.selector.display := ⟨t, ht, h.selector_text ht⟩
  have hstate : ∀ x ∈ t.optionalStates, h.vocabulary.IsState x.selector.display :=
    fun x hx => ⟨t, ht, x, hx, h.state_text ht hx⟩
  have hcontext : ∀ c ∈ t.contexts.values, h.vocabulary.IsContext c.selector.display :=
    fun c hc => ⟨t, ht, c, hc, h.context_text ht hc⟩
  cases q with
  | root => exact ⟨htheme, by simp [Place.spot], by simp [Place.spot], fun _ => rfl⟩
  | state x => exact ⟨htheme, by simpa [Place.spot] using hstate x hq, by simp [Place.spot],
      fun _ => rfl⟩
  | context c on =>
      refine ⟨htheme, by simp [Place.spot], by simpa [Place.spot] using hcontext c hq, ?_⟩
      rintro ⟨hroot, -⟩
      simp only [Place.spot] at hroot
      simp [Place.spot, Spot.on?, hroot]
  | contextState x c on =>
      refine ⟨htheme, by simpa [Place.spot] using hstate x hq.1,
        by simpa [Place.spot] using hcontext c hq.2, ?_⟩
      rintro ⟨-, hnone⟩
      cases hnone

theorem ne_root_of_context (h : Separated customizer themes) (ht : t ∈ themes) {c : Context}
    (hc : c ∈ t.contexts.values) : c.selector ≠ .text ":root" := by
  obtain ⟨s, heq, hclass⟩ := h.context t ht c hc
  rw [heq]
  exact fun hroot => Selector.isClass_ne_root hclass (Value.text.inj hroot)

/-- The rule of a place has the selector of its spot. -/
theorem fragments_selector (h : Separated customizer themes) (ht : t ∈ themes) (hq : q.IsOf t) :
    (q.fragments t).selector customizer = .ok ((q.spot t).selector customizer) := by
  have htheme := h.selector_text ht
  suffices hsame : (q.fragments t).selector customizer = (q.spot t).fragments.selector customizer by
    rw [hsame, Spot.fragments_selector]
  have hinside : ∀ c ∈ t.contexts.values, (Place.context c false).fragments t =
      ((Place.context c false).spot t).fragments := by
    intro c hc
    rw [Place.fragments, htheme, h.context_text ht hc]
    rfl
  cases q with
  | root =>
      rw [Place.fragments, htheme]
      rfl
  | state x =>
      rw [Place.fragments, htheme, h.state_text ht hq]
      rfl
  | context c on =>
      cases on with
      | false => rw [hinside c hq]
      | true =>
          by_cases hroot : t.selector.display = ":root"
          · have hspot : (Place.context c true).spot t = (Place.context c false).spot t := by
              simp [Place.spot, hroot]
            rw [hspot, ← hinside c hq]
            exact Place.selector_context_true customizer (by rw [htheme, hroot])
              (h.ne_root_of_context ht hq)
          · have hspot : (Place.context c true).spot t =
                ⟨t.selector.display, none, some (c.selector.display, true)⟩ := by
              simp [Place.spot, hroot]
            rw [hspot, Place.fragments, htheme, h.context_text ht hq]
            rfl
  | contextState x c on =>
      cases on <;> (rw [Place.fragments, htheme, h.state_text ht hq.1, h.context_text ht hq.2]; rfl)

theorem selector_eq (h : Separated customizer themes) (ht : t ∈ themes) (hq : q.IsOf t) :
    q.selector customizer t = (q.spot t).selector customizer := by
  rw [Place.selector, h.fragments_selector ht hq]
  rfl

/-- Different spots have different selectors. -/
theorem eq_of_selector_eq (h : Separated customizer themes) (ha : a.Of h.vocabulary)
    (hb : b.Of h.vocabulary) (heq : a.selector customizer = b.selector customizer) : a = b :=
  ha.eq_of_selector_eq hb h.injective heq

end Separated

/-! ### Spots of a theme -/

theorem Place.rank_spot (t : Theme) (q : Place) :
    (q.spot t).rank = (if t.selector.display = ":root" then 0 else 4) + q.stage := by
  cases q <;> rfl

namespace Theme

variable {t : Theme} {a : Spot}

theorem theme_of_mem_spots (ha : a ∈ t.spots) : a.theme = t.selector.display := by
  obtain ⟨q, -, rfl⟩ := List.mem_map.mp ha
  cases q <;> rfl

/-- The parents of a place are those of its spot within the theme. -/
theorem map_spot_parents (t : Theme) (q : Place) :
    q.parents.map (Place.spot t) = (q.spot t).own := by
  cases q <;> rfl

theorem stage_states : ∀ q ∈ t.optionalStates.map Place.state, q.stage = 1 := by
  intro q hq
  obtain ⟨x, -, rfl⟩ := List.mem_map.mp hq
  rfl

theorem stage_contexts : ∀ q ∈ t.contexts.values.flatMap t.contextPlaces, q.stage = 2 := by
  intro q hq
  obtain ⟨c, -, hq⟩ := List.mem_flatMap.mp hq
  obtain ⟨on, -, rfl⟩ := List.mem_map.mp hq
  rfl

theorem stage_contextStates : ∀ q ∈ t.optionalStates.flatMap fun x =>
    t.contexts.values.flatMap (contextStatePlaces x), q.stage = 3 := by
  intro q hq
  obtain ⟨x, -, hq⟩ := List.mem_flatMap.mp hq
  obtain ⟨c, -, hq⟩ := List.mem_flatMap.mp hq
  obtain ⟨on, -, rfl⟩ := List.mem_map.mp hq
  rfl

/-- Rules come stage by stage, so what holds between stages and within each of them holds along all
places. -/
theorem pairwise_places {r : Place → Place → Prop}
    (hstates : (t.optionalStates.map Place.state).Pairwise r)
    (hcontexts : (t.contexts.values.flatMap t.contextPlaces).Pairwise r)
    (hboth : (t.optionalStates.flatMap fun x =>
      t.contexts.values.flatMap (contextStatePlaces x)).Pairwise r)
    (hstage : ∀ q q', q.stage < q'.stage → r q q') : t.places.Pairwise r := by
  refine List.pairwise_append.mpr ⟨List.pairwise_append.mpr ⟨List.pairwise_append.mpr
    ⟨List.pairwise_singleton _ _, hstates, ?_⟩, hcontexts, ?_⟩, hboth, ?_⟩
  · intro q hq q' hq'
    refine hstage _ _ ?_
    obtain rfl := List.mem_singleton.mp hq
    rw [stage_states q' hq']
    exact Nat.zero_lt_one
  · intro q hq q' hq'
    refine hstage _ _ ?_
    rw [stage_contexts q' hq']
    obtain hq | hq := List.mem_append.mp hq
    · obtain rfl := List.mem_singleton.mp hq
      exact Nat.zero_lt_two
    · simp [stage_states q hq]
  · intro q hq q' hq'
    refine hstage _ _ ?_
    rw [stage_contextStates q' hq']
    obtain hq | hq := List.mem_append.mp hq
    · obtain hq | hq := List.mem_append.mp hq
      · obtain rfl := List.mem_singleton.mp hq
        exact Nat.zero_lt_succ 2
      · simp [stage_states q hq]
    · simp [stage_contexts q hq]

/-- Rules come in the order of their ranks. -/
theorem pairwise_rank_spots (t : Theme) : t.spots.Pairwise fun a b => a.rank ≤ b.rank := by
  have hle : ∀ q q' : Place, q.stage ≤ q'.stage → (q.spot t).rank ≤ (q'.spot t).rank := by
    intro q q' hle
    rw [Place.rank_spot, Place.rank_spot]
    exact Nat.add_le_add_left hle _
  have hsame : ∀ {qs : List Place} {n : Nat}, (∀ q ∈ qs, q.stage = n) →
      qs.Pairwise fun q q' => (q.spot t).rank ≤ (q'.spot t).rank := by
    intro qs n hn
    refine List.pairwise_of_forall_mem_list fun q hq q' hq' => hle q q' ?_
    exact Nat.le_of_eq ((hn q hq).trans (hn q' hq').symm)
  rw [spots, List.pairwise_map]
  exact pairwise_places (hsame stage_states) (hsame stage_contexts) (hsame stage_contextStates)
    fun q q' hlt => hle q q' (Nat.le_of_lt hlt)

end Theme

namespace Separated

variable {customizer : Customizer} {themes order : List Theme} {t u : Theme} {a b : Spot}

theorem nodup_states (h : Separated customizer themes) (ht : t ∈ themes) :
    (t.optionalStates.map fun x => x.selector.display).Nodup := by
  refine (h.distinctStates t ht).of_map.map_on fun x hx y hy heq => ?_
  refine List.inj_on_of_nodup_map (h.distinctStates t ht) hx hy ?_
  rw [h.state_text ht hx, h.state_text ht hy, heq]

theorem nodup_contexts (h : Separated customizer themes) (ht : t ∈ themes) :
    (t.contexts.values.map fun c => c.selector.display).Nodup := by
  refine (h.distinctContexts t ht).of_map.map_on fun c hc d hd heq => ?_
  refine List.inj_on_of_nodup_map (h.distinctContexts t ht) hc hd ?_
  rw [h.context_text ht hc, h.context_text ht hd, heq]

/-- No two rules of a theme have one spot. -/
theorem nodup_spots (h : Separated customizer themes) (ht : t ∈ themes) : t.spots.Nodup := by
  have hstates := List.pairwise_map.mp (h.nodup_states ht)
  have hcontexts := List.pairwise_map.mp (h.nodup_contexts ht)
  -- a spot tells the state and the context of a place, and its rank the stage
  have hstate : ∀ {x y : OptionalState} {q q' : Place}, x.selector.display ≠ y.selector.display →
      (q.spot t).state = some x.selector.display → (q'.spot t).state = some y.selector.display →
        q.spot t ≠ q'.spot t := by
    intro x y q q' hne hq hq' heq
    rw [heq, hq'] at hq
    exact hne (Option.some.inj hq).symm
  have hcontext : ∀ {c d : Context} {q q' : Place}, c.selector.display ≠ d.selector.display →
      (q.spot t).context.map Prod.fst = some c.selector.display →
      (q'.spot t).context.map Prod.fst = some d.selector.display → q.spot t ≠ q'.spot t := by
    intro c d q q' hne hq hq' heq
    rw [heq, hq'] at hq
    exact hne (Option.some.inj hq).symm
  rw [Theme.spots, List.Nodup, List.pairwise_map]
  refine Theme.pairwise_places ?_ ?_ ?_ fun q q' hlt heq => ?_
  · exact List.pairwise_map.mpr (hstates.imp fun hne => hstate hne rfl rfl)
  · refine List.pairwise_flatMap.mpr ⟨fun c _ => ?_, hcontexts.imp fun hne q hq q' hq' => ?_⟩
    · by_cases hroot : t.selector.text? = some ":root"
      · simp [Theme.contextPlaces, Theme.scopings, hroot]
      · have hdisplay : t.selector.display ≠ ":root" := by
          rw [h.selector_text ht] at hroot
          simpa [Value.text?] using hroot
        simp [Theme.contextPlaces, Theme.scopings, hroot, Place.spot, hdisplay]
    · obtain ⟨on, -, rfl⟩ := List.mem_map.mp hq
      obtain ⟨on', -, rfl⟩ := List.mem_map.mp hq'
      exact hcontext hne rfl rfl
  · refine List.pairwise_flatMap.mpr ⟨fun x _ => List.pairwise_flatMap.mpr ⟨fun c _ => ?_,
      hcontexts.imp fun hne q hq q' hq' => ?_⟩, hstates.imp fun hne q hq q' hq' => ?_⟩
    · simp [Theme.contextStatePlaces, Place.spot]
    · obtain ⟨on, -, rfl⟩ := List.mem_map.mp hq
      obtain ⟨on', -, rfl⟩ := List.mem_map.mp hq'
      exact hcontext hne rfl rfl
    · obtain ⟨c, -, hq⟩ := List.mem_flatMap.mp hq
      obtain ⟨d, -, hq'⟩ := List.mem_flatMap.mp hq'
      obtain ⟨on, -, rfl⟩ := List.mem_map.mp hq
      obtain ⟨on', -, rfl⟩ := List.mem_map.mp hq'
      exact hstate hne rfl rfl
  · have hrank := congrArg Spot.rank heq
    rw [Place.rank_spot, Place.rank_spot] at hrank
    omega

theorem of_mem_spots (h : Separated customizer themes) (ht : t ∈ themes) (ha : a ∈ t.spots) :
    a.Of h.vocabulary := by
  obtain ⟨q, hq, rfl⟩ := List.mem_map.mp ha
  exact h.of_spot ht (Place.isOf_of_mem hq)

/-- No two rules of a theme have one selector. -/
theorem distinctSelectors (h : Separated customizer themes) (ht : t ∈ themes) :
    t.DistinctSelectors customizer := by
  have hselectors : t.places.map (Place.selector customizer t) =
      t.spots.map (Spot.selector customizer) := by
    rw [Theme.spots, List.map_map]
    exact List.map_congr_left fun q hq => h.selector_eq ht (Place.isOf_of_mem hq)
  rw [Theme.DistinctSelectors, hselectors]
  exact (h.nodup_spots ht).map_on fun a ha b hb heq =>
    h.eq_of_selector_eq (h.of_mem_spots ht ha) (h.of_mem_spots ht hb) heq

/-! ### Layers -/

/-- The layers of the rules that are made for some themes, by their selectors. -/
def frame (customizer : Customizer) (primary : Bool) (order : List Theme) :
    List (String × List String) :=
  (order.flatMap Theme.spots).map fun a =>
    (a.selector customizer, (a.parents primary).map (Spot.selector customizer))

section Order

variable (h : Separated customizer themes) (hsub : order ⊆ themes)
  (hnodup : (order.map Theme.selector).Nodup) {primary : Bool}
  (hprimary : primary = true → (∃ t ∈ themes, t.selector = .text ":root") ∧
    order.Pairwise fun _ u => u.selector ≠ .text ":root")

include h hsub hnodup hprimary

/-- A spot differs from the later ones and does not inherit from them. -/
theorem pairwise_spots : (order.flatMap Theme.spots).Pairwise fun a b =>
    a ≠ b ∧ b ∉ a.parents primary := by
  rw [List.pairwise_flatMap]
  refine ⟨fun t ht => ?_, ?_⟩
  · refine ((h.nodup_spots (hsub ht)).and t.pairwise_rank_spots).imp fun ⟨hne, hle⟩ => ?_
    exact ⟨hne, fun hmem => absurd (Spot.rank_lt hmem) (Nat.not_lt.mpr hle)⟩
  · have hthemes := List.pairwise_map.mp hnodup
    have hroots : order.Pairwise fun _ u => primary = true → u.selector ≠ .text ":root" := by
      by_cases hp : primary = true
      · exact (hprimary hp).2.imp fun hne _ => hne
      · exact List.pairwise_of_forall fun _ _ hp' => absurd hp' hp
    refine (hthemes.and hroots).imp_of_mem fun {t u} ht hu ⟨hne, hroot⟩ a ha b hb => ?_
    have hthemes : b.theme ≠ a.theme := by
      rw [Theme.theme_of_mem_spots ha, Theme.theme_of_mem_spots hb]
      intro heq
      exact hne (by rw [h.selector_text (hsub ht), h.selector_text (hsub hu), heq])
    refine ⟨fun heq => hthemes (heq ▸ rfl), fun hmem => ?_⟩
    obtain heq | ⟨hp, heq⟩ := Spot.theme_of_mem_parents hmem
    · exact hthemes heq
    · rw [Theme.theme_of_mem_spots hb] at heq
      exact hroot hp (by rw [h.selector_text (hsub hu), heq])

/-- The rules of all themes have layers. A theme at `:root` that others inherit from comes first. -/
theorem layered : Layered (frame customizer primary order) := by
  have hof : ∀ a ∈ order.flatMap Theme.spots, a.Of h.vocabulary := by
    intro a ha
    obtain ⟨t, ht, ha⟩ := List.mem_flatMap.mp ha
    exact h.of_mem_spots (hsub ht) ha
  have hlater := h.pairwise_spots hsub hnodup hprimary
  have hspots : Layered ((order.flatMap Theme.spots).map fun a => (a, a.parents primary)) := by
    refine ⟨?_, ?_, ?_, ?_, ?_⟩
    · rw [List.map_map]
      have hspots : (order.flatMap Theme.spots).Nodup := hlater.imp And.left
      simpa [Function.comp_def] using hspots
    · intro e he
      obtain ⟨a, -, rfl⟩ := List.mem_map.mp he
      exact a.nodup_parents primary
    · intro e he e' he' hmem
      obtain ⟨a, -, rfl⟩ := List.mem_map.mp he
      obtain ⟨b, -, rfl⟩ := List.mem_map.mp he'
      exact Spot.parents_subset hmem
    · intro e he hmem
      obtain ⟨a, -, rfl⟩ := List.mem_map.mp he
      exact absurd (Spot.rank_lt hmem) (Nat.lt_irrefl _)
    · rw [List.pairwise_map]
      exact hlater.imp And.right
  have hframe := hspots.map (fun e he => ?_) fun a b ha hb => h.eq_of_selector_eq ha hb
  · rwa [List.map_map] at hframe
  · obtain ⟨a, ha, rfl⟩ := List.mem_map.mp he
    refine ⟨hof a ha, fun b hb => (hof a ha).of_mem_parents (fun hp => ?_) hb⟩
    exact (hprimary hp).1

end Order

end Separated

end DesignTokens
