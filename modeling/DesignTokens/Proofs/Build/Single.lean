import DesignTokens.Build.Single
import DesignTokens.Proofs.Build.Rule
import DesignTokens.Proofs.Selector.Compose
import DesignTokens.Proofs.Stylesheet.Plan

/-!
The stylesheet of one theme follows a plan. Each rule has a place: it is that of the theme, of an
optional state, of a context inside the theme's element or on it, or of a context in a state. The
place tells the selector, the values and the places of the rules it inherits from, so that nothing
has to be known about the order in which the sheet is built but that of the places.

A theme at `:root` has no element of its own to be in a context, so the two places of a context have
one selector there; the sheet then has one rule for both.
-/

namespace DesignTokens

open Selector (Fragments)

/-- What a rule of a theme is for. Contexts are `on` the theme's element or inside it. -/
inductive Place where
  | root
  | state (x : OptionalState)
  | context (c : Context) (on : Bool)
  | contextState (x : OptionalState) (c : Context) (on : Bool)

namespace Place

def fragments (t : Theme) : Place → Fragments
  | root => ⟨[t.selector], []⟩
  | state x => ⟨[t.selector, x.selector], []⟩
  | context c false => ⟨[t.selector], [c.selector]⟩
  | context c true => ⟨[t.selector, c.selector], []⟩
  | contextState x c false => ⟨[t.selector, x.selector], [c.selector]⟩
  | contextState x c true => ⟨[t.selector, x.selector, c.selector], []⟩

def media : Place → Value
  | root => .null
  | state x => x.media
  | context .. => .null
  | contextState x .. => x.media

/-- The selector of a place; fragments that are no texts have none. -/
def selector (customizer : Customizer) (t : Theme) (q : Place) : String :=
  Outcome.valueOr "" ((q.fragments t).selector customizer)

/-- The places that a rule inherits from, the farthest first. -/
def parents : Place → List Place
  | root => []
  | state _ => [root]
  | context .. => [root]
  | contextState x c on => [root, state x, context c on]

end Place

namespace Theme

/-- The two places of a context count once for a theme at `:root`. -/
def scopings (t : Theme) : List Bool :=
  if t.selector.text? = some ":root" then [false] else [false, true]

def contextPlaces (t : Theme) (c : Context) : List Place := t.scopings.map (.context c)

def contextStatePlaces (x : OptionalState) (c : Context) : List Place :=
  [false, true].map (.contextState x c)

/-- The places of all rules of a theme, in the order in which they are made. -/
def places (t : Theme) : List Place :=
  [.root] ++ t.optionalStates.map .state ++ t.contexts.values.flatMap t.contextPlaces ++
    t.optionalStates.flatMap fun x => t.contexts.values.flatMap (contextStatePlaces x)

@[simp] theorem root_mem_places (t : Theme) : Place.root ∈ t.places := by
  simp [places]

@[simp] theorem state_mem_places {t : Theme} {x : OptionalState} :
    Place.state x ∈ t.places ↔ x ∈ t.optionalStates := by
  simp [places, contextPlaces, contextStatePlaces]

@[simp] theorem context_mem_places {t : Theme} {c : Context} {on : Bool} :
    Place.context c on ∈ t.places ↔ c ∈ t.contexts.values ∧ on ∈ t.scopings := by
  simp [places, contextPlaces, contextStatePlaces]

@[simp] theorem contextState_mem_places {t : Theme} {x : OptionalState} {c : Context} {on : Bool} :
    Place.contextState x c on ∈ t.places ↔ x ∈ t.optionalStates ∧ c ∈ t.contexts.values := by
  cases on <;> simp [places, contextPlaces, contextStatePlaces]

/-- No two rules of a theme have one selector. -/
def DistinctSelectors (t : Theme) (customizer : Customizer) : Prop :=
  (t.places.map (Place.selector customizer t)).Nodup

end Theme

/-! ### Selectors -/

namespace Place

variable {t : Theme} {c : Context} (customizer : Customizer)

theorem selector_context_true (htheme : t.selector = .text ":root")
    (hc : c.selector ≠ .text ":root") :
    ((context c true).fragments t).selector customizer =
      ((context c false).fragments t).selector customizer := by
  simp only [fragments, Selector.Fragments.selector, htheme]
  cases hsel : c.selector with
  | text s =>
      have hs : s ≠ ":root" := fun h => hc (by rw [hsel, h])
      have hcompose := Selector.compose_root s hs
      simp only [Selector.fragmentTexts, List.mapM_cons, List.mapM_nil, Value.text?, pure,
        Except.pure, bind, Except.bind, hcompose]
  | _ => rfl

/-- A context at `:root` would have the selector of a theme at `:root`. -/
theorem selector_context_root (htheme : t.selector = .text ":root")
    (hc : c.selector = .text ":root") :
    (context c false).selector customizer t = root.selector customizer t := by
  have hcompose : Selector.compose [":root"] [":root"] = Selector.compose [":root"] [] := rfl
  simp only [selector, fragments, htheme, hc, Selector.Fragments.selector, Selector.fragmentTexts,
    List.mapM_cons, List.mapM_nil, Value.text?, pure, Except.pure, bind, Except.bind, hcompose]

/-- Wherever a context lies, one of its places that count has the selector. -/
theorem exists_scoping {customizer : Customizer} (hdistinct : t.DistinctSelectors customizer)
    (hc : c ∈ t.contexts.values) (on : Bool) :
    ∃ on' ∈ t.scopings, (context c on').selector customizer t =
      (context c on).selector customizer t := by
  by_cases htheme : t.selector.text? = some ":root"
  · have htext := Value.eq_text_of_text? htheme
    have hscopings : t.scopings = [false] := by simp [Theme.scopings, htheme]
    have hselector : c.selector ≠ .text ":root" := by
      intro hroot
      have hsame := selector_context_root customizer htext hroot
      rw [Theme.DistinctSelectors, Theme.places, List.append_assoc, List.append_assoc,
        List.singleton_append, List.map_cons, List.nodup_cons] at hdistinct
      refine hdistinct.1 (hsame ▸ List.mem_map_of_mem ?_)
      refine List.mem_append_right _ (List.mem_append_left _ ?_)
      refine List.mem_flatMap.mpr ⟨c, hc, List.mem_map_of_mem ?_⟩
      simp [hscopings]
    refine ⟨false, by simp [hscopings], ?_⟩
    cases on with
    | false => rfl
    | true => rw [selector, selector, selector_context_true customizer htext hselector]
  · exact ⟨on, by cases on <;> simp [Theme.scopings, htheme], rfl⟩

end Place

/-! ### Rules -/

variable {N : Type} [Add N] [Sub N] [Mul N] [Div N] [LE N] [LT N] [DecidableLE N] [DecidableLT N]
  [OfScientific N] {space : ColorSpace N}

namespace SingleBuild

variable {b : SingleBuild} {q : Place} {r : Rule}

/-- The values declared at a place. -/
def values (space : ColorSpace N) (b : SingleBuild) : Place → Except Fault Projected
  | .root => b.theme.rootValues space b.resolution b.base b.options
  | .state x => b.resolution.project b.theme x.projection b.base
  | .context c _ => b.valuesIn c .defaults
  | .contextState x c _ => b.valuesIn c x.projection

def makeRule (space : ColorSpace N) (b : SingleBuild) (q : Place) : Except Fault Rule := do
  b.maker.make (q.fragments b.theme) q.media (← b.values space q)

def selector (b : SingleBuild) (q : Place) : String := q.selector b.maker.customizer b.theme

def rule (space : ColorSpace N) (b : SingleBuild) (q : Place) : Rule :=
  Outcome.valueOr { selector := "" } (b.makeRule space q)

def planned (space : ColorSpace N) (b : SingleBuild) (q : Place) : Planned :=
  ⟨b.rule space q, q.parents.map b.selector⟩

theorem rule_eq (h : b.makeRule space q = .ok r) : b.rule space q = r := by
  rw [rule, h]
  rfl

theorem selector_eq (h : b.makeRule space q = .ok r) : b.selector q = r.selector := by
  obtain ⟨values, -, hmake⟩ := Outcome.bind_eq_ok.mp h
  rw [selector, Place.selector, (RuleMaker.make_selector hmake).1]
  rfl

theorem media_eq (h : b.makeRule space q = .ok r) : q.media = r.media := by
  obtain ⟨values, -, hmake⟩ := Outcome.bind_eq_ok.mp h
  exact (RuleMaker.make_selector hmake).2.symm

/-- At `:root` a context has one rule, wherever it lies. -/
theorem makeRule_context_root (c : Context) (htheme : b.theme.selector = .text ":root")
    (hc : c.selector ≠ .text ":root") :
    b.makeRule space (.context c true) = b.makeRule space (.context c false) := by
  have hfragments := Place.selector_context_true b.maker.customizer htheme hc
  have hmake := fun values => RuleMaker.make_congr hfragments .null values
  simp only [makeRule, Place.media, hmake, values]

/-! ### Building -/

/-- A sheet in which the rules of some places have been made and added. -/
structure Built (space : ColorSpace N) (b : SingleBuild) (root? : Option RuleId) (s : Stylesheet)
    (done : List Place) : Prop where
  follows : s.Follows (done.map (b.planned space))
  root : s.find? (b.selector .root) = root?
  made : ∀ q ∈ done, b.makeRule space q = .ok (b.rule space q)

theorem notMem_of_nodup_append {α β : Type} {f : α → β} {xs : List α} {x : α}
    (h : ((xs ++ [x]).map f).Nodup) : f x ∉ xs.map f := by
  rw [List.map_append, List.nodup_append] at h
  intro hmem
  exact h.2.2 _ hmem (f x) (by simp) rfl

namespace Built

variable {root? : Option RuleId} {s : Stylesheet} {done : List Place}

theorem selectors (h : b.Built space root? s done) :
    (done.map (b.planned space)).map Planned.selector = done.map b.selector := by
  rw [List.map_map]
  exact List.map_congr_left fun q hq => (selector_eq (h.made q hq)).symm

/-- The rule of one more place is added below the rules of its parents. -/
theorem add (h : b.Built space root? s done) (hr : b.makeRule space q = .ok r)
    (hroot : Place.root ∈ done) (hfresh : b.selector q ∉ done.map b.selector)
    (hparents : ∀ a ∈ q.parents, b.selector a ∈ done.map b.selector) :
    b.Built space root? (s.add r (q.parents.map fun a => s.find? (b.selector a))).1
      (done ++ [q]) := by
  obtain rfl := rule_eq hr
  have hselector : (b.planned space q).selector = b.selector q := (selector_eq hr).symm
  refine ⟨?_, ?_, ?_⟩
  · have hadd := h.follows.add (e := b.planned space q)
      (by rwa [hselector, h.selectors])
      (by rw [h.selectors]; simpa [planned] using hparents)
    simpa [planned, Function.comp_def] using hadd
  · rw [Stylesheet.find?_add_of_ne, h.root]
    rw [← selector_eq hr]
    intro heq
    exact hfresh (heq ▸ List.mem_map_of_mem hroot)
  · intro q' hq'
    obtain hq' | rfl := List.mem_append.mp hq' |>.imp_right List.mem_singleton.mp
    · exact h.made q' hq'
    · exact hr

/-- Two rules are added, both below what was found before. -/
theorem add_pair (h : b.Built space root? s done) {q' : Place} {r' : Rule}
    (hr : b.makeRule space q = .ok r) (hr' : b.makeRule space q' = .ok r')
    (hroot : Place.root ∈ done) (hnodup : ((done ++ [q, q']).map b.selector).Nodup)
    (hparents : ∀ a ∈ q.parents, b.selector a ∈ done.map b.selector)
    (hparents' : ∀ a ∈ q'.parents, b.selector a ∈ done.map b.selector) :
    b.Built space root? ((s.add r (q.parents.map fun a => s.find? (b.selector a))).1.add r'
      (q'.parents.map fun a => s.find? (b.selector a))).1 (done ++ [q, q']) := by
  rw [List.append_cons] at hnodup ⊢
  have hfirst : ((done ++ [q]).map b.selector).Nodup := by
    rw [List.map_append] at hnodup
    exact hnodup.of_append_left
  have hfresh := notMem_of_nodup_append hfirst
  have hadd := (h.add hr hroot hfresh hparents).add hr' (by simp [hroot])
    (notMem_of_nodup_append hnodup) (by
      intro a ha
      rw [List.map_append]
      exact List.mem_append_left _ (hparents' a ha))
  -- the first rule is none of the parents of the second one
  have hkeep : ∀ a ∈ q'.parents,
      (s.add r (q.parents.map fun a => s.find? (b.selector a))).1.find? (b.selector a) =
        s.find? (b.selector a) := by
    intro a ha
    rw [Stylesheet.find?_add_of_ne]
    rw [← selector_eq hr]
    intro heq
    exact hfresh (heq ▸ hparents' a ha)
  rwa [List.map_congr_left hkeep] at hadd

/-- A rule that is added twice counts once. -/
theorem add_twice (h : b.Built space root? s done) (hr : b.makeRule space q = .ok r)
    (hroot : Place.root ∈ done) (hfresh : b.selector q ∉ done.map b.selector)
    (hparents : ∀ a ∈ q.parents, b.selector a ∈ done.map b.selector) {s' : Stylesheet}
    (hs' : s' = (s.add r (q.parents.map fun a => s.find? (b.selector a))).1) :
    b.Built space root? (s'.add r (q.parents.map fun a => s'.find? (b.selector a))).1
      (done ++ [q]) := by
  have honce := h.add hr hroot hfresh hparents
  obtain rfl := rule_eq hr
  have hselector : (b.planned space q).selector = b.selector q := (selector_eq hr).symm
  refine ⟨?_, ?_, honce.made⟩
  · have hadd := h.follows.add_twice (e := b.planned space q)
      (by rwa [hselector, h.selectors])
      (by rw [h.selectors]; simpa [planned] using hparents)
    simpa [planned, Function.comp_def, hs'] using hadd
  · have hne : b.selector .root ≠ (b.rule space q).selector := by
      rw [← selector_eq hr]
      intro heq
      exact hfresh (heq ▸ List.mem_map_of_mem hroot)
    rw [Stylesheet.find?_add_of_ne _ _ hne, hs', Stylesheet.find?_add_of_ne _ _ hne, h.root]

/-! ### Steps of a build -/

theorem addState (h : b.Built space root? s done) (hroot : Place.root ∈ done) {x : OptionalState}
    (hnodup : ((done ++ [Place.state x]).map b.selector).Nodup) {s' : Stylesheet}
    (hs' : b.addState root? s x = .ok s') : b.Built space root? s' (done ++ [.state x]) := by
  simp only [SingleBuild.addState, Outcome.bind_eq_ok, Outcome.pure_eq_ok] at hs'
  obtain ⟨values, hvalues, r, hr, rfl⟩ := hs'
  have hmake : b.makeRule space (.state x) = .ok r :=
    Outcome.bind_eq_ok.mpr ⟨values, hvalues, hr⟩
  have hadd := h.add hmake hroot (notMem_of_nodup_append hnodup)
    (by simpa [Place.parents] using ⟨_, hroot, rfl⟩)
  simpa [Place.parents, h.root] using hadd

theorem addContext (h : b.Built space root? s done) (hroot : Place.root ∈ done) {c : Context}
    (hnodup : ((done ++ b.theme.contextPlaces c).map b.selector).Nodup) {s' : Stylesheet}
    (hs' : b.addContext root? s c = .ok s') :
    b.Built space root? s' (done ++ b.theme.contextPlaces c) := by
  simp only [SingleBuild.addContext, Outcome.bind_eq_ok, Outcome.pure_eq_ok] at hs'
  obtain ⟨values, hvalues, r, hr, r', hr', rfl⟩ := hs'
  have hinside : b.makeRule space (.context c false) = .ok r :=
    Outcome.bind_eq_ok.mpr ⟨values, hvalues, hr⟩
  have hon : b.makeRule space (.context c true) = .ok r' :=
    Outcome.bind_eq_ok.mpr ⟨values, hvalues, hr'⟩
  have hparents : ∀ on, ∀ a ∈ (Place.context c on).parents,
      b.selector a ∈ done.map b.selector := by
    intro on a ha
    obtain rfl := List.mem_singleton.mp ha
    exact List.mem_map_of_mem hroot
  by_cases htheme : b.theme.selector.text? = some ":root"
  · have hplaces : b.theme.contextPlaces c = [.context c false] := by
      simp [Theme.contextPlaces, Theme.scopings, htheme]
    rw [hplaces] at hnodup ⊢
    have htext := Value.eq_text_of_text? htheme
    have hfresh := notMem_of_nodup_append hnodup
    have hc : c.selector ≠ .text ":root" := by
      intro hc
      refine hfresh ?_
      rw [SingleBuild.selector, Place.selector_context_root _ htext hc]
      exact List.mem_map_of_mem hroot
    obtain rfl := Except.ok.inj (hon.symm.trans ((makeRule_context_root c htext hc).trans hinside))
    have hadd := h.add_twice hinside hroot hfresh (hparents false) rfl
    have hkeep := (h.add hinside hroot hfresh (hparents false)).root
    simp only [Place.parents, List.map_cons, List.map_nil, h.root] at hadd hkeep
    rwa [hkeep] at hadd
  · have hplaces : b.theme.contextPlaces c = [.context c false, .context c true] := by
      simp [Theme.contextPlaces, Theme.scopings, htheme]
    rw [hplaces] at hnodup ⊢
    have hadd := h.add_pair hinside hon hroot hnodup (hparents false) (hparents true)
    simpa [Place.parents, h.root] using hadd

theorem find?_eq {maker : RuleMaker} {fragments : Fragments} {found : Option RuleId}
    (h : maker.find? s fragments = .ok found) :
    found = s.find? (Outcome.valueOr "" (fragments.selector maker.customizer)) := by
  obtain ⟨selector, hselector, hfound⟩ := Outcome.bind_eq_ok.mp h
  rw [hselector]
  exact (Outcome.pure_eq_ok.mp hfound).symm

theorem addContextState (h : b.Built space root? s done) (hroot : Place.root ∈ done)
    {x : OptionalState} {c : Context} (hx : Place.state x ∈ done)
    (hc : ∀ on, b.selector (.context c on) ∈ done.map b.selector)
    (hnodup : ((done ++ Theme.contextStatePlaces x c).map b.selector).Nodup) {s' : Stylesheet}
    (hs' : b.addContextState root? s x c = .ok s') :
    b.Built space root? s' (done ++ Theme.contextStatePlaces x c) := by
  simp only [SingleBuild.addContextState, Outcome.bind_eq_ok, Outcome.pure_eq_ok] at hs'
  obtain ⟨values, hvalues, _, hfind, _, hfind', _, hfind'', r, hr, r', hr', rfl⟩ := hs'
  obtain rfl := find?_eq hfind
  obtain rfl := find?_eq hfind'
  obtain rfl := find?_eq hfind''
  have hinside : b.makeRule space (.contextState x c false) = .ok r :=
    Outcome.bind_eq_ok.mpr ⟨values, hvalues, hr⟩
  have hon : b.makeRule space (.contextState x c true) = .ok r' :=
    Outcome.bind_eq_ok.mpr ⟨values, hvalues, hr'⟩
  have hparents : ∀ on, ∀ a ∈ (Place.contextState x c on).parents,
      b.selector a ∈ done.map b.selector := by
    intro on a ha
    simp only [Place.parents, List.mem_cons, List.not_mem_nil, or_false] at ha
    obtain rfl | rfl | rfl := ha
    · exact List.mem_map_of_mem hroot
    · exact List.mem_map_of_mem hx
    · exact hc on
  have hadd := h.add_pair hinside hon hroot hnodup (hparents false) (hparents true)
  simp only [Place.parents, List.map_cons, List.map_nil, h.root] at hadd
  exact hadd

/-! ### Runs of a build -/

theorem addStates (h : b.Built space root? s done) (hroot : Place.root ∈ done)
    {xs : List OptionalState} (hnodup : ((done ++ xs.map Place.state).map b.selector).Nodup)
    {s' : Stylesheet} (hs' : xs.foldlM (b.addState root?) s = .ok s') :
    b.Built space root? s' (done ++ xs.map .state) := by
  refine Outcome.foldlM_induction (fun ys s => b.Built space root? s (done ++ ys.map .state))
    (by simpa using h) ?_ hs'
  rintro ys x rest u u' rfl hu hstep
  rw [List.map_append, ← List.append_assoc]
  refine hu.addState (by simp [hroot]) ?_ hstep
  simp only [List.map_append, List.map_cons, ← List.append_assoc] at hnodup ⊢
  rw [List.append_cons] at hnodup
  exact hnodup.of_append_left

theorem addContexts (h : b.Built space root? s done) (hroot : Place.root ∈ done)
    {cs : List Context}
    (hnodup : ((done ++ cs.flatMap b.theme.contextPlaces).map b.selector).Nodup)
    {s' : Stylesheet} (hs' : cs.foldlM (b.addContext root?) s = .ok s') :
    b.Built space root? s' (done ++ cs.flatMap b.theme.contextPlaces) := by
  refine Outcome.foldlM_induction
    (fun ys s => b.Built space root? s (done ++ ys.flatMap b.theme.contextPlaces))
    (by simpa using h) ?_ hs'
  rintro ys c rest u u' rfl hu hstep
  rw [List.flatMap_append, List.flatMap_singleton, ← List.append_assoc]
  refine hu.addContext (by simp [hroot]) ?_ hstep
  simp only [List.flatMap_append, List.flatMap_cons, List.map_append, ← List.append_assoc]
    at hnodup ⊢
  exact hnodup.of_append_left

theorem addContextStates (h : b.Built space root? s done) (hroot : Place.root ∈ done)
    {xs : List OptionalState} {cs : List Context} (hxs : ∀ x ∈ xs, Place.state x ∈ done)
    (hcs : ∀ c ∈ cs, ∀ on, b.selector (.context c on) ∈ done.map b.selector)
    (hnodup : ((done ++ xs.flatMap fun x => cs.flatMap (Theme.contextStatePlaces x)).map
      b.selector).Nodup) {s' : Stylesheet}
    (hs' : xs.foldlM (fun s x => cs.foldlM (fun s c => b.addContextState root? s x c) s) s =
      .ok s') :
    b.Built space root? s'
      (done ++ xs.flatMap fun x => cs.flatMap (Theme.contextStatePlaces x)) := by
  refine Outcome.foldlM_induction (fun ys s => b.Built space root? s
    (done ++ ys.flatMap fun x => cs.flatMap (Theme.contextStatePlaces x))) (by simpa using h) ?_ hs'
  rintro ys x rest u u' rfl hu hstep
  rw [List.flatMap_append, List.flatMap_singleton, ← List.append_assoc]
  refine Outcome.foldlM_induction (fun zs s => b.Built space root? s
    (done ++ (ys.flatMap fun x => cs.flatMap (Theme.contextStatePlaces x)) ++
      zs.flatMap (Theme.contextStatePlaces x))) (by simpa using hu) ?_ hstep
  rintro zs c rest' w w' rfl hw hstep'
  rw [List.flatMap_append, List.flatMap_singleton, ← List.append_assoc]
  refine hw.addContextState (by simp [hroot]) ?_ ?_ ?_ hstep'
  · simp [hxs x (by simp)]
  · intro on
    simp only [List.append_assoc]
    rw [List.map_append]
    exact List.mem_append_left _ (hcs c (by simp) on)
  · simp only [List.flatMap_append, List.flatMap_cons, List.map_append, ← List.append_assoc]
      at hnodup ⊢
    exact hnodup.of_append_left.of_append_left

end Built

/-- The rules of a theme are a plan: below the theme's own rule are those of states and contexts,
and below them those of contexts in states. -/
theorem Built.isPlan {root? : Option RuleId} {s : Stylesheet}
    (h : b.Built space root? s b.theme.places)
    (hdistinct : b.theme.DistinctSelectors b.maker.customizer)
    (htextual : ∀ q ∈ b.theme.places, q ≠ .root → (b.rule space q).declarations.Textual) :
    IsPlan (b.theme.places.map (b.planned space)) := by
  have hselector : ∀ q ∈ b.theme.places, (b.planned space q).selector = b.selector q :=
    fun q hq => (selector_eq (h.made q hq)).symm
  refine ⟨?_, ?_, ?_⟩
  · rw [h.selectors]
    exact hdistinct
  · intro e he selector hparent
    obtain ⟨q, hq, rfl⟩ := List.mem_map.mp he
    obtain ⟨a, ha, rfl⟩ := List.mem_map.mp hparent
    -- a place that counts stands for the parent
    suffices H : ∃ a' ∈ b.theme.places, b.selector a' = b.selector a ∧
        (a'.parents.map b.selector ++ [b.selector a]).Sublist (q.parents.map b.selector) by
      obtain ⟨a', ha', hsame, hsub⟩ := H
      exact ⟨_, List.mem_map_of_mem ha', (hselector a' ha').trans hsame, hsub⟩
    cases q with
    | root => cases ha
    | state x =>
        obtain rfl := List.mem_singleton.mp ha
        exact ⟨_, Theme.root_mem_places _, rfl, by simp [Place.parents]⟩
    | context c on =>
        obtain rfl := List.mem_singleton.mp ha
        exact ⟨_, Theme.root_mem_places _, rfl, by simp [Place.parents]⟩
    | contextState x c on =>
        obtain ⟨hx, hc⟩ := Theme.contextState_mem_places.mp hq
        simp only [Place.parents, List.mem_cons, List.not_mem_nil, or_false] at ha
        obtain rfl | rfl | rfl := ha
        · exact ⟨_, Theme.root_mem_places _, rfl, by simp [Place.parents]⟩
        · exact ⟨_, Theme.state_mem_places.mpr hx, rfl, by simp [Place.parents]⟩
        · obtain ⟨on', hon', hsame⟩ := Place.exists_scoping hdistinct hc on
          exact ⟨_, Theme.context_mem_places.mpr ⟨hc, hon'⟩, hsame, by simp [Place.parents]⟩
  · intro e he hbelow
    obtain ⟨q, hq, rfl⟩ := List.mem_map.mp he
    refine htextual q hq ?_
    rintro rfl
    exact hbelow rfl

end SingleBuild

open SingleBuild in
/-- A built sheet has the rules of all places of its theme. -/
theorem built_of_buildSingle {maker : RuleMaker} {t : Theme} {base : Option Theme}
    {options : ResolveOptions} {s : Stylesheet}
    (hdistinct : t.DistinctSelectors maker.customizer)
    (h : buildSingle space maker t base options = .ok s) :
    ∃ resolution root?, t.resolve base options = .ok resolution ∧
      Built space ⟨maker, t, base, options, resolution⟩ root? s t.places := by
  simp only [buildSingle, Outcome.bind_eq_ok] at h
  obtain ⟨resolution, hresolution, values, hvalues, r, hr, s₁, hs₁, s₂, hs₂, hs⟩ := h
  let b : SingleBuild := ⟨maker, t, base, options, resolution⟩
  have hmake : b.makeRule space .root = .ok r := Outcome.bind_eq_ok.mpr ⟨values, hvalues, hr⟩
  obtain rfl := rule_eq hmake
  have hfound : (({} : Stylesheet).add (b.rule space .root) []).1.find? (b.selector .root) =
      (({} : Stylesheet).add (b.rule space .root) []).2 := by
    rw [selector_eq hmake]
    exact Stylesheet.find?_add_self {} [] rfl
  have hstart : b.Built space (({} : Stylesheet).add (b.rule space .root) []).2
      (({} : Stylesheet).add (b.rule space .root) []).1 [.root] := by
    refine ⟨?_, hfound, ?_⟩
    · exact Stylesheet.Follows.start.add (e := b.planned space .root) (by simp)
        (by simp [planned, Place.parents])
    · intro q hq
      obtain rfl := List.mem_singleton.mp hq
      exact hmake
  have hnodup : (t.places.map b.selector).Nodup := hdistinct
  -- the places of each stage come first among all places, so their selectors are distinct
  have hnodup' := hnodup
  rw [Theme.places, List.map_append] at hnodup'
  have hfirst := hnodup'.of_append_left
  rw [List.map_append] at hfirst
  have h₁ := hstart.addStates (by simp) hfirst.of_append_left hs₁
  have h₂ := h₁.addContexts (by simp) hnodup'.of_append_left hs₂
  refine ⟨resolution, _, hresolution, h₂.addContextStates (by simp) ?_ ?_ hnodup hs⟩
  · intro x hx
    simp [hx]
  · intro c hc on
    obtain ⟨on', hon', hselector⟩ := Place.exists_scoping hdistinct hc on
    have hsame : b.selector (.context c on') = b.selector (.context c on) := hselector
    rw [← hsame]
    refine List.mem_map_of_mem (List.mem_append_right _ ?_)
    exact List.mem_flatMap.mpr ⟨c, hc, List.mem_map_of_mem hon'⟩

end DesignTokens
