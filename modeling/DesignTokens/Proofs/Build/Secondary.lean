import DesignTokens.Proofs.Build.Separated

/-!
Adding a secondary theme. Its rules are those of the theme alone; what differs is what they inherit
from, and that is told by their spots. So a theme is added by putting the rules of its plan into the
sheet one after another, whatever else is in the sheet, and this fails only if the theme has no such
rules.
-/

namespace DesignTokens

open Selector (Fragments)

variable {N : Type} [Add N] [Sub N] [Mul N] [Div N] [LE N] [LT N] [DecidableLE N] [DecidableLT N]
  [OfScientific N] {space : ColorSpace N}

/-! ### Plans of themes -/

namespace SingleBuild

/-- The rule of a place with what it inherits from, below a theme at `:root` or without one. -/
def entry (space : ColorSpace N) (b : SingleBuild) (primary : Bool) (q : Place) : Planned :=
  ⟨b.rule space q, ((q.spot b.theme).parents primary).map (Spot.selector b.maker.customizer)⟩

variable {b : SingleBuild} {themes : List Theme} {q : Place} {r : Rule}

theorem selector_rule (hsep : Separated b.maker.customizer themes) (ht : b.theme ∈ themes)
    (hq : q.IsOf b.theme) (h : b.makeRule space q = .ok r) :
    r.selector = (q.spot b.theme).selector b.maker.customizer := by
  rw [← selector_eq h]
  exact hsep.selector_eq ht hq

theorem outline_entry (hsep : Separated b.maker.customizer themes) (ht : b.theme ∈ themes)
    (hq : q.IsOf b.theme) (h : b.makeRule space q = .ok r) (primary : Bool) :
    (b.entry space primary q).outline = ((q.spot b.theme).selector b.maker.customizer,
      ((q.spot b.theme).parents primary).map (Spot.selector b.maker.customizer)) := by
  rw [← selector_rule hsep ht hq h, ← rule_eq h]
  rfl

/-- A theme alone, or one at `:root`, has its rules below its own ones. -/
theorem entry_eq_planned (hsep : Separated b.maker.customizer themes) (ht : b.theme ∈ themes)
    (hq : q.IsOf b.theme) {primary : Bool}
    (hprimary : primary = true → b.theme.selector = .text ":root") :
    b.entry space primary q = b.planned space q := by
  have hparents : (q.spot b.theme).parents primary = (q.spot b.theme).own := by
    cases primary with
    | false => exact Spot.parents_false _
    | true =>
        refine Spot.parents_of_root ?_
        have hroot : b.theme.selector.display = ":root" := by
          rw [hprimary rfl]
          rfl
        cases q <;> exact hroot
  rw [entry, planned, hparents, ← Theme.map_spot_parents, List.map_map]
  congr 1
  refine List.map_congr_left fun a ha => ?_
  refine (hsep.selector_eq ht ?_).symm
  cases q with
  | root => cases ha
  | state x =>
      obtain rfl := List.mem_singleton.mp ha
      trivial
  | context c on =>
      obtain rfl := List.mem_singleton.mp ha
      trivial
  | contextState x c on =>
      simp only [Place.parents, List.mem_cons, List.not_mem_nil, or_false] at ha
      obtain rfl | rfl | rfl := ha
      · trivial
      · exact hq.1
      · exact hq.2

end SingleBuild

namespace Theme

/-- What the rules of a theme are made from; one that does not resolve is taken for empty. -/
def build (maker : RuleMaker) (base : Option Theme) (options : ResolveOptions) (t : Theme) :
    SingleBuild :=
  ⟨maker, t, base, options, Outcome.valueOr .empty (t.resolve base options)⟩

/-- The planned rules of a theme, below a theme at `:root` or without one. -/
def plan (space : ColorSpace N) (maker : RuleMaker) (base : Option Theme)
    (options : ResolveOptions) (primary : Bool) (t : Theme) : List Planned :=
  t.places.map ((t.build maker base options).entry space primary)

/-- A theme that resolves and whose rules can all be made. -/
structure Makes (space : ColorSpace N) (maker : RuleMaker) (base : Option Theme)
    (options : ResolveOptions) (t : Theme) : Prop where
  resolves : ∃ r, t.resolve base options = .ok r
  rule : ∀ q ∈ t.places, ∃ r, (t.build maker base options).makeRule space q = .ok r

variable {maker : RuleMaker} {base : Option Theme} {options : ResolveOptions} {t : Theme}

theorem build_eq {r : Resolution} (h : t.resolve base options = .ok r) :
    t.build maker base options = ⟨maker, t, base, options, r⟩ := by
  rw [build, h]
  rfl

namespace Makes

theorem selector_entry (h : t.Makes space maker base options) {q : Place} (hq : q ∈ t.places)
    (below : Bool) : ((t.build maker base options).entry space below q).selector =
      q.selector maker.customizer t := by
  obtain ⟨r, hr⟩ := h.rule q hq
  have hselector : r.selector = q.selector maker.customizer t := (SingleBuild.selector_eq hr).symm
  rw [← hselector, ← SingleBuild.rule_eq hr]
  rfl

/-- The plan of a theme has the layers of its spots. -/
theorem map_outline {themes : List Theme} (h : t.Makes space maker base options)
    (hsep : Separated maker.customizer themes) (ht : t ∈ themes) (below : Bool) :
    (t.plan space maker base options below).map Planned.outline =
      t.spots.map fun a => (a.selector maker.customizer,
        (a.parents below).map (Spot.selector maker.customizer)) := by
  rw [plan, spots, List.map_map, List.map_map]
  refine List.map_congr_left fun q hq => ?_
  obtain ⟨r, hr⟩ := h.rule q hq
  exact SingleBuild.outline_entry hsep ht (Place.isOf_of_mem hq) hr below

/-- A plain theme declares texts only, where references are followed. -/
theorem textual (h : t.Makes space maker none options) (hplain : t.IsPlain)
    (hinj : maker.registry.Injective) (hvars : options.useVars = false) (below : Bool) :
    ∀ e ∈ t.plan space maker none options below, e.declarations.Textual := by
  intro e he
  obtain ⟨q, hq, rfl⟩ := List.mem_map.mp he
  obtain ⟨resolution, hres⟩ := h.resolves
  obtain ⟨r, hr⟩ := h.rule q hq
  rw [build_eq hres] at hr ⊢
  have hmade := (SingleBuild.rule_eq hr).symm ▸ hr
  by_cases hroot : q = .root
  · subst hroot
    exact SingleBuild.textual_declarations_root rfl hres hplain hvars hinj hmade
  · exact SingleBuild.textual_declarations rfl hres hplain hinj hmade hq hroot

end Makes

theorem textual_plans (below : Bool) {order : List Theme}
    (hmakes : ∀ t ∈ order, t.Makes space maker none options) (hplain : ∀ t ∈ order, t.IsPlain)
    (hinj : maker.registry.Injective) (hvars : options.useVars = false) :
    ∀ e ∈ order.flatMap (Theme.plan space maker none options below), e.declarations.Textual := by
  intro e he
  obtain ⟨t, ht, he⟩ := List.mem_flatMap.mp he
  exact (hmakes t ht).textual (hplain t ht) hinj hvars below e he

end Theme

/-! ### Rules of a secondary theme -/

/-- The spot of a place at a theme of some name. -/
def Place.spotIn (name : String) : Place → Spot
  | .root => ⟨name, none, none⟩
  | .state x => ⟨name, some x.selector.display, none⟩
  | .context c on => ⟨name, none, some (c.selector.display, on)⟩
  | .contextState x c on => ⟨name, some x.selector.display, some (c.selector.display, on)⟩

namespace SecondaryBuild

/-- The theme without the primary one. -/
def single (b : SecondaryBuild) : SingleBuild := ⟨b.maker, b.theme, none, b.options, b.resolution⟩

def entry (space : ColorSpace N) (b : SecondaryBuild) (q : Place) : Planned :=
  b.single.entry space true q

/-- The selector of a spot. -/
def key (b : SecondaryBuild) (a : Spot) : String := a.selector b.maker.customizer

/-- The rule of a place can be made. -/
def Makes (space : ColorSpace N) (b : SecondaryBuild) (q : Place) : Prop :=
  ∃ r, b.single.makeRule space q = .ok r

/-- Puts the rules of some places into a sheet. -/
def putAll (space : ColorSpace N) (b : SecondaryBuild) (s : Stylesheet) (qs : List Place) :
    Stylesheet :=
  (qs.map (b.entry space)).foldl Stylesheet.put s

theorem putAll_append (space : ColorSpace N) (b : SecondaryBuild) (s : Stylesheet)
    (qs qs' : List Place) :
    b.putAll space s (qs ++ qs') = b.putAll space (b.putAll space s qs) qs' := by
  rw [putAll, List.map_append, List.foldl_append]
  rfl

/-- The roots are those of the sheet. -/
structure Knows (b : SecondaryBuild) (roots : Roots) (s : Stylesheet) : Prop where
  parent : s.find? (b.key ⟨":root", none, none⟩) = roots.parent
  own : s.find? (b.key ⟨b.theme.selector.display, none, none⟩) = roots.own

theorem exists_knows (b : SecondaryBuild) (s : Stylesheet) : ∃ roots, b.Knows roots s :=
  ⟨⟨_, _⟩, rfl, rfl⟩

theorem Knows.unique {b : SecondaryBuild} {roots roots' : Roots} {s : Stylesheet}
    (h : b.Knows roots s) (h' : b.Knows roots' s) : roots = roots' := by
  obtain ⟨parent, own⟩ := roots
  obtain ⟨parent', own'⟩ := roots'
  rw [Roots.mk.injEq]
  exact ⟨h.parent.symm.trans h'.parent, h.own.symm.trans h'.own⟩

/-- A theme below one at `:root`, both among themes that can be told apart. -/
structure Below (b : SecondaryBuild) (themes : List Theme) : Prop where
  separated : Separated b.maker.customizer themes
  theme : b.theme ∈ themes
  primary : b.primary ∈ themes
  root : b.primary.selector = .text ":root"
  other : b.theme.selector ≠ .text ":root"

variable {b : SecondaryBuild} {themes : List Theme} {roots : Roots} {s s' : Stylesheet}
  {q : Place} {a : Spot} {x : OptionalState} {c : Context}

/-- A theme that resolves is added stage by stage. -/
theorem addSecondary_eq_ok_iff_stages (space : ColorSpace N) (b : SecondaryBuild)
    (hresolve : b.theme.resolve none b.options = .ok b.resolution) :
    addSecondary space b.maker b.primary b.options s b.theme = .ok s' ↔
      ∃ s₁ roots, (∃ values, b.theme.rootValues space b.resolution none b.options = .ok values ∧
        b.addRoot s values = .ok (s₁, roots)) ∧
      ∃ s₂, b.theme.optionalStates.foldlM (b.addState roots) s₁ = .ok s₂ ∧
      ∃ s₃, b.theme.contexts.values.foldlM (b.addContext roots) s₂ = .ok s₃ ∧
        b.theme.optionalStates.foldlM (fun s x => b.theme.contexts.values.foldlM
          (fun s c => b.addContextState roots s x c) s) s₃ = .ok s' := by
  rw [addSecondary, hresolve]
  simp only [Outcome.bind_eq_ok, Prod.exists, Except.ok.injEq, exists_eq_left']
  constructor
  · rintro ⟨values, hvalues, s₁, roots, hroot, hrest⟩
    exact ⟨s₁, roots, ⟨values, hvalues, hroot⟩, hrest⟩
  · rintro ⟨s₁, roots, ⟨values, hvalues, hroot⟩, hrest⟩
    exact ⟨values, hvalues, s₁, roots, hroot, hrest⟩

namespace Below

theorem display_ne (h : b.Below themes) : b.theme.selector.display ≠ ":root" := by
  intro heq
  exact h.other ((h.separated.selector_text h.theme).trans (congrArg Value.text heq))

theorem parents_spot (h : b.Below themes) (q : Place) :
    (q.spot b.theme).parents true = (q.spot b.theme).below := by
  refine Spot.parents_below ?_
  cases q <;> exact h.display_ne

/-- A spot that a rule of the theme inherits from is made of fragments of the themes. -/
theorem of_parent (h : b.Below themes) (hq : q.IsOf b.theme)
    (ha : a ∈ (q.spot b.theme).parents true) : a.Of h.separated.vocabulary := by
  refine (h.separated.of_spot h.theme hq).of_mem_parents (fun _ => ?_) ha
  exact ⟨b.primary, h.primary, h.root⟩

/-- A rule that is put changes what is found for no other spot. -/
theorem find?_put (h : b.Below themes) (s : Stylesheet) (hq : q.IsOf b.theme)
    (hmade : b.Makes space q) (ha : a.Of h.separated.vocabulary) (hne : a ≠ q.spot b.theme) :
    (s.put (b.entry space q)).find? (b.key a) = s.find? (b.key a) := by
  obtain ⟨r, hr⟩ := hmade
  have hselector : (b.entry space q).selector = b.key (q.spot b.theme) := by
    rw [Planned.selector, entry, SingleBuild.entry, SingleBuild.rule_eq hr]
    exact SingleBuild.selector_rule (b := b.single) h.separated h.theme hq hr
  refine Stylesheet.find?_put_of_ne s fun heq => hne ?_
  rw [hselector] at heq
  exact h.separated.eq_of_selector_eq ha (h.separated.of_spot h.theme hq) heq

theorem knows_put (h : b.Below themes) (hs : b.Knows roots s) (hq : q.IsOf b.theme)
    (hroot : q ≠ .root) (hmade : b.Makes space q) : b.Knows roots (s.put (b.entry space q)) := by
  have hbare : ∀ theme, (⟨theme, none, none⟩ : Spot) ≠ q.spot b.theme := by
    intro theme heq
    cases q with
    | root => exact hroot rfl
    | state x => cases congrArg Spot.state heq
    | context c on => cases congrArg Spot.context heq
    | contextState x c on => cases congrArg Spot.state heq
  have hof : ∀ theme, h.separated.vocabulary.IsTheme theme →
      (⟨theme, none, none⟩ : Spot).Of h.separated.vocabulary :=
    fun theme htheme => ⟨htheme, by simp, by simp, fun _ => rfl⟩
  have hprimary : h.separated.vocabulary.IsTheme ":root" := ⟨b.primary, h.primary, h.root⟩
  have htheme : h.separated.vocabulary.IsTheme b.theme.selector.display :=
    ⟨b.theme, h.theme, h.separated.selector_text h.theme⟩
  exact ⟨(h.find?_put s hq hmade (hof _ hprimary) (hbare _)).trans hs.parent,
    (h.find?_put s hq hmade (hof _ htheme) (hbare _)).trans hs.own⟩

/-! ### Steps -/

/-- The fragments of a place of the theme, taken with the selector of this or another theme. -/
theorem fragments_eq (h : b.Below themes) {t : Theme} {name : String} (ht : t.selector = .text name)
    (hq : q.IsOf b.theme) : q.fragments t = (q.spotIn name).fragments := by
  have hstate := fun x hx => h.separated.state_text h.theme (x := x) hx
  have hcontext := fun c hc => h.separated.context_text h.theme (c := c) hc
  cases q with
  | root =>
      rw [Place.fragments, ht]
      rfl
  | state x =>
      rw [Place.fragments, ht, hstate x hq]
      rfl
  | context c on =>
      cases on <;> (rw [Place.fragments, ht, hcontext c hq]; rfl)
  | contextState x c on =>
      cases on <;> (rw [Place.fragments, ht, hstate x hq.1, hcontext c hq.2]; rfl)

theorem addState_eq_ok (h : b.Below themes) (hs : b.Knows roots s)
    (hx : x ∈ b.theme.optionalStates) : b.addState roots s x = .ok s' ↔
      (∀ q ∈ [Place.state x], b.Makes space q) ∧ s' = b.putAll space s [.state x] := by
  have hparent : (⟨[b.primary.selector, x.selector], []⟩ : Fragments) =
      Spot.fragments ⟨":root", some x.selector.display, none⟩ :=
    h.fragments_eq (q := .state x) h.root hx
  have hput : ∀ r, b.single.makeRule space (.state x) = .ok r →
      s.put (b.entry space (.state x)) = (s.add r [roots.parent,
        s.find? (b.key ⟨":root", some x.selector.display, none⟩), roots.own]).1 := by
    intro r hr
    rw [Stylesheet.put, entry, SingleBuild.entry, SingleBuild.rule_eq hr, single, h.parents_spot,
      ← hs.parent, ← hs.own]
    rfl
  rw [List.forall_mem_singleton]
  simp only [SecondaryBuild.addState, hparent, RuleMaker.find?_spot, Outcome.bind_eq_ok,
    Outcome.pure_eq_ok, Except.ok.injEq]
  constructor
  · rintro ⟨values, hvalues, r, hr, _, rfl, rfl⟩
    have hmade : b.single.makeRule space (.state x) = .ok r :=
      Outcome.bind_eq_ok.mpr ⟨values, hvalues, hr⟩
    exact ⟨⟨r, hmade⟩, (hput r hmade).symm⟩
  · rintro ⟨⟨r, hmade⟩, rfl⟩
    obtain ⟨values, hvalues, hr⟩ := Outcome.bind_eq_ok.mp hmade
    exact ⟨values, hvalues, r, hr, _, rfl, (hput r hmade).symm⟩

/-- Rules of two places that are below the same rules are put one after the other. -/
theorem put_pair (h : b.Below themes) (s : Stylesheet) {q' : Place} {r r' : Rule}
    (hq : q.IsOf b.theme) (hq' : q'.IsOf b.theme)
    (hrank : (q.spot b.theme).rank = (q'.spot b.theme).rank)
    (hr : b.single.makeRule space q = .ok r) (hr' : b.single.makeRule space q' = .ok r') :
    (s.put (b.entry space q)).put (b.entry space q') =
      ((s.add r (((q.spot b.theme).below.map b.key).map s.find?)).1.add r'
        (((q'.spot b.theme).below.map b.key).map s.find?)).1 := by
  have hparents : ∀ a ∈ (q'.spot b.theme).below,
      (s.put (b.entry space q)).find? (b.key a) = s.find? (b.key a) := by
    intro a ha
    rw [← h.parents_spot] at ha
    refine h.find?_put s hq ⟨r, hr⟩ (h.of_parent hq' ha) ?_
    rintro rfl
    exact Nat.ne_of_lt (Spot.rank_lt ha) hrank
  have hpath : ((q'.spot b.theme).below.map b.key).map (s.put (b.entry space q)).find? =
      ((q'.spot b.theme).below.map b.key).map s.find? := by
    rw [List.map_map, List.map_map]
    exact List.map_congr_left hparents
  rw [← hpath, Stylesheet.put, Stylesheet.put, entry, entry, SingleBuild.entry, SingleBuild.entry,
    SingleBuild.rule_eq hr, SingleBuild.rule_eq hr', single, h.parents_spot, h.parents_spot]
  rfl

theorem contextPlaces_eq (h : b.Below themes) (c : Context) :
    b.theme.contextPlaces c = [.context c false, .context c true] := by
  have hother : b.theme.selector.text? ≠ some ":root" :=
    fun htext => h.other (Value.eq_text_of_text? htext)
  rw [Theme.contextPlaces, Theme.scopings, if_neg hother]
  rfl

theorem addContext_eq_ok (h : b.Below themes) (hs : b.Knows roots s)
    (hc : c ∈ b.theme.contexts.values) : b.addContext roots s c = .ok s' ↔
      (∀ q ∈ b.theme.contextPlaces c, b.Makes space q) ∧
        s' = b.putAll space s (b.theme.contextPlaces c) := by
  have hparent : (⟨[b.primary.selector], [c.selector]⟩ : Fragments) =
      Spot.fragments ⟨":root", none, some (c.selector.display, false)⟩ :=
    h.fragments_eq (q := .context c false) h.root hc
  have hput : ∀ r r', b.single.makeRule space (.context c false) = .ok r →
      b.single.makeRule space (.context c true) = .ok r' →
      (s.put (b.entry space (.context c false))).put (b.entry space (.context c true)) =
        ((s.add r [roots.parent, roots.own,
          s.find? (b.key ⟨":root", none, some (c.selector.display, false)⟩)]).1.add r'
            [roots.parent, s.find? (b.key ⟨":root", none, some (c.selector.display, false)⟩),
              roots.own]).1 := by
    intro r r' hr hr'
    have hplace : ∀ on, (Place.context c on).IsOf b.theme := fun _ => hc
    have hspot : ∀ on, (Place.context c on).spot b.theme =
        ⟨b.theme.selector.display, none, some (c.selector.display, on)⟩ := by
      intro on
      simp [Place.spot, h.display_ne]
    rw [h.put_pair s (hplace false) (hplace true) rfl hr hr', ← hs.parent, ← hs.own, hspot, hspot]
    rfl
  rw [h.contextPlaces_eq, List.forall_mem_cons, List.forall_mem_singleton]
  simp only [SecondaryBuild.addContext, hparent, RuleMaker.find?_spot, Outcome.bind_eq_ok,
    Outcome.pure_eq_ok, Except.ok.injEq]
  constructor
  · rintro ⟨values, hvalues, _, rfl, r, hr, r', hr', rfl⟩
    have hinside : b.single.makeRule space (.context c false) = .ok r :=
      Outcome.bind_eq_ok.mpr ⟨values, hvalues, hr⟩
    have hon : b.single.makeRule space (.context c true) = .ok r' :=
      Outcome.bind_eq_ok.mpr ⟨values, hvalues, hr'⟩
    exact ⟨⟨⟨r, hinside⟩, ⟨r', hon⟩⟩, (hput r r' hinside hon).symm⟩
  · rintro ⟨⟨⟨r, hinside⟩, ⟨r', hon⟩⟩, rfl⟩
    obtain ⟨values, hvalues, hr⟩ := Outcome.bind_eq_ok.mp hinside
    obtain ⟨values', hvalues', hr'⟩ := Outcome.bind_eq_ok.mp hon
    obtain rfl := Except.ok.inj (hvalues.symm.trans hvalues')
    exact ⟨values, hvalues, _, rfl, r, hr, r', hr', (hput r r' hinside hon).symm⟩

/-- The rules of a context in a state are put one after the other. One of the rules that the second
inherits from is looked for after the first was put, which makes no difference. -/
theorem put_contextStates (h : b.Below themes) (hs : b.Knows roots s)
    (hx : x ∈ b.theme.optionalStates) (hc : c ∈ b.theme.contexts.values) {r r' : Rule}
    (hr : b.single.makeRule space (.contextState x c false) = .ok r)
    (hr' : b.single.makeRule space (.contextState x c true) = .ok r') :
    (s.put (b.entry space (.contextState x c false))).put (b.entry space (.contextState x c true)) =
      let parentContext := s.find? (b.key ⟨":root", none, some (c.selector.display, false)⟩)
      let parentState := s.find? (b.key ⟨":root", some x.selector.display, none⟩)
      let parentBoth := s.find?
        (b.key ⟨":root", some x.selector.display, some (c.selector.display, false)⟩)
      let inContext := s.find?
        (b.key ⟨b.theme.selector.display, none, some (c.selector.display, false)⟩)
      let inState := s.find? (b.key ⟨b.theme.selector.display, some x.selector.display, none⟩)
      let s₁ := (s.add r [roots.parent, parentState, roots.own, inState, parentContext,
        parentBoth, inContext]).1
      (s₁.add r' [roots.parent, parentState, parentContext, roots.own,
        s₁.find? (b.key ⟨b.theme.selector.display, none, some (c.selector.display, true)⟩),
        inState, inContext]).1 := by
  have hplace : ∀ on, (Place.contextState x c on).IsOf b.theme := fun _ => ⟨hx, hc⟩
  have hkeep : (s.put (b.entry space (.contextState x c false))).find?
      (b.key ⟨b.theme.selector.display, none, some (c.selector.display, true)⟩) =
        s.find? (b.key ⟨b.theme.selector.display, none, some (c.selector.display, true)⟩) := by
    refine h.find?_put s (hplace false) ⟨r, hr⟩ ?_ (by simp [Place.spot])
    refine h.of_parent (hplace true) ?_
    rw [h.parents_spot]
    simp [Place.spot, Spot.below]
  have hfirst : s.put (b.entry space (.contextState x c false)) =
      (s.add r (((Place.contextState x c false).spot b.theme).below.map (s.find? ∘ b.key))).1 := by
    rw [Stylesheet.put, entry, SingleBuild.entry, SingleBuild.rule_eq hr, single, h.parents_spot,
      List.map_map]
    rfl
  rw [h.put_pair s (hplace false) (hplace true) rfl hr hr', ← hs.parent, ← hs.own]
  rw [hfirst] at hkeep
  simp only [Place.spot, Spot.below, List.map_cons, List.map_nil, Function.comp_apply] at hkeep ⊢
  rw [hkeep]

theorem addContextState_eq_ok (h : b.Below themes) (hs : b.Knows roots s)
    (hx : x ∈ b.theme.optionalStates) (hc : c ∈ b.theme.contexts.values) :
    b.addContextState roots s x c = .ok s' ↔
      (∀ q ∈ Theme.contextStatePlaces x c, b.Makes space q) ∧
        s' = b.putAll space s (Theme.contextStatePlaces x c) := by
  have htheme := h.separated.selector_text h.theme
  have hparentContext : (⟨[b.primary.selector], [c.selector]⟩ : Fragments) =
      Spot.fragments ⟨":root", none, some (c.selector.display, false)⟩ :=
    h.fragments_eq (q := .context c false) h.root hc
  have hparentState : (⟨[b.primary.selector, x.selector], []⟩ : Fragments) =
      Spot.fragments ⟨":root", some x.selector.display, none⟩ :=
    h.fragments_eq (q := .state x) h.root hx
  have hparentBoth : (⟨[b.primary.selector, x.selector], [c.selector]⟩ : Fragments) =
      Spot.fragments ⟨":root", some x.selector.display, some (c.selector.display, false)⟩ :=
    h.fragments_eq (q := .contextState x c false) h.root ⟨hx, hc⟩
  have hinContext : (⟨[b.theme.selector], [c.selector]⟩ : Fragments) =
      Spot.fragments ⟨b.theme.selector.display, none, some (c.selector.display, false)⟩ :=
    h.fragments_eq (q := .context c false) htheme hc
  have honContext : (⟨[b.theme.selector, c.selector], []⟩ : Fragments) =
      Spot.fragments ⟨b.theme.selector.display, none, some (c.selector.display, true)⟩ :=
    h.fragments_eq (q := .context c true) htheme hc
  have hinState : (⟨[b.theme.selector, x.selector], []⟩ : Fragments) =
      Spot.fragments ⟨b.theme.selector.display, some x.selector.display, none⟩ :=
    h.fragments_eq (q := .state x) htheme hx
  have hplaces : Theme.contextStatePlaces x c =
      [.contextState x c false, .contextState x c true] := rfl
  rw [hplaces, List.forall_mem_cons, List.forall_mem_singleton]
  simp only [SecondaryBuild.addContextState, hparentContext, hparentState, hparentBoth, hinContext,
    honContext, hinState, RuleMaker.find?_spot, Outcome.bind_eq_ok, Outcome.pure_eq_ok,
    Except.ok.injEq]
  constructor
  · rintro ⟨values, hvalues, _, rfl, _, rfl, _, rfl, _, rfl, _, rfl, r, hr, _, rfl, r', hr', rfl⟩
    have hinside : b.single.makeRule space (.contextState x c false) = .ok r :=
      Outcome.bind_eq_ok.mpr ⟨values, hvalues, hr⟩
    have hon : b.single.makeRule space (.contextState x c true) = .ok r' :=
      Outcome.bind_eq_ok.mpr ⟨values, hvalues, hr'⟩
    exact ⟨⟨⟨r, hinside⟩, ⟨r', hon⟩⟩, (h.put_contextStates hs hx hc hinside hon).symm⟩
  · rintro ⟨⟨⟨r, hinside⟩, ⟨r', hon⟩⟩, rfl⟩
    obtain ⟨values, hvalues, hr⟩ := Outcome.bind_eq_ok.mp hinside
    obtain ⟨values', hvalues', hr'⟩ := Outcome.bind_eq_ok.mp hon
    obtain rfl := Except.ok.inj (hvalues.symm.trans hvalues')
    exact ⟨values, hvalues, _, rfl, _, rfl, _, rfl, _, rfl, _, rfl, r, hr, _, rfl, r', hr',
      (h.put_contextStates hs hx hc hinside hon).symm⟩

/-- The theme's own rule is added, and then the roots are known. -/
theorem addRoot_eq_ok (h : b.Below themes)
    (hfresh : s.find? (b.key ⟨b.theme.selector.display, none, none⟩) = none) :
    (∃ values, b.theme.rootValues space b.resolution none b.options = .ok values ∧
      b.addRoot s values = .ok (s', roots)) ↔
      b.Makes space .root ∧ s' = s.put (b.entry space .root) ∧ b.Knows roots s' := by
  have hparent : (⟨[b.primary.selector], []⟩ : Fragments) =
      Spot.fragments ⟨":root", none, none⟩ :=
    h.fragments_eq (q := .root) h.root trivial
  have hput : ∀ r, b.single.makeRule space .root = .ok r →
      s.put (b.entry space .root) = (s.add r [s.find? (b.key ⟨":root", none, none⟩)]).1 := by
    intro r hr
    rw [Stylesheet.put, entry, SingleBuild.entry, SingleBuild.rule_eq hr, single, h.parents_spot]
    rfl
  have hknows : ∀ r, b.single.makeRule space .root = .ok r →
      b.Knows ⟨s.find? (b.key ⟨":root", none, none⟩),
        (s.add r [s.find? (b.key ⟨":root", none, none⟩)]).2⟩ (s.put (b.entry space .root)) := by
    intro r hr
    have hselector := SingleBuild.selector_rule (b := b.single) (q := .root) h.separated
      h.theme trivial hr
    refine ⟨?_, ?_⟩
    · have hof : (⟨":root", none, none⟩ : Spot).Of h.separated.vocabulary :=
        ⟨⟨b.primary, h.primary, h.root⟩, by simp, by simp, fun _ => rfl⟩
      refine h.find?_put s (q := .root) trivial ⟨r, hr⟩ hof fun heq => ?_
      exact h.display_ne (congrArg Spot.theme heq).symm
    · rw [hput r hr]
      have hfresh' : s.find? r.selector = none := by rw [hselector]; exact hfresh
      have hfound := s.find?_add_self [s.find? (b.key ⟨":root", none, none⟩)] hfresh'
      rwa [hselector] at hfound
  simp only [SecondaryBuild.addRoot, hparent, RuleMaker.find?_spot, Outcome.bind_eq_ok,
    Outcome.pure_eq_ok, Except.ok.injEq, Prod.mk.injEq]
  constructor
  · rintro ⟨values, hvalues, _, rfl, r, hr, rfl, rfl⟩
    have hmade : b.single.makeRule space .root = .ok r :=
      Outcome.bind_eq_ok.mpr ⟨values, hvalues, hr⟩
    have hall := hknows r hmade
    rw [hput r hmade] at hall ⊢
    exact ⟨⟨r, hmade⟩, rfl, hall⟩
  · rintro ⟨⟨r, hmade⟩, rfl, hroots⟩
    obtain ⟨values, hvalues, hr⟩ := Outcome.bind_eq_ok.mp hmade
    exact ⟨values, hvalues, _, rfl, r, hr, (hput r hmade).symm, (hknows r hmade).unique hroots⟩

/-! ### Runs -/

theorem knows_putAll (h : b.Below themes) {qs : List Place} (hs : b.Knows roots s)
    (hqs : ∀ q ∈ qs, q.IsOf b.theme ∧ q ≠ .root ∧ b.Makes space q) :
    b.Knows roots (b.putAll space s qs) := by
  induction qs generalizing s with
  | nil => exact hs
  | cons q qs ih =>
      obtain ⟨⟨hq, hroot, hmade⟩, hrest⟩ := List.forall_mem_cons.mp hqs
      exact ih (h.knows_put hs hq hroot hmade) hrest

/-- A run over some items puts the rules of all their places if each step puts those of one. -/
theorem run_eq_ok (h : b.Below themes) {α : Type} {f : Stylesheet → α → Except Fault Stylesheet}
    {places : α → List Place} {items : List α}
    (hplaces : ∀ i ∈ items, ∀ q ∈ places i, q.IsOf b.theme ∧ q ≠ .root)
    (hstep : ∀ i ∈ items, ∀ s s', b.Knows roots s → (f s i = .ok s' ↔
      (∀ q ∈ places i, b.Makes space q) ∧ s' = b.putAll space s (places i)))
    (hs : b.Knows roots s) : items.foldlM f s = .ok s' ↔
      (∀ q ∈ items.flatMap places, b.Makes space q) ∧
        s' = b.putAll space s (items.flatMap places) := by
  have hrun : items.foldlM f s = .ok s' ↔ (∀ i ∈ items, ∀ q ∈ places i, b.Makes space q) ∧
      s' = items.foldl (fun s i => b.putAll space s (places i)) s := by
    refine Outcome.foldlM_eq_ok (fun _ s => b.Knows roots s) hs ?_
    rintro done i rest u rfl hu
    refine ⟨fun u' => hstep i (by simp) u u' hu, fun hmade => ?_⟩
    refine h.knows_putAll hu fun q hq => ?_
    obtain ⟨hof, hroot⟩ := hplaces i (by simp) q hq
    exact ⟨hof, hroot, hmade q hq⟩
  rw [hrun, putAll, List.map_flatMap, List.foldl_flatMap]
  simp only [List.mem_flatMap, forall_exists_index, and_imp, putAll]
  exact and_congr_left' ⟨fun hall q i hi hq => hall i hi q hq, fun hall i hi q hq => hall q i hi hq⟩

theorem addStates_eq_ok (space : ColorSpace N) (h : b.Below themes) (hs : b.Knows roots s) :
    b.theme.optionalStates.foldlM (b.addState roots) s = .ok s' ↔
      (∀ q ∈ b.theme.optionalStates.map Place.state, b.Makes space q) ∧
        s' = b.putAll space s (b.theme.optionalStates.map .state) := by
  rw [List.map_eq_flatMap]
  refine h.run_eq_ok (fun x hx q hq => ?_) (fun x hx s s' hs => h.addState_eq_ok hs hx) hs
  obtain rfl := List.mem_singleton.mp hq
  exact ⟨hx, by simp⟩

theorem addContexts_eq_ok (space : ColorSpace N) (h : b.Below themes) (hs : b.Knows roots s) :
    b.theme.contexts.values.foldlM (b.addContext roots) s = .ok s' ↔
      (∀ q ∈ b.theme.contexts.values.flatMap b.theme.contextPlaces, b.Makes space q) ∧
        s' = b.putAll space s (b.theme.contexts.values.flatMap b.theme.contextPlaces) := by
  refine h.run_eq_ok (fun c hc q hq => ?_) (fun c hc s s' hs => h.addContext_eq_ok hs hc) hs
  obtain ⟨on, -, rfl⟩ := List.mem_map.mp hq
  exact ⟨hc, by simp⟩

theorem addContextStates_eq_ok (space : ColorSpace N) (h : b.Below themes) (hs : b.Knows roots s) :
    b.theme.optionalStates.foldlM (fun s x => b.theme.contexts.values.foldlM
      (fun s c => b.addContextState roots s x c) s) s = .ok s' ↔
      (∀ q ∈ b.theme.optionalStates.flatMap fun x =>
        b.theme.contexts.values.flatMap (Theme.contextStatePlaces x), b.Makes space q) ∧
        s' = b.putAll space s (b.theme.optionalStates.flatMap fun x =>
          b.theme.contexts.values.flatMap (Theme.contextStatePlaces x)) := by
  have hplaces : ∀ x ∈ b.theme.optionalStates, ∀ c ∈ b.theme.contexts.values,
      ∀ q ∈ Theme.contextStatePlaces x c, q.IsOf b.theme ∧ q ≠ .root := by
    intro x hx c hc q hq
    obtain ⟨on, -, rfl⟩ := List.mem_map.mp hq
    exact ⟨⟨hx, hc⟩, by simp⟩
  refine h.run_eq_ok (fun x hx q hq => ?_) (fun x hx s s' hs => ?_) hs
  · obtain ⟨c, hc, hq⟩ := List.mem_flatMap.mp hq
    exact hplaces x hx c hc q hq
  · exact h.run_eq_ok (hplaces x hx) (fun c hc s s' hs => h.addContextState_eq_ok hs hx hc) hs

/-- A theme that resolves is added by putting the rules of all its places. -/
theorem add_eq_ok (h : b.Below themes)
    (hresolve : b.theme.resolve none b.options = .ok b.resolution)
    (hfresh : s.find? (b.key ⟨b.theme.selector.display, none, none⟩) = none) :
    addSecondary space b.maker b.primary b.options s b.theme = .ok s' ↔
      (∀ q ∈ b.theme.places, b.Makes space q) ∧ s' = b.putAll space s b.theme.places := by
  -- what is known of the roots is not changed by the rules of states and contexts
  have hkeep : ∀ {u roots qs}, b.Knows roots u → (∀ q ∈ qs, b.Makes space q) →
      (∀ q ∈ qs, q ∈ b.theme.places ∧ q ≠ .root) → b.Knows roots (b.putAll space u qs) :=
    fun hu hmakes hqs => h.knows_putAll hu fun q hq =>
      ⟨Place.isOf_of_mem (hqs q hq).1, (hqs q hq).2, hmakes q hq⟩
  have hstates : ∀ q ∈ b.theme.optionalStates.map Place.state, q ∈ b.theme.places ∧ q ≠ .root := by
    intro q hq
    obtain ⟨x, hx, rfl⟩ := List.mem_map.mp hq
    exact ⟨Theme.state_mem_places.mpr hx, by simp⟩
  have hcontexts : ∀ q ∈ b.theme.contexts.values.flatMap b.theme.contextPlaces,
      q ∈ b.theme.places ∧ q ≠ .root := by
    intro q hq
    obtain ⟨c, hc, hq⟩ := List.mem_flatMap.mp hq
    obtain ⟨on, hon, rfl⟩ := List.mem_map.mp hq
    exact ⟨Theme.context_mem_places.mpr ⟨hc, hon⟩, by simp⟩
  rw [addSecondary_eq_ok_iff_stages space b hresolve]
  constructor
  · rintro ⟨s₁, roots, hroot, s₂, hs₂, s₃, hs₃, hs'⟩
    obtain ⟨hmade, rfl, hknows⟩ := (h.addRoot_eq_ok hfresh).mp hroot
    obtain ⟨hmade₂, rfl⟩ := (h.addStates_eq_ok space hknows).mp hs₂
    have hknows₂ := hkeep hknows hmade₂ hstates
    obtain ⟨hmade₃, rfl⟩ := (h.addContexts_eq_ok space hknows₂).mp hs₃
    have hknows₃ := hkeep hknows₂ hmade₃ hcontexts
    obtain ⟨hmade₄, rfl⟩ := (h.addContextStates_eq_ok space hknows₃).mp hs'
    rw [Theme.places, List.append_assoc, List.append_assoc, b.putAll_append, b.putAll_append,
      b.putAll_append]
    simp only [List.forall_mem_append, List.forall_mem_singleton]
    exact ⟨⟨hmade, hmade₂, hmade₃, hmade₄⟩, rfl⟩
  · rw [Theme.places, List.append_assoc, List.append_assoc, b.putAll_append, b.putAll_append,
      b.putAll_append]
    simp only [List.forall_mem_append, List.forall_mem_singleton]
    rintro ⟨⟨hmade, hmade₂, hmade₃, hmade₄⟩, rfl⟩
    obtain ⟨roots, hknows⟩ := b.exists_knows (s.put (b.entry space .root))
    have hknows₂ := hkeep hknows hmade₂ hstates
    have hknows₃ := hkeep hknows₂ hmade₃ hcontexts
    exact ⟨_, roots, (h.addRoot_eq_ok hfresh).mpr ⟨hmade, rfl, hknows⟩,
      _, (h.addStates_eq_ok space hknows).mpr ⟨hmade₂, rfl⟩,
      _, (h.addContexts_eq_ok space hknows₂).mpr ⟨hmade₃, rfl⟩,
      (h.addContextStates_eq_ok space hknows₃).mpr ⟨hmade₄, rfl⟩⟩

end Below

end SecondaryBuild

/-- A secondary theme is added by putting the rules of its plan. -/
theorem addSecondary_eq_ok {maker : RuleMaker} {options : ResolveOptions} {themes : List Theme}
    {primary t : Theme} {s s' : Stylesheet} (hsep : Separated maker.customizer themes)
    (hprimary : primary ∈ themes) (ht : t ∈ themes) (hroot : primary.selector = .text ":root")
    (hother : t.selector ≠ .text ":root")
    (hfresh : s.find? (Spot.selector maker.customizer ⟨t.selector.display, none, none⟩) = none) :
    addSecondary space maker primary options s t = .ok s' ↔ t.Makes space maker none options ∧
      s' = (t.plan space maker none options true).foldl Stylesheet.put s := by
  cases hresolve : t.resolve none options with
  | error e =>
      constructor
      · intro hadd
        rw [addSecondary, hresolve] at hadd
        cases hadd
      · rintro ⟨⟨⟨r, hr⟩, -⟩, -⟩
        rw [hresolve] at hr
        cases hr
  | ok resolution =>
      let b : SecondaryBuild := ⟨maker, primary, t, options, resolution⟩
      have h : b.Below themes := ⟨hsep, ht, hprimary, hroot, hother⟩
      have hbuild : t.build maker none options = b.single := Theme.build_eq hresolve
      have hmakes : t.Makes space maker none options ↔ ∀ q ∈ t.places, b.Makes space q := by
        constructor
        · intro hmakes q hq
          have hrule := hmakes.rule q hq
          rwa [hbuild] at hrule
        · intro hall
          refine ⟨⟨resolution, hresolve⟩, ?_⟩
          rwa [hbuild]
      have hplan : (t.plan space maker none options true).foldl Stylesheet.put s =
          b.putAll space s t.places := by
        rw [Theme.plan, hbuild]
        rfl
      rw [hmakes, hplan]
      exact h.add_eq_ok hresolve hfresh

end DesignTokens
