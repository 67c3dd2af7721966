import DesignTokens.Proofs.Build.Multi

/-!
Defaults of a theme below another one, in the states of that one. The minimal form drops a default
that is also a default at `:root`, as if it were inherited from there. In a state in which the other
theme changes it that is not so: the changed value is inherited then, unless the theme has a value
of its own for the state. Nothing else can happen to a default.
-/

namespace DesignTokens

/-! ### Layers of declarations -/

namespace Declarations

variable {root state own ownState : Declarations} {property : String} {v : Value}
  {byValue byValue' byValue'' : Bool}

/-- What is kept of declarations below others. -/
def kept (own parent : Declarations) (byValue : Bool) : Declarations :=
  own.filter fun property v => keeps own parent byValue property v

theorem get?_kept (own parent : Declarations) (byValue : Bool) (property : String) :
    (own.kept parent byValue).get? property =
      (own.get? property).filter (keeps own parent byValue property) :=
  OrdMap.get?_filter _ _ _

theorem kept_empty (hown : own.Textual) (byValue : Bool) : own.kept .empty byValue = own :=
  filter_keeps_empty hown byValue

/-- A default that is the primary's is lost if the primary changes it in a state for which there is
no own value. It is not lost if it is kept for what it refers to. -/
structure Loses (root state own ownState : Declarations) (byValue : Bool) (property : String)
    (v : Value) : Prop where
  shared : root.get? property = some v
  changed : ∃ w, state.get? property = some w ∧ w ≠ v
  unstated : ownState.get? property = none
  unreferred : byValue = true ∨ own.refersToChange root v = .ok false

theorem keeps_eq_false_iff (hown : own.Textual) (hv : own.get? property = some v) :
    keeps own root byValue property v = false ↔ root.get? property = some v ∧
      (byValue = true ∨ own.refersToChange root v = .ok false) := by
  obtain ⟨text, rfl⟩ := hown property v hv
  obtain ⟨b, hb⟩ := refersToChange_ok hown root text
  simp only [keeps, Bool.or_eq_false_iff, Bool.not_eq_false', isInherited_text_iff, hb,
    Except.ok.injEq]
  cases byValue <;> cases b <;> simp [Outcome.valueOr]

/-- What a layer does not keep is given below it. -/
theorem get?_overlay_kept (ds : List Declarations) (hown : own.Textual) (byValue : Bool)
    (property : String) : (overlay (ds ++ [own.kept (overlay ds) byValue])).get? property =
      (overlay (ds ++ [own])).get? property := by
  rw [get?_overlay_append, get?_overlay_append, overlay_singleton, overlay_singleton, get?_kept]
  cases hv : own.get? property with
  | none => rfl
  | some v =>
      cases hkeeps : keeps own (overlay ds) byValue property v with
      | true => simp [Option.filter, hkeeps]
      | false => simp [Option.filter, hkeeps, get?_parent_of_dropped hown hv hkeeps]

/-- Four layers, of which the nearest three are reduced one after the other, give a property of the
third its value unless it is lost. -/
theorem get?_overlay_kept_iff (hstate : state.Textual) (hown : own.Textual)
    (hownState : ownState.Textual) (hv : own.get? property = some v) :
    (overlay [root, state.kept root byValue, own.kept root byValue',
      ownState.kept (overlay [root, state.kept root byValue, own.kept root byValue'])
        byValue'']).get? property = (overlay [root, state, own, ownState]).get? property ↔
      ¬Loses root state own ownState byValue' property v := by
  -- the third layer is the only one that is not reduced by all that is below it
  have hlayers : (overlay [root, state.kept root byValue, own.kept root byValue',
      ownState.kept (overlay [root, state.kept root byValue, own.kept root byValue'])
        byValue'']).get? property = (ownState.get? property).or
          (((own.kept root byValue').get? property).or
            ((state.get? property).or (root.get? property))) := by
    have hnearest := get?_overlay_kept
      [root, state.kept root byValue, own.kept root byValue'] hownState byValue'' property
    have hfarthest := get?_overlay_kept [root] hstate byValue property
    rw [overlay_singleton] at hfarthest
    simp only [List.cons_append, List.nil_append] at hnearest hfarthest
    rw [hnearest]
    simp only [get?_overlay_cons, overlay_nil, OrdMap.get?_empty, Option.none_or,
      Option.or_assoc] at hfarthest ⊢
    rw [hfarthest]
  have hunreduced : (overlay [root, state, own, ownState]).get? property =
      (ownState.get? property).or (some v) := by
    simp [get?_overlay_cons, hv]
  rw [hlayers, hunreduced, get?_kept, hv]
  cases hours : ownState.get? property with
  | some w =>
      exact iff_of_true rfl fun hloses => Option.some_ne_none w (hours.symm.trans hloses.unstated)
  | none =>
      rw [Option.none_or, Option.none_or]
      cases hkeeps : keeps own root byValue' property v with
      | true =>
          refine iff_of_true (by simp [Option.filter, hkeeps]) fun hloses => ?_
          have hdropped := (keeps_eq_false_iff hown hv).mpr ⟨hloses.shared, hloses.unreferred⟩
          exact Bool.noConfusion (hkeeps.symm.trans hdropped)
      | false =>
          obtain ⟨hshared, hunreferred⟩ := (keeps_eq_false_iff hown hv).mp hkeeps
          have hdropped : (some v).filter (keeps own root byValue' property) = none := by
            simp [Option.filter, hkeeps]
          rw [hdropped, Option.none_or, hshared]
          -- the default is read from the primary's layers
          constructor
          · intro hsame hloses
            obtain ⟨w, hw, hne⟩ := hloses.changed
            rw [hw, Option.some_or] at hsame
            exact hne (Option.some.inj hsame)
          · intro hkept
            cases hw : state.get? property with
            | none => rfl
            | some w =>
                by_contra hne
                exact hkept ⟨hshared, ⟨w, hw, fun heq => hne (heq ▸ rfl)⟩, hours, hunreferred⟩

end Declarations

/-! ### Rules of themes -/

/-- What a sheet declares for a place of a theme. -/
def Stylesheet.declaredAt (s : Stylesheet) (customizer : Customizer) (t : Theme) (q : Place) :
    Declarations :=
  s.declared (q.selector customizer t)

/-- What the rules of a theme and of another below it declare together in a state of the first one.
The second has a rule for the state if it has one of the same selector. -/
def Stylesheet.inState (s : Stylesheet) (customizer : Customizer) (primary t : Theme)
    (x : OptionalState) : Declarations :=
  .overlay [s.declaredAt customizer primary .root, s.declaredAt customizer primary (.state x),
    s.declaredAt customizer t .root, s.declaredAt customizer t (.state x)]

variable {N : Type} [Add N] [Sub N] [Mul N] [Div N] [LE N] [LT N] [DecidableLE N] [DecidableLT N]
  [OfScientific N] {space : ColorSpace N} {maker : RuleMaker} {options : ResolveOptions}
  {themes : List Theme} {primary t : Theme} {s m u : Stylesheet} {q : Place} {x : OptionalState}

/-- A theme's own rule has no media query. -/
theorem Theme.Makes.comparesByValue_root {below : Bool} (h : t.Makes space maker none options) :
    Stylesheet.comparesByValue ((t.build maker none options).entry space below .root).rule =
      Selector.isPageWide (Place.root.selector maker.customizer t) := by
  obtain ⟨r, hr⟩ := h.rule .root (Theme.root_mem_places t)
  have hselector : r.selector = Place.root.selector maker.customizer t :=
    (SingleBuild.selector_eq hr).symm
  have hmedia : r.isMedia = false := by
    rw [Rule.isMedia, ← SingleBuild.media_eq hr]
    rfl
  have hrule : ((t.build maker none options).entry space below .root).rule = r :=
    SingleBuild.rule_eq hr
  rw [hrule, Stylesheet.comparesByValue, hmedia, hselector, Bool.false_or]

namespace Stylesheet.Lists

variable {order : List Theme}
  (hlayers : Layered ((order.flatMap (Theme.plan space maker none options true)).map
    Planned.outline))
  (hs : s.Lists (order.flatMap (Theme.plan space maker none options true)))
  (ht : t ∈ order) (hmakes : t.Makes space maker none options) (hq : q ∈ t.places)

include hlayers hs ht hmakes hq

theorem declaredAt_eq : s.declaredAt maker.customizer t q =
    ((t.build maker none options).entry space true q).declarations := by
  rw [declaredAt, ← hmakes.selector_entry hq true]
  exact hs.declared_eq (nodup_selectors_of_layered hlayers)
    (List.mem_flatMap.mpr ⟨t, ht, List.mem_map_of_mem hq⟩)

/-- In the minimal form a place keeps what it does not get from what its spot inherits from. -/
theorem declaredAt_minimal
    (htextual : ∀ e ∈ order.flatMap (Theme.plan space maker none options true),
      e.declarations.Textual) (hm : m.IsSettledOf s) :
    m.declaredAt maker.customizer t q = (s.declaredAt maker.customizer t q).kept
      (.overlay (((q.spot t).parents true).map fun a => m.declared (a.selector maker.customizer)))
      (comparesByValue ((t.build maker none options).entry space true q).rule) := by
  have hmem : (t.build maker none options).entry space true q ∈
      order.flatMap (Theme.plan space maker none options true) :=
    List.mem_flatMap.mpr ⟨t, ht, List.mem_map_of_mem hq⟩
  have hparents : ((t.build maker none options).entry space true q).parents.map m.declared =
      ((q.spot t).parents true).map fun a => m.declared (a.selector maker.customizer) :=
    List.map_map
  rw [declaredAt_eq hlayers hs ht hmakes hq, declaredAt, ← hmakes.selector_entry hq true,
    declared_minimal hlayers htextual hs hm hmem, hparents]
  rfl

end Stylesheet.Lists

namespace Separated

variable (hsep : Separated maker.customizer themes)

include hsep

/-- Whether or not a theme has a state of this selector, there is a spot for one. -/
theorem selector_state (ht : t ∈ themes) {t' : Theme} (ht' : t' ∈ themes)
    (hx : x ∈ t'.optionalStates) : (Place.state x).selector maker.customizer t =
      Spot.selector maker.customizer ⟨t.selector.display, some x.selector.display, none⟩ := by
  have hfragments : (Place.state x).fragments t =
      Spot.fragments ⟨t.selector.display, some x.selector.display, none⟩ := by
    rw [Place.fragments, hsep.selector_text ht, hsep.state_text ht' hx]
    rfl
  rw [Place.selector, hfragments, Spot.fragments_selector]
  rfl

/-- A rule at such a spot is that of a state of the theme. -/
theorem exists_state {order : List Theme} (hsub : order ⊆ themes)
    (hmakes : ∀ t ∈ order, t.Makes space maker none options) (ht : t ∈ order) {t' : Theme}
    (ht' : t' ∈ themes) (hx : x ∈ t'.optionalStates)
    (hmem : (Place.state x).selector maker.customizer t ∈
      (order.flatMap (Theme.plan space maker none options true)).map Planned.selector) :
    ∃ y ∈ t.optionalStates, y.selector = x.selector := by
  obtain ⟨e, he, hselector⟩ := List.mem_map.mp hmem
  obtain ⟨u, hu, he⟩ := List.mem_flatMap.mp he
  obtain ⟨a, ha, heq, -⟩ := hsep.exists_spot (hsub hu) (hmakes u hu) he
  have hof : (⟨t.selector.display, some x.selector.display, none⟩ : Spot).Of hsep.vocabulary :=
    ⟨⟨t, hsub ht, hsep.selector_text (hsub ht)⟩,
      by simpa using ⟨t', ht', x, hx, hsep.state_text ht' hx⟩, by simp, fun _ => rfl⟩
  rw [hsep.selector_state (hsub ht) ht' hx, heq] at hselector
  obtain rfl := hsep.eq_of_selector_eq (hsep.of_mem_spots (hsub hu) ha) hof hselector
  have hsame : u = t := by
    refine List.inj_on_of_nodup_map hsep.distinctThemes (hsub hu) (hsub ht) ?_
    rw [hsep.selector_text (hsub hu), hsep.selector_text (hsub ht), ← Theme.theme_of_mem_spots ha]
  subst hsame
  obtain ⟨q, hq, hspot⟩ := List.mem_map.mp ha
  cases q with
  | root => cases congrArg Spot.state hspot
  | context c on => cases congrArg Spot.state hspot
  | contextState y c on => cases congrArg Spot.context hspot
  | state y =>
      have hy := Theme.state_mem_places.mp hq
      refine ⟨y, hy, ?_⟩
      rw [hsep.state_text (hsub hu) hy, hsep.state_text ht' hx]
      exact congrArg Value.text (Option.some.inj (congrArg Spot.state hspot))

end Separated

/-! ### A theme below another -/

/-- The sheet of a theme at `:root` and one below it that declare texts, with its minimal form. -/
structure Paired (space : ColorSpace N) (maker : RuleMaker) (options : ResolveOptions)
    (primary t : Theme) (u m : Stylesheet) : Prop where
  separated : Separated maker.customizer [primary, t]
  root : primary.selector = .text ":root"
  makes : ∀ t' ∈ [primary, t], t'.Makes space maker none options
  lists : u.Lists ([primary, t].flatMap (Theme.plan space maker none options true))
  textual : ∀ e ∈ [primary, t].flatMap (Theme.plan space maker none options true),
    e.declarations.Textual
  settled : m.IsSettledOf u

namespace Paired

variable (h : Paired space maker options primary t u m)

include h

theorem layers : Layered
    (([primary, t].flatMap (Theme.plan space maker none options true)).map Planned.outline) := by
  refine h.separated.layered_below List.mem_cons_self h.root ?_ h.makes
  rw [h.separated.secondary_pair h.root]

theorem display_ne : t.selector.display ≠ ":root" := by
  have hmem : t ∈ secondary [primary, t] := by simp [h.separated.secondary_pair h.root]
  obtain ⟨ht, hother⟩ := h.separated.mem_secondary.mp hmem
  exact fun heq => hother ((h.separated.selector_text ht).trans (congrArg Value.text heq))

theorem selector_root {t' : Theme} (ht' : t' ∈ [primary, t]) :
    Spot.selector maker.customizer ⟨t'.selector.display, none, none⟩ =
      Place.root.selector maker.customizer t' :=
  (h.separated.selector_eq (q := .root) ht' trivial).symm

theorem selector_bare : Spot.selector maker.customizer ⟨":root", none, none⟩ =
    Place.root.selector maker.customizer primary := by
  rw [← h.selector_root List.mem_cons_self, h.root]
  rfl

theorem textual_declaredAt {t' : Theme} (ht' : t' ∈ [primary, t]) (hq : q ∈ t'.places) :
    (u.declaredAt maker.customizer t' q).Textual := by
  rw [h.lists.declaredAt_eq h.layers ht' (h.makes t' ht') hq]
  exact h.textual _ (List.mem_flatMap.mpr ⟨t', ht', List.mem_map_of_mem hq⟩)

theorem declaredAt_minimal {t' : Theme} (ht' : t' ∈ [primary, t]) (hq : q ∈ t'.places) :
    m.declaredAt maker.customizer t' q = (u.declaredAt maker.customizer t' q).kept
      (.overlay (((q.spot t').parents true).map fun a => m.declared (a.selector maker.customizer)))
      (Stylesheet.comparesByValue ((t'.build maker none options).entry space true q).rule) :=
  h.lists.declaredAt_minimal h.layers ht' (h.makes t' ht') hq h.textual h.settled

/-- The minimal form keeps the defaults of the theme at `:root`. -/
theorem root_primary : m.declaredAt maker.customizer primary .root =
    u.declaredAt maker.customizer primary .root := by
  have hplace := Theme.root_mem_places primary
  have hparents : (Place.root.spot primary).parents true = [] := by
    rw [Place.spot, h.root]
    rfl
  rw [h.declaredAt_minimal List.mem_cons_self hplace, hparents, List.map_nil,
    Declarations.overlay_nil,
    Declarations.kept_empty (h.textual_declaredAt List.mem_cons_self hplace)]

theorem declared_bare : m.declared (Spot.selector maker.customizer ⟨":root", none, none⟩) =
    u.declaredAt maker.customizer primary .root := by
  rw [h.selector_bare, ← h.root_primary]
  rfl

/-- Of its states it keeps what differs from the defaults. -/
theorem state_primary (hx : x ∈ primary.optionalStates) :
    ∃ byValue, m.declaredAt maker.customizer primary (.state x) =
      (u.declaredAt maker.customizer primary (.state x)).kept
        (u.declaredAt maker.customizer primary .root) byValue := by
  have hparents : ((Place.state x).spot primary).parents true = [⟨":root", none, none⟩] := by
    rw [Place.spot, h.root]
    rfl
  have hkept := h.declaredAt_minimal List.mem_cons_self (Theme.state_mem_places.mpr hx)
  rw [hparents, List.map_singleton, h.declared_bare, Declarations.overlay_singleton] at hkept
  exact ⟨_, hkept⟩

/-- Of the defaults of the other theme it keeps what differs from those defaults. -/
theorem root_secondary : m.declaredAt maker.customizer t .root =
    (u.declaredAt maker.customizer t .root).kept (u.declaredAt maker.customizer primary .root)
      (Selector.isPageWide (Place.root.selector maker.customizer t)) := by
  have ht : t ∈ [primary, t] := by simp
  have hparents : (Place.root.spot t).parents true = [⟨":root", none, none⟩] :=
    Spot.parents_below h.display_ne
  rw [h.declaredAt_minimal ht (Theme.root_mem_places t), hparents, List.map_singleton,
    h.declared_bare, Declarations.overlay_singleton, (h.makes t ht).comparesByValue_root]

/-- Of its states it keeps what differs from all these together. -/
theorem state_secondary (hx : x ∈ primary.optionalStates) :
    (u.declaredAt maker.customizer t (.state x)).Textual ∧
      ∃ byValue, m.declaredAt maker.customizer t (.state x) =
        (u.declaredAt maker.customizer t (.state x)).kept
          (.overlay [m.declaredAt maker.customizer primary .root,
            m.declaredAt maker.customizer primary (.state x),
            m.declaredAt maker.customizer t .root]) byValue := by
  have hprimary : primary ∈ [primary, t] := List.mem_cons_self
  have ht : t ∈ [primary, t] := by simp
  by_cases hstate : ∃ y ∈ t.optionalStates, y.selector = x.selector
  · obtain ⟨y, hy, hselector⟩ := hstate
    have hplace := Theme.state_mem_places.mpr hy
    have hat : ∀ v : Stylesheet, v.declaredAt maker.customizer t (.state x) =
        v.declaredAt maker.customizer t (.state y) := by
      intro v
      simp only [Stylesheet.declaredAt, Place.selector, Place.fragments, hselector]
    have hparents : ((Place.state y).spot t).parents true = [⟨":root", none, none⟩,
        ⟨":root", some x.selector.display, none⟩, ⟨t.selector.display, none, none⟩] := by
      rw [← hselector]
      exact Spot.parents_below h.display_ne
    have hsame : Spot.selector maker.customizer ⟨":root", some x.selector.display, none⟩ =
        (Place.state x).selector maker.customizer primary := by
      rw [h.separated.selector_state hprimary hprimary hx, h.root]
      rfl
    have hkept := h.declaredAt_minimal ht hplace
    rw [hparents, List.map_cons, List.map_cons, List.map_singleton, h.selector_bare, hsame,
      h.selector_root ht] at hkept
    rw [hat, hat]
    exact ⟨h.textual_declaredAt ht hplace, _, hkept⟩
  · -- a state that the theme does not have has no rule, neither before nor after
    have hnot : (Place.state x).selector maker.customizer t ∉
        ([primary, t].flatMap (Theme.plan space maker none options true)).map Planned.selector :=
      fun hmem => hstate (h.separated.exists_state (List.Subset.refl _) h.makes ht hprimary hx hmem)
    have hfind := h.lists.find?_eq_none hnot
    have hbefore : u.declaredAt maker.customizer t (.state x) = .empty := by
      rw [Stylesheet.declaredAt, Stylesheet.declared, Option.map_eq_none_iff.mp hfind]
    have hafter : m.declaredAt maker.customizer t (.state x) = .empty :=
      Stylesheet.Lists.declared_of_not_find? h.settled hfind
    rw [hbefore, hafter]
    exact ⟨by simp [Declarations.Textual], false, rfl⟩

/-- The minimal form gives a default of the theme below its value in a state, unless it is lost. -/
theorem get?_inState_iff (hx : x ∈ primary.optionalStates) {property : String} {v : Value}
    (hv : (u.declaredAt maker.customizer t .root).get? property = some v) :
    (m.inState maker.customizer primary t x).get? property =
        (u.inState maker.customizer primary t x).get? property ↔
      ¬Declarations.Loses (u.declaredAt maker.customizer primary .root)
        (u.declaredAt maker.customizer primary (.state x)) (u.declaredAt maker.customizer t .root)
        (u.declaredAt maker.customizer t (.state x))
        (Selector.isPageWide (Place.root.selector maker.customizer t)) property v := by
  have hprimary : primary ∈ [primary, t] := List.mem_cons_self
  have ht : t ∈ [primary, t] := by simp
  obtain ⟨byValue, hstate⟩ := h.state_primary hx
  obtain ⟨hownState, byValue', hstate'⟩ := h.state_secondary hx
  rw [Stylesheet.inState, hstate', hstate, h.root_secondary, h.root_primary]
  exact Declarations.get?_overlay_kept_iff
    (h.textual_declaredAt hprimary (Theme.state_mem_places.mpr hx))
    (h.textual_declaredAt ht (Theme.root_mem_places t)) hownState hv

end Paired

/-! ### The sheet of `site` and `sidebar` -/

theorem separated_pair : Separated panelMaker.customizer [site, sidebar] := by
  refine separated_site.of_subset (by simp) ?_
  exact separated_site.distinctThemes.sublist (by simp)

/-- The sheet of `site` and `sidebar`. -/
def siteSheet : Stylesheet where
  rules := [{ selector := ":root", declarations := .ofList [("--ink", "black")] },
    { selector := ".d", declarations := .ofList [("--ink", "white")] },
    { selector := ".s", declarations := .ofList [("--ink", "black")] }]
  placed := .ofList [(":root", ⟨0, []⟩), (".d", ⟨1, [0]⟩), (".s", ⟨2, [0]⟩)]

/-- Its minimal form: the rule of `sidebar` is left empty. -/
def siteMinimal : Stylesheet where
  rules := [{ selector := ":root", declarations := .ofList [("--ink", "black")] },
    { selector := ".d", declarations := .ofList [("--ink", "white")] },
    { selector := ".s", declarations := .empty }]
  placed := .ofList [(":root", ⟨0, []⟩), (".d", ⟨1, [0]⟩)]

theorem buildMulti_site_sidebar :
    buildMulti Cam16.space panelMaker [site, sidebar] = .ok siteSheet := rfl

theorem minimal_siteSheet : siteSheet.minimal = .ok siteMinimal := rfl

theorem get?_ink_sidebar :
    (siteSheet.declaredAt panelMaker.customizer sidebar .root).get? "--ink" = some "black" := rfl

/-! ### Defaults that are kept -/

/-- A theme below one at `:root` has its own defaults in the states of that one, except for those
that the minimal form loses: they are also the defaults at `:root`, the state changes them there,
and the theme has no value of its own for the state. -/
theorem get?_inState_minimal_iff (hsep : Separated maker.customizer [primary, t])
    (hroot : primary.selector = .text ":root") (hplain : ∀ t' ∈ [primary, t], t'.IsPlain)
    (hinj : maker.registry.Injective) (hvars : options.useVars = false)
    (h : buildMulti space maker [primary, t] options = .ok u) :
    ∃ n, u.minimal = .ok n ∧ ∀ x ∈ primary.optionalStates, ∀ property v,
      (u.declaredAt maker.customizer t .root).get? property = some v →
        ((n.inState maker.customizer primary t x).get? property =
            (u.inState maker.customizer primary t x).get? property ↔
          ¬Declarations.Loses (u.declaredAt maker.customizer primary .root)
            (u.declaredAt maker.customizer primary (.state x))
            (u.declaredAt maker.customizer t .root) (u.declaredAt maker.customizer t (.state x))
            (Selector.isPageWide (Place.root.selector maker.customizer t)) property v) := by
  obtain ⟨n, hn, hsettled⟩ :=
    exists_minimal_of_plain hsep List.mem_cons_self hroot hplain hinj hvars h
  obtain ⟨hmakes, hlists⟩ := lists_of_buildMulti hsep List.mem_cons_self hroot h
  rw [hsep.secondary_pair hroot] at hmakes hlists
  have htextual := Theme.textual_plans true hmakes hplain hinj hvars
  have hpaired : Paired space maker options primary t u n :=
    ⟨hsep, hroot, hmakes, hlists, htextual, hsettled⟩
  exact ⟨n, hn, fun x hx property v hv => hpaired.get?_inState_iff hx hv⟩

theorem get?_inState_minimal_iff_sidebar :
    Separated panelMaker.customizer [site, sidebar] ∧ site.selector = .text ":root" ∧
      (∀ t ∈ [site, sidebar], t.IsPlain) ∧ panelMaker.registry.Injective ∧
      buildMulti Cam16.space panelMaker [site, sidebar] = .ok siteSheet ∧
      ∃ n, siteSheet.minimal = .ok n ∧
        ((n.inState panelMaker.customizer site sidebar dark).get? "--ink" =
            (siteSheet.inState panelMaker.customizer site sidebar dark).get? "--ink" ↔
          ¬Declarations.Loses (siteSheet.declaredAt panelMaker.customizer site .root)
            (siteSheet.declaredAt panelMaker.customizer site (.state dark))
            (siteSheet.declaredAt panelMaker.customizer sidebar .root)
            (siteSheet.declaredAt panelMaker.customizer sidebar (.state dark))
            (Selector.isPageWide (Place.root.selector panelMaker.customizer sidebar))
            "--ink" "black") := by
  have hplain : ∀ t ∈ [site, sidebar], t.IsPlain := fun t ht => isPlain_site t (by
    simp only [List.mem_cons, List.not_mem_nil, or_false] at ht ⊢
    exact ht.imp_right .inl)
  have hinj : panelMaker.registry.Injective := Registry.injective_of_nodup (by decide)
  have hdark : dark ∈ site.optionalStates := List.mem_singleton.mpr rfl
  obtain ⟨n, hn, hall⟩ := get?_inState_minimal_iff separated_pair rfl hplain hinj rfl
    buildMulti_site_sidebar
  exact ⟨separated_pair, rfl, hplain, hinj, buildMulti_site_sidebar, n, hn,
    hall dark hdark "--ink" "black" get?_ink_sidebar⟩

/-! ### A default that is lost -/

/-- Where it is dark the sidebar loses its own ink to that of the site. -/
theorem minimal_changes_sidebar :
    Separated panelMaker.customizer [site, sidebar] ∧ site.selector = .text ":root" ∧
      panelMaker.registry.Injective ∧ dark ∈ site.optionalStates ∧
      ∃ u n, buildMulti Cam16.space panelMaker [site, sidebar] = .ok u ∧ u.minimal = .ok n ∧
        (u.declaredAt panelMaker.customizer sidebar .root).get? "--ink" = some "black" ∧
        (u.inState panelMaker.customizer site sidebar dark).get? "--ink" = some "black" ∧
        (n.inState panelMaker.customizer site sidebar dark).get? "--ink" = some "white" := by
  have hbefore : (siteSheet.inState panelMaker.customizer site sidebar dark).get? "--ink" =
      some "black" := rfl
  have hafter : (siteMinimal.inState panelMaker.customizer site sidebar dark).get? "--ink" =
      some "white" := rfl
  exact ⟨separated_pair, rfl, Registry.injective_of_nodup (by decide), List.mem_singleton.mpr rfl,
    siteSheet, siteMinimal, buildMulti_site_sidebar, minimal_siteSheet, get?_ink_sidebar, hbefore,
    hafter⟩

end DesignTokens
