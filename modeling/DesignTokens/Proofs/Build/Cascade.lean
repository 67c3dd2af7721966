import DesignTokens.Proofs.Build.Buildable
import Mathlib.Data.List.Perm.Subperm

/-!
What the rules of a built sheet give together. At any time some optional states are on, at most one
of each mode, and an element of the theme may lie in a context. All rules for that apply; written
over one another in the order of the sheet they give every token its resolved value there, also in
the minimal form of the sheet. There a rule may lack a declaration since its own parents give the
value, but rules of other states and of the context apply as well: these either do not declare the
token, as it belongs to another mode, or give it the same value.
-/

namespace DesignTokens

/-- The state of a mode where some optional states are on: the first of these, or else the default
state. -/
def Mode.stateUnder (active : OptionalState → Bool) (mode : Mode) : Option String :=
  ((mode.optionalStates.find? active).map OptionalState.name).or mode.defaultState?

/-- What a token of a mode stands for where some optional states are on. -/
def Resolved.under (active : OptionalState → Bool) (mode? : Option Mode) :
    Resolved → Option Value
  | single v => some v
  | perState values => do values.get? (← (← mode?).stateUnder active)

/-- The place of an optional state, perhaps inside a context. -/
def Place.ofState (inside : Option (Context × Bool)) (x : OptionalState) : Place :=
  match inside with
  | none => .state x
  | some (c, on) => .contextState x c on

namespace Theme

variable {t : Theme} {active : OptionalState → Bool} {x : OptionalState} {mode : Mode}

/-- The places of the optional states that are on. -/
def statePlaces (t : Theme) (active : OptionalState → Bool) (inside : Option (Context × Bool)) :
    List Place :=
  (t.optionalStates.filter active).map (Place.ofState inside)

/-- The places whose rules apply where some optional states are on, perhaps inside a context. -/
def appliedPlaces (t : Theme) (active : OptionalState → Bool) :
    (inside : Option (Context × Bool)) → List Place
  | none => [.root] ++ t.statePlaces active none
  | some (c, on) =>
    [.root] ++ t.statePlaces active none ++ [.context c on] ++ t.statePlaces active (some (c, on))

/-- At most one state of a mode is on. -/
def Exclusive (t : Theme) (active : OptionalState → Bool) : Prop :=
  ∀ x ∈ t.optionalStates, ∀ y ∈ t.optionalStates, active x → active y →
    x.mode.id = y.mode.id → x = y

/-! ### States that are on -/

/-- The state of a mode is the one of its states that is on. -/
theorem stateUnder_of_active (hone : t.Exclusive active) (hx : x ∈ t.optionalStates)
    (hactive : active x = true) : x.mode.stateUnder active = some x.name := by
  obtain ⟨key, hkey, hxm⟩ := mem_optionalStates.mp hx
  obtain ⟨y, hy⟩ := Option.isSome_iff_exists.mp (List.find?_isSome.mpr ⟨x, hxm, hactive⟩)
  have hym := List.mem_of_find?_eq_some hy
  obtain ⟨hmode, -⟩ := mem_optionalStates_mode hym
  have hyt : y ∈ t.optionalStates := mem_optionalStates.mpr ⟨key, hmode ▸ hkey, by rwa [hmode]⟩
  obtain rfl := hone x hx y hyt hactive (List.find?_some hy) (by rw [hmode])
  rw [Mode.stateUnder, hy]
  rfl

theorem stateUnder_of_inactive {key : String} (hkey : t.modes.get? key = some mode)
    (hnone : ∀ x ∈ t.optionalStates, active x = true → x.mode ≠ mode) :
    mode.stateUnder active = mode.defaultState? := by
  have hfind : mode.optionalStates.find? active = none := by
    rw [List.find?_eq_none]
    intro x hx hactive
    obtain ⟨rfl, -⟩ := mem_optionalStates_mode hx
    exact hnone x (mem_optionalStates.mpr ⟨key, hkey, hx⟩) hactive rfl
  rw [Mode.stateUnder, hfind]
  rfl

end Theme

/-- A token's value where some states are on is that at the state of its mode. -/
theorem Resolved.under_ofStates {active : OptionalState → Bool} {mode : Mode} {state : String}
    (hstate : mode.stateUnder active = some state) (hmem : state ∈ mode.states.keys)
    (f : Option String → Value) :
    (ofStates (some mode) f).under active (some mode) = some (f (some state)) := by
  obtain ⟨a, ha⟩ := OrdMap.mem_keys_iff.mp hmem
  simp [under, ofStates, hstate, OrdMap.get?_mapWith, ha]

/-- Either one state of the token's mode is on and is the token's own, or the states that are on
pick its default value or none. -/
theorem Theme.stands {t : Theme} {active : OptionalState → Bool} (hids : t.ModesUnderIds)
    (hone : t.Exclusive active) {token : String} {default : Option String}
    (hdefault : Projection.defaults.stateFor (t.modeOf token) = some default) :
    (∃ x ∈ t.optionalStates, active x = true ∧
        x.projection.stateFor (t.modeOf token) = some (some x.name) ∧
        (∀ y ∈ t.optionalStates, active y = true → y ≠ x →
          y.projection.stateFor (t.modeOf token) = none) ∧
        ∀ f, (Resolved.ofStates (t.modeOf token) f).under active (t.modeOf token) =
          some (f (some x.name))) ∨
      (∀ x ∈ t.optionalStates, active x = true → ∀ state,
        x.projection.stateFor (t.modeOf token) = some state → state = default) ∧
        ∀ f, (Resolved.ofStates (t.modeOf token) f).under active (t.modeOf token) =
          some (f default) := by
  cases hmode : t.modeOf token with
  | none =>
      rw [hmode] at hdefault
      obtain rfl := Option.some.inj hdefault
      refine .inr ⟨?_, fun f => rfl⟩
      intro x hx hactive state hstate
      exact (Option.some.inj hstate).symm
  | some mode =>
      obtain ⟨key, hkey⟩ := get?_modes_of_modeOf hmode
      -- states that are on matter to the token only if they are states of its mode
      by_cases hon : ∃ x ∈ t.optionalStates, active x = true ∧ x.mode = mode
      · obtain ⟨x, hx, hactive, rfl⟩ := hon
        obtain ⟨-, -, hxm⟩ := mem_optionalStates.mp hx
        refine .inl ⟨x, hx, hactive, ?_, ?_, ?_⟩
        · obtain ⟨hstate, -⟩ | ⟨-, hne⟩ := stateFor_state hids hx hmode
          · rwa [hmode] at hstate
          · exact absurd rfl hne
        · intro y hy hyactive hyx
          obtain ⟨-, hsame⟩ | ⟨hstate, -⟩ := stateFor_state hids hy hmode
          · exact absurd (hone y hy x hx hyactive hactive (by rw [hsame])) hyx
          · rwa [hmode] at hstate
        · exact Resolved.under_ofStates (stateUnder_of_active hone hx hactive)
            (mem_optionalStates_mode hxm).2
      · refine .inr ⟨?_, ?_⟩
        · intro x hx hactive state hstate
          obtain ⟨-, hsame⟩ | ⟨hnone, -⟩ := stateFor_state hids hx hmode
          · exact absurd ⟨x, hx, hactive, hsame⟩ hon
          · rw [hmode, hstate] at hnone
            cases hnone
        · rw [hmode] at hdefault
          obtain ⟨state, hstate, rfl⟩ := Option.map_eq_some_iff.mp hdefault
          refine Resolved.under_ofStates ?_ (Mode.defaultState?_mem hstate)
          rw [stateUnder_of_inactive hkey fun x hx hactive hsame => hon ⟨x, hx, hactive, hsame⟩]
          exact hstate

/-! ### Rules that apply -/

theorem List.filter_contains_of_sublist {xs ys : List String} (h : xs.Sublist ys)
    (hnodup : ys.Nodup) : ys.filter xs.contains = xs := by
  have hsub : xs.Sublist (ys.filter xs.contains) := by
    have hfilter := h.filter xs.contains
    rwa [List.filter_eq_self.mpr fun x hx => List.contains_iff_mem.mpr hx] at hfilter
  have hsubset : ys.filter xs.contains ⊆ xs := fun x hx =>
    List.contains_iff_mem.mp (List.mem_filter.mp hx).2
  exact (hsub.eq_of_length_le ((hnodup.filter _).subperm hsubset).length_le).symm

theorem List.map_filter_sublist_flatMap {α β : Type} (p : α → Bool) (f : α → β) (g : α → List β)
    {xs : List α} (h : ∀ x ∈ xs, f x ∈ g x) : ((xs.filter p).map f).Sublist (xs.flatMap g) := by
  induction xs with
  | nil => exact List.Sublist.refl _
  | cons x xs ih =>
      have htail := ih fun y hy => h y (List.mem_cons_of_mem x hy)
      rw [List.flatMap_cons]
      cases hp : p x with
      | true =>
          rw [List.filter_cons_of_pos hp, List.map_cons, ← List.singleton_append]
          exact (List.singleton_sublist.mpr (h x List.mem_cons_self)).append htail
      | false =>
          rw [List.filter_cons_of_neg (by simp [hp])]
          exact htail.trans (List.sublist_append_right _ _)

namespace Theme

variable {t : Theme} {active : OptionalState → Bool} {customizer : Customizer}

/-- The rules that apply are rules of the theme, in the order of these. -/
theorem appliedPlaces_sublist (hdistinct : t.DistinctSelectors customizer)
    {inside : Option (Context × Bool)} (hinside : ∀ e ∈ inside, e.1 ∈ t.contexts.values) :
    ((t.appliedPlaces active inside).map (Place.selector customizer t)).Sublist
      (t.places.map (Place.selector customizer t)) := by
  have hstates : (t.statePlaces active none).Sublist (t.optionalStates.map .state) :=
    List.filter_sublist.map Place.state
  cases inside with
  | none =>
      refine List.Sublist.map _ ?_
      rw [places, List.append_assoc]
      exact ((List.Sublist.refl _).append hstates).trans (List.sublist_append_left _ _)
  | some e =>
      obtain ⟨c, on⟩ := e
      have hc := hinside _ rfl
      -- at `:root` the rule of the context has the selector of the place that counts
      obtain ⟨on', hon', hsame⟩ := Place.exists_scoping hdistinct hc on
      have hcontext : [Place.context c on'].Sublist
          (t.contexts.values.flatMap t.contextPlaces) := by
        refine List.singleton_sublist.mpr (List.mem_flatMap.mpr ⟨c, hc, ?_⟩)
        exact List.mem_map_of_mem hon'
      have hboth : (t.statePlaces active (some (c, on))).Sublist
          (t.optionalStates.flatMap fun x => t.contexts.values.flatMap (contextStatePlaces x)) := by
        refine List.map_filter_sublist_flatMap _ _ _ fun x hx => ?_
        refine List.mem_flatMap.mpr ⟨c, hc, ?_⟩
        cases on <;> simp [Place.ofState, contextStatePlaces]
      have hsub := (((List.Sublist.refl [Place.root]).append hstates).append hcontext).append hboth
      have hmap := hsub.map (Place.selector customizer t)
      rwa [List.map_append, List.map_append, List.map_singleton, hsame, ← List.map_singleton,
        ← List.map_append, ← List.map_append] at hmap

end Theme

variable {N : Type} [Add N] [Sub N] [Mul N] [Div N] [LE N] [LT N] [DecidableLE N] [DecidableLT N]
  [OfScientific N] {space : ColorSpace N}

namespace SingleBuild.Minimized

variable {b : SingleBuild} {s m : Stylesheet} {q : Place} {r : Resolution} {property : String}
  {token : String} {active : OptionalState → Bool} {inside : Option (Context × Bool)}

theorem get?_cascade (h : b.Minimized space s m) (active : OptionalState → Bool)
    (hinside : ∀ e ∈ inside, e.1 ∈ b.theme.contexts.values) (property : String) :
    (m.cascade ((b.theme.appliedPlaces active inside).map b.selector)).get? property =
      (Declarations.overlay ((b.theme.appliedPlaces active inside).map fun q =>
        m.declared (b.selector q))).get? property := by
  obtain ⟨root?, hbuilt⟩ := h.built
  have hsub : ((b.theme.appliedPlaces active inside).map b.selector).Sublist
      (b.theme.places.map b.selector) :=
    Theme.appliedPlaces_sublist h.declarable.distinct hinside
  have hnodup : (b.theme.places.map b.selector).Nodup := h.declarable.distinct
  rw [hbuilt.follows.get?_cascade_of_minimal h.isPlan h.minimal, hbuilt.selectors,
    List.filter_contains_of_sublist hsub hnodup, List.map_map]
  rfl

/-! ### Values where rules apply together -/

theorem outside_mem {t : Theme} :
    ∀ e ∈ (none : Option (Context × Bool)), e.1 ∈ t.contexts.values := by simp

theorem ofState_mem (hinside : ∀ e ∈ inside, e.1 ∈ b.theme.contexts.values) {x : OptionalState}
    (hx : x ∈ b.theme.optionalStates) :
    Place.ofState inside x ∈ b.theme.places ∧ Place.ofState inside x ≠ .root ∧
      (Place.ofState inside x).projection = x.projection ∧
      (Place.ofState inside x).inside? = inside.map Prod.fst := by
  cases inside with
  | none => exact ⟨Theme.state_mem_places.mpr hx, by simp [Place.ofState], rfl, rfl⟩
  | some e =>
      exact ⟨Theme.contextState_mem_places.mpr ⟨hx, hinside e rfl⟩, by simp [Place.ofState], rfl,
        rfl⟩

/-- Of the states that are on only that of the token's mode declares it. -/
theorem get?_states_of_one (h : b.Minimized space s m)
    (hinside : ∀ e ∈ inside, e.1 ∈ b.theme.contexts.values)
    (hr : b.theme.resolveInside b.options (inside.map Prod.fst) = .ok r)
    (hproperty : b.maker.registry.property? token = .ok (some property)) {x : OptionalState}
    (hx : x ∈ b.theme.optionalStates) (hactive : active x = true)
    (hothers : ∀ y ∈ b.theme.optionalStates, active y = true → y ≠ x →
      y.projection.stateFor (b.theme.modeOf token) = none) :
    (Declarations.overlay ((b.theme.statePlaces active inside).map fun q =>
      m.declared (b.selector q))).get? property =
        (m.declared (b.selector (Place.ofState inside x))).get? property := by
  rw [Theme.statePlaces, List.map_map]
  refine Declarations.get?_overlay_of_unique _ (List.mem_filter.mpr ⟨hx, hactive⟩) ?_
  intro y hy hyx
  obtain ⟨hyt, hyactive⟩ := List.mem_filter.mp hy
  obtain ⟨hmem, hne, hprojection, hin⟩ := ofState_mem hinside hyt
  simp only [Function.comp_apply]
  cases hv : (m.declared (b.selector (Place.ofState inside y))).get? property with
  | none => rfl
  | some v =>
      obtain ⟨f, state, -, hstate, -⟩ := h.value_of_declared hmem hne (hin ▸ hr) hproperty hv
      rw [hprojection, hothers y hyt hyactive hyx] at hstate
      cases hstate

/-- Where none of the states that are on is that of the token's mode, they declare it at most by its
default value. -/
theorem get?_states_of_default (h : b.Minimized space s m)
    (hinside : ∀ e ∈ inside, e.1 ∈ b.theme.contexts.values)
    (hr : b.theme.resolveInside b.options (inside.map Prod.fst) = .ok r)
    (hproperty : b.maker.registry.property? token = .ok (some property)) {default : Option String}
    (hstates : ∀ x ∈ b.theme.optionalStates, active x = true → ∀ state,
      x.projection.stateFor (b.theme.modeOf token) = some state → state = default) {v : Value}
    (hv : (Declarations.overlay ((b.theme.statePlaces active inside).map fun q =>
      m.declared (b.selector q))).get? property = some v) :
    ∃ f, r.get? token = some (.ofStates (b.theme.modeOf token) f) ∧ v = f default := by
  obtain ⟨d, hd, hdv⟩ := Declarations.exists_of_get?_overlay hv
  obtain ⟨q, hq, rfl⟩ := List.mem_map.mp hd
  obtain ⟨x, hx, rfl⟩ := List.mem_map.mp hq
  obtain ⟨hxt, hactive⟩ := List.mem_filter.mp hx
  obtain ⟨hmem, hne, hprojection, hin⟩ := ofState_mem hinside hxt
  obtain ⟨f, state, hget, hstate, rfl⟩ := h.value_of_declared hmem hne (hin ▸ hr) hproperty hdv
  rw [hprojection] at hstate
  exact ⟨f, hget, by rw [hstates x hxt hactive state hstate]⟩

/-- Then they leave a token the value that the theme's own rule gives it. -/
theorem get?_states_or_root (h : b.Minimized space s m)
    (hproperty : b.maker.registry.property? token = .ok (some property)) {default : Option String}
    (hdefault : Projection.defaults.stateFor (b.theme.modeOf token) = some default)
    (hstates : ∀ x ∈ b.theme.optionalStates, active x = true → ∀ state,
      x.projection.stateFor (b.theme.modeOf token) = some state → state = default) {v : Value}
    (hroot : (m.declared (b.selector .root)).get? property = some v) :
    ((Declarations.overlay ((b.theme.statePlaces active none).map fun q =>
      m.declared (b.selector q))).get? property).or
        ((m.declared (b.selector .root)).get? property) = some v := by
  cases hv : (Declarations.overlay ((b.theme.statePlaces active none).map fun q =>
      m.declared (b.selector q))).get? property with
  | none => rw [Option.none_or, hroot]
  | some w =>
      obtain ⟨g, hg, rfl⟩ := h.get?_states_of_default outside_mem h.resolved hproperty
        hstates hv
      obtain ⟨state, hstate, hsame⟩ := h.declared_root hproperty hg
      obtain rfl := Option.some.inj (hstate.symm.trans hdefault)
      rw [Option.some_or, ← hsame, hroot]

/-- Outside every context a token has its value in the resolution of the theme. -/
theorem get?_outside (h : b.Minimized space s m) (hids : b.theme.ModesUnderIds)
    (hone : b.theme.Exclusive active)
    (hproperty : b.maker.registry.property? token = .ok (some property))
    {f : Option String → Value}
    (hget : b.resolution.get? token = some (.ofStates (b.theme.modeOf token) f)) :
    ∃ v, (Resolved.ofStates (b.theme.modeOf token) f).under active (b.theme.modeOf token) = some v ∧
      (Declarations.overlay ((b.theme.appliedPlaces active none).map fun q =>
        m.declared (b.selector q))).get? property = some v := by
  obtain ⟨default, hdefault, hroot⟩ := h.declared_root hproperty hget
  simp only [Theme.appliedPlaces, List.map_append, List.map_singleton,
    Declarations.get?_overlay_append, Declarations.get?_overlay_cons, Declarations.overlay_nil,
    OrdMap.get?_empty, Option.none_or]
  obtain ⟨x, hx, hactive, hstate, hothers, hunder⟩ | ⟨hstates, hunder⟩ :=
    Theme.stands hids hone hdefault
  · refine ⟨_, hunder f, ?_⟩
    obtain ⟨hmem, hne, -, -⟩ := ofState_mem (b := b) outside_mem hx
    rw [h.get?_states_of_one outside_mem h.resolved hproperty hx hactive hothers]
    obtain hown | ⟨hnone, hparents⟩ :=
      h.declared_or_inherited hmem hne h.resolved hproperty hget hstate
    · rw [hown, Option.some_or]
    · rw [hnone, Option.none_or]
      simpa [Place.ofState, Place.parents, Declarations.get?_overlay_cons] using hparents
  · exact ⟨_, hunder f, h.get?_states_or_root hproperty hdefault hstates hroot⟩

/-- Inside a context it has its value in the resolution there. -/
theorem get?_inside (h : b.Minimized space s m) (hids : b.theme.ModesUnderIds)
    (hone : b.theme.Exclusive active) {c : Context} (hc : c ∈ b.theme.contexts.values) (on : Bool)
    (hr : b.theme.resolveIn c none none b.options = .ok r)
    (hproperty : b.maker.registry.property? token = .ok (some property)) {default : Option String}
    (hdefault : Projection.defaults.stateFor (b.theme.modeOf token) = some default)
    {f : Option String → Value}
    (hget : r.get? token = some (.ofStates (b.theme.modeOf token) f)) :
    ∃ v, (Resolved.ofStates (b.theme.modeOf token) f).under active (b.theme.modeOf token) = some v ∧
      (Declarations.overlay ((b.theme.appliedPlaces active (some (c, on))).map fun q =>
        m.declared (b.selector q))).get? property = some v := by
  have hinside : ∀ e ∈ some (c, on), e.1 ∈ b.theme.contexts.values := by
    rintro e ⟨⟩
    exact hc
  obtain ⟨on', hon', hsame⟩ := Place.exists_scoping h.declarable.distinct hc on
  have hselector : b.selector (.context c on') = b.selector (.context c on) := hsame
  have hcontext : Place.context c on' ∈ b.theme.places := Theme.context_mem_places.mpr ⟨hc, hon'⟩
  simp only [Theme.appliedPlaces, List.map_append, List.map_singleton,
    Declarations.get?_overlay_append, Declarations.get?_overlay_cons, Declarations.overlay_nil,
    OrdMap.get?_empty, Option.none_or]
  obtain ⟨x, hx, hactive, hstate, hothers, hunder⟩ | ⟨hstates, hunder⟩ :=
    Theme.stands hids hone hdefault
  · refine ⟨_, hunder f, ?_⟩
    obtain ⟨hmem, hne, -, -⟩ := ofState_mem (b := b) hinside hx
    rw [h.get?_states_of_one hinside hr hproperty hx hactive hothers,
      h.get?_states_of_one outside_mem h.resolved hproperty hx hactive hothers]
    obtain hown | ⟨hnone, hparents⟩ := h.declared_or_inherited hmem hne hr hproperty hget hstate
    · rw [hown, Option.some_or]
    · rw [hnone, Option.none_or]
      simpa only [Place.ofState, Place.parents, List.map_cons, List.map_nil,
        Declarations.get?_overlay_cons, Declarations.overlay_nil, OrdMap.get?_empty,
        Option.none_or, Option.or_assoc] using hparents
  · refine ⟨_, hunder f, ?_⟩
    cases hv : (Declarations.overlay ((b.theme.statePlaces active (some (c, on))).map fun q =>
        m.declared (b.selector q))).get? property with
    | some v =>
        obtain ⟨g, hg, rfl⟩ := h.get?_states_of_default hinside hr hproperty hstates hv
        rw [Option.some_or, Resolved.ofStates_inj.mp (Option.some.inj (hg.symm.trans hget)) default
          (Projection.stateFor_defaults_mem hdefault)]
    | none =>
        obtain hown | ⟨hnone, hparents⟩ :=
          h.declared_or_inherited hcontext (by simp) hr hproperty hget hdefault
        · rw [← hselector, hown, Option.none_or, Option.some_or]
        · rw [← hselector, hnone, Option.none_or, Option.none_or]
          refine h.get?_states_or_root hproperty hdefault hstates ?_
          simpa [Place.parents, Declarations.get?_overlay_cons] using hparents

end SingleBuild.Minimized

/-- The rules of a theme that apply together, of its minimal sheet and in the order of that, declare
every token that has a property by its value in the resolution of the theme, or of the theme in the
context that applies, at the states that are on. -/
theorem Theme.get?_cascade_minimal {t : Theme} {maker : RuleMaker} {options : ResolveOptions}
    (h : t.Buildable space maker options) :
    ∃ s m, buildSingle space maker t none options = .ok s ∧ s.minimal = .ok m ∧
      ∀ active, t.Exclusive active → ∀ inside : Option (Context × Bool),
        (∀ e ∈ inside, e.1 ∈ t.contexts.values) →
          ∃ r, t.resolveInside options (inside.map Prod.fst) = .ok r ∧
            ∀ token resolved property, r.get? token = some resolved →
              maker.registry.property? token = .ok (some property) →
                ∃ v, resolved.under active (t.modeOf token) = some v ∧
                  (m.cascade ((t.appliedPlaces active inside).map
                    (Place.selector maker.customizer t))).get? property = some v := by
  obtain ⟨s, hs⟩ := h.exists_buildSingle
  obtain ⟨own, m, hown, hm, hmin⟩ := h.toDeclarable.exists_minimized hs
  refine ⟨s, m, hs, hm, fun active hone inside hinside => ?_⟩
  have hcontexts : ∀ c ∈ inside.map Prod.fst, c ∈ t.contexts.values := by
    intro c hc
    obtain ⟨e, he, rfl⟩ := Option.map_eq_some_iff.mp hc
    exact hinside e he
  obtain ⟨r, hr, hfits, -⟩ := h.exists_resolveInside hcontexts
  refine ⟨r, hr, fun token resolved property hget hproperty => ?_⟩
  obtain ⟨f, rfl, -⟩ := hfits.states token resolved hget
  have hcascade := hmin.get?_cascade active hinside property
  cases inside with
  | none =>
      obtain rfl := Except.ok.inj (hown.symm.trans hr)
      obtain ⟨v, hv, hdeclared⟩ := hmin.get?_outside h.ids hone hproperty hget
      exact ⟨v, hv, hcascade.trans hdeclared⟩
  | some e =>
      obtain ⟨default, hdefault⟩ := h.exists_default token
      obtain ⟨v, hv, hdeclared⟩ :=
        hmin.get?_inside h.ids hone (hinside e rfl) e.2 hr hproperty hdefault hget
      exact ⟨v, hv, hcascade.trans hdeclared⟩

theorem Theme.get?_cascade_minimal_panel :
    panel.Buildable Cam16.space panelMaker {} ∧
      ∃ s m, buildSingle Cam16.space panelMaker panel = .ok s ∧ s.minimal = .ok m ∧
        panel.Exclusive (fun _ => true) ∧ card ∈ panel.contexts.values ∧
          (m.cascade ((panel.appliedPlaces (fun _ => true) (some (card, false))).map
            (Place.selector panelMaker.customizer panel))).get? "--line" =
              some (.text "navy") := by
  obtain ⟨s, m, hs, hm, hall⟩ := get?_cascade_minimal panel_buildable
  have hone : panel.Exclusive (fun _ => true) := by
    intro x hx y hy _ _ _
    rw [List.mem_singleton.mp hx, List.mem_singleton.mp hy]
  have hcard : ∀ e ∈ some (card, false), e.1 ∈ panel.contexts.values := by
    rintro e ⟨⟩
    exact List.mem_singleton_self card
  obtain ⟨r, hr, hvalues⟩ := hall (fun _ => true) hone (some (card, false)) hcard
  obtain rfl := Except.ok.inj (panel_resolveIn_card.symm.trans hr)
  obtain ⟨v, hv, hdeclared⟩ := hvalues "line" _ "--line" rfl rfl
  obtain rfl : .text "navy" = v := Option.some.inj hv
  exact ⟨panel_buildable, s, m, hs, hm, hone, List.mem_singleton_self card, hdeclared⟩

end DesignTokens
