import DesignTokens.Proofs.Build.Buildable
import DesignTokens.Proofs.Palette.Generate

/-!
How building a theme fails. A build fails at the first place whose rule cannot be made, and that
rule by a fault of the compiler's own rules unless a default state is missing: that of a mode when
tokens are projected, or that of a context's default mode when maps are collapsed.
-/

namespace DesignTokens

open Outcome (FailsAs FirstFailure)

/-! ### Steps of a build -/

variable {N : Type} [Add N] [Sub N] [Mul N] [Div N] [LE N] [LT N] [DecidableLE N] [DecidableLT N]
  [OfScientific N] {space : ColorSpace N}

namespace SingleBuild

variable {b : SingleBuild} {s : Stylesheet} {root : Option RuleId} {x : OptionalState} {c : Context}

theorem makeRule_of_values {q : Place} {values : Projected} (h : b.values space q = .ok values) :
    b.makeRule space q = b.maker.make (q.fragments b.theme) q.media values := by
  rw [makeRule, h]
  rfl

/-- Where values are found, the rules of two places that declare them are made one after the
other. -/
theorem failsAs_makeTwo {q q' : Place} {values : Projected} (h : b.values space q = .ok values)
    (h' : b.values space q' = .ok values) (sheet : Rule → Rule → Stylesheet) :
    FailsAs (b.maker.make (q.fragments b.theme) q.media values >>= fun r =>
      b.maker.make (q'.fragments b.theme) q'.media values >>= fun r' => pure (sheet r r'))
      (b.makeRule space) [q, q'] := by
  rw [← makeRule_of_values h, ← makeRule_of_values h']
  exact (FailsAs.single q).bind fun _ _ => (FailsAs.single q').bind fun _ _ => .pure _

theorem failsAs_addState : FailsAs (b.addState root s x) (b.makeRule space) [.state x] := by
  refine .bind_head (fun e he => ?_) fun values hvalues => ?_
  · exact Outcome.bind_eq_error.mpr (.inl he)
  · have hplace : b.values space (.state x) = .ok values := hvalues
    have hmake := FailsAs.single (f := b.makeRule space) (.state x)
    rw [makeRule_of_values hplace] at hmake
    exact hmake.bind fun _ _ => .pure _

theorem failsAs_addContext :
    FailsAs (b.addContext root s c) (b.makeRule space) [.context c false, .context c true] := by
  refine .bind_head (fun e he => ?_) fun values hvalues => ?_
  · exact Outcome.bind_eq_error.mpr (.inl he)
  · have hplace : ∀ on, b.values space (.context c on) = .ok values := fun _ => hvalues
    exact failsAs_makeTwo (hplace false) (hplace true) _

section Selectors

variable (hselectors : ∀ q : Place, q.IsOf b.theme →
  ∃ text, (q.fragments b.theme).selector b.maker.customizer = .ok text)
include hselectors

theorem failsAs_addContextState (hx : x ∈ b.theme.optionalStates)
    (hc : c ∈ b.theme.contexts.values) :
    FailsAs (b.addContextState root s x c) (b.makeRule space)
      [.contextState x c false, .contextState x c true] := by
  have hfind : ∀ q : Place, q.IsOf b.theme →
      ∃ found, b.maker.find? s (q.fragments b.theme) = .ok found := by
    intro q hq
    obtain ⟨text, htext⟩ := hselectors q hq
    exact ⟨_, Outcome.bind_eq_ok.mpr ⟨text, htext, rfl⟩⟩
  refine .bind_head (fun e he => ?_) fun values hvalues => ?_
  · exact Outcome.bind_eq_error.mpr (.inl he)
  · have hplace : ∀ on, b.values space (.contextState x c on) = .ok values := fun _ => hvalues
    refine .bind_ok (hfind (.context c false) hc) fun inside? => ?_
    refine .bind_ok (hfind (.state x) hx) fun state? => ?_
    refine .bind_ok (hfind (.context c true) hc) fun on? => ?_
    exact failsAs_makeTwo (hplace false) (hplace true) _

/-! ### Runs of a build -/

theorem failsAs_addContextStates {states : List OptionalState}
    (hstates : ∀ x ∈ states, x ∈ b.theme.optionalStates) :
    FailsAs (states.foldlM (fun s x =>
        b.theme.contexts.values.foldlM (fun s c => b.addContextState root s x c) s) s)
      (b.makeRule space)
      (states.flatMap fun x => b.theme.contexts.values.flatMap (Theme.contextStatePlaces x)) := by
  refine FailsAs.foldlM (fun x hx s => ?_) s
  refine FailsAs.foldlM (fun c hc s => ?_) s
  exact failsAs_addContextState hselectors (hstates x hx) hc

end Selectors

theorem failsAs_addStates (states : List OptionalState) :
    FailsAs (states.foldlM (b.addState root) s) (b.makeRule space) (states.map .state) := by
  rw [List.map_eq_flatMap]
  refine FailsAs.foldlM (fun x _ s => ?_) s
  exact failsAs_addState

theorem failsAs_addContexts (contexts : List Context) :
    FailsAs (contexts.foldlM (b.addContext root) s) (b.makeRule space)
      (contexts.flatMap fun c => [.context c false, .context c true]) := by
  refine FailsAs.foldlM (fun c _ s => ?_) s
  exact failsAs_addContext

end SingleBuild

/-! ### Builds -/

variable {maker : RuleMaker} {t : Theme} {base : Option Theme} {options : ResolveOptions}

/-- A build fails to resolve the theme, or as the first of its places whose rule cannot be made. -/
theorem buildSingle_eq_error {e : Fault} (hselectors : ∀ q : Place, q.IsOf t →
      ∃ text, (q.fragments t).selector maker.customizer = .ok text) :
    buildSingle space maker t base options = .error e ↔ t.resolve base options = .error e ∨
      ∃ r, t.resolve base options = .ok r ∧
        FirstFailure (SingleBuild.makeRule space ⟨maker, t, base, options, r⟩) t.allPlaces e := by
  rw [buildSingle, Outcome.bind_eq_error]
  refine or_congr_right (exists_congr fun r => and_congr_right fun _ => ?_)
  revert e
  change FailsAs _ _ _
  rw [Theme.allPlaces, List.append_assoc, List.append_assoc]
  refine .bind_head (fun e he => ?_) fun values hvalues => ?_
  · exact Outcome.bind_eq_error.mpr (.inl he)
  · have hplace : SingleBuild.values space ⟨maker, t, base, options, r⟩ .root = .ok values :=
      hvalues
    have hroot := FailsAs.single
      (f := SingleBuild.makeRule space ⟨maker, t, base, options, r⟩) .root
    rw [SingleBuild.makeRule_of_values hplace] at hroot
    refine hroot.bind fun rule _ => ?_
    refine (SingleBuild.failsAs_addStates _).bind fun s _ => ?_
    refine (SingleBuild.failsAs_addContexts _).bind fun s _ => ?_
    exact SingleBuild.failsAs_addContextStates hselectors fun _ hx => hx

/-! ### Projections -/

/-- A state that is not there to be picked is no matter of the compiler's own rules. -/
theorem Projection.apply_of_not_picks {p : Projection} {mode : Mode} {f : Option String → Value}
    {token : String} (h : ¬ p.Picks mode) :
    ∃ e, p.apply (some mode) token (.ofStates (some mode) f) = .error e ∧
      e.isDesignFault = false := by
  cases p with
  | defaults =>
      have hnone : mode.defaultState? = none :=
        Option.eq_none_iff_forall_ne_some.mpr fun state hstate => h ⟨state, hstate⟩
      refine ⟨.noDefaultState mode.id, ?_, rfl⟩
      simp [apply, Resolved.ofStates, Mode.defaultState_eq_error.mpr ⟨hnone, rfl⟩]
  | state id chosen =>
      rw [Picks, Classical.not_imp] at h
      have hnone : mode.states.get? chosen = none := OrdMap.get?_eq_none_iff.mpr h.2
      refine ⟨.missingKey (.text chosen), ?_, rfl⟩
      simp [apply, Resolved.ofStates, h.1, pick, OrdMap.get?_mapWith, hnone]

/-- Nor does a projection fail in any other way. -/
theorem Projection.apply_eq_error {p : Projection} {mode? : Option Mode}
    {f : Option String → Value} {token : String} {e : Fault}
    (htext : ∀ state ∈ statesOf mode?, ∃ text, f state = .text text)
    (h : p.apply mode? token (.ofStates mode? f) = .error e) : e.isDesignFault = false := by
  by_cases hpick : ∀ mode ∈ mode?, p.Picks mode
  · obtain ⟨picked, hpicked⟩ := exists_apply hpick htext
    cases h.symm.trans hpicked
  · cases mode? with
    | none => exact absurd nofun hpick
    | some mode =>
        have hnot : ¬ p.Picks mode :=
          fun hmode => hpick fun _ hsame => Option.some.inj hsame ▸ hmode
        obtain ⟨e', he', hdesign⟩ := apply_of_not_picks (f := f) hnot
        exact Except.error.inj (h.symm.trans he') ▸ hdesign

namespace Resolution

variable {r : Resolution} {p : Projection}

/-- A projection finds the state that it picks in the modes of all tokens. -/
def PickedBy (r : Resolution) (t : Theme) (p : Projection) : Prop :=
  ∀ token ∈ r.keys, ∀ mode, t.modeOf token = some mode → p.Picks mode

theorem project_eq_error (hfits : r.Fits t) {e : Fault} (h : r.project t p = .error e) :
    e.isDesignFault = false := by
  obtain ⟨⟨token, resolved⟩, hmem, h⟩ := (OrdMap.filterMapM_eq_error.mp h).exists_mem
  have hget : r.get? token = some resolved := OrdMap.mem_entries_iff.mp hmem
  obtain ⟨f, rfl, htext⟩ := hfits.states token resolved hget
  rcases Outcome.bind_eq_error.mp h with hmode | ⟨mode?, hmode, h⟩
  · cases hmode.symm.trans (hfits.mode token (OrdMap.mem_keys_of_get? hget))
  · obtain rfl := Theme.modeFor_eq hmode
    rcases Outcome.bind_eq_error.mp h with happly | ⟨picked, -, h⟩
    · exact Projection.apply_eq_error htext happly
    · exact absurd h Outcome.pure_ne_error

theorem project_failsByDesign_iff (hfits : r.Fits t) :
    FailsByDesign (r.project t p) ↔ r.PickedBy t p := by
  constructor
  · intro hfails token htoken mode hmode
    by_contra hpick
    cases hproject : r.project t p with
    | error e => cases (hfails e hproject).symm.trans (project_eq_error hfits hproject)
    | ok values =>
        obtain ⟨g, hg, -⟩ := OrdMap.filterMapM_eq_ok.mp hproject
        obtain ⟨resolved, hget⟩ := OrdMap.mem_keys_iff.mp htoken
        obtain ⟨f, rfl, -⟩ := hfits.states token resolved hget
        obtain ⟨mode?, hfor, h⟩ := Outcome.bind_eq_ok.mp (hg token _ hget)
        obtain ⟨picked, hpicked, -⟩ := Outcome.bind_eq_ok.mp h
        obtain rfl := Theme.modeFor_eq hfor
        simp only [Option.getD_none, hmode] at hpicked
        obtain ⟨e, he, -⟩ := Projection.apply_of_not_picks (f := f) hpick
        cases he.symm.trans hpicked
  · intro hpicked
    exact .of_exists (exists_project hfits hpicked)

end Resolution

/-! ### Typed themes -/

/-- A context of texts. -/
structure Context.IsTyped (c : Context) : Prop where
  plain : PlainTokens c.tokens
  selector : ∃ text, c.selector = .text text
  defaultMode : c.defaultMode = .null ∨ ∃ key, c.defaultMode = .text key

/-- A theme whose fields are of the kinds they are for. Which states its modes have, and which of
them are marked as default, is left open. -/
structure Theme.IsTyped (t : Theme) : Prop where
  plain : PlainTokens t.tokens
  binds : t.BindsNames
  selector : ∃ text, t.selector = .text text
  stateSelectors : ∀ x ∈ t.optionalStates, ∃ text, x.selector = .text text
  contexts : ∀ c ∈ t.contexts.values, c.IsTyped
  palettes : ∀ palettes, t.palettes = some palettes → ∀ v ∈ palettes.values, Palette.IsTyped v

/-- The properties of tokens are texts. -/
def Registry.IsTyped (registry : Registry) : Prop :=
  ∀ v ∈ registry.properties.values, ∃ text, v = .text text

theorem Context.IsTyped.lookupName? {c : Context} (h : c.IsTyped) :
    ∃ name?, c.defaultMode.lookupName? = .ok name? := by
  rcases h.defaultMode with hdefault | ⟨key, hdefault⟩
  · exact ⟨none, by rw [hdefault]; rfl⟩
  · exact ⟨some key, by rw [hdefault]; rfl⟩

theorem Theme.IsTyped.exists_selector (h : t.IsTyped) {q : Place} (hq : q.IsOf t)
    (customizer : Customizer) : ∃ text, (q.fragments t).selector customizer = .ok text :=
  Place.exists_selector h.selector h.stateSelectors (fun c hc => (h.contexts c hc).selector) hq
    customizer

theorem Registry.property?_failsByDesign {registry : Registry} (h : registry.IsTyped)
    (token : String) : FailsByDesign (registry.property? token) := by
  unfold property?
  split
  · exact .of_exists ⟨none, rfl⟩
  · have hproperty : (registry.properties.get? token).getD .null = .null ∨
        ∃ text, (registry.properties.get? token).getD .null = .text text := by
      cases hget : registry.properties.get? token with
      | none => exact .inl rfl
      | some v => exact .inr (h v (OrdMap.mem_values_iff.mpr ⟨token, hget⟩))
    split
    · next hlist => simp [hlist] at hproperty
    · next hobject => simp [hobject] at hproperty
    · split
      · exact .of_exists ⟨_, rfl⟩
      · exact FailsByDesign.error_iff.mpr rfl

theorem RuleMaker.make_failsByDesign {fragments : Selector.Fragments} {media : Value}
    {values : Projected} (hregistry : maker.registry.IsTyped)
    (hselector : ∃ text, fragments.selector maker.customizer = .ok text) :
    FailsByDesign (maker.make fragments media values) := by
  refine FailsByDesign.bind_iff.mpr ⟨.of_exists hselector, fun selector _ => ?_⟩
  refine FailsByDesign.foldlM (fun e _ r => ?_) _
  refine FailsByDesign.bind_iff.mpr
    ⟨Registry.property?_failsByDesign hregistry e.1, fun property? _ => ?_⟩
  cases property? with
  | none => exact .of_exists ⟨_, rfl⟩
  | some property => exact .of_exists ⟨_, rfl⟩

/-! ### Rules of places -/

/-- Inside its context, if it has one, a place has the states that it needs: that of the context's
default mode for maps of the context, and the one that it picks for each of its tokens. -/
structure Place.IsSound (t : Theme) (options : ResolveOptions) (q : Place) : Prop where
  fits : ∀ c ∈ q.inside?, t.FitsDefault c
  picks : ∀ r, t.resolveInside options q.inside? = .ok r → r.PickedBy t q.projection

variable {space : ColorSpace Float} {q : Place}

theorem Theme.IsTyped.withPaletteValues_failsByDesign (htyped : t.IsTyped) (values : Projected) :
    FailsByDesign (t.withPaletteValues space options values) := by
  have hpalettes : FailsByDesign (t.paletteTokens space) := by
    unfold paletteTokens
    split
    · exact .of_exists ⟨_, rfl⟩
    · next palettes h => exact Palette.tokens_failsByDesign (htyped.palettes palettes h) _
  unfold withPaletteValues
  split
  · exact FailsByDesign.bind_iff.mpr ⟨hpalettes, fun _ _ => .of_exists ⟨_, rfl⟩⟩
  · exact .of_exists ⟨_, rfl⟩

theorem Theme.IsTyped.resolve_failsByDesign (htyped : t.IsTyped) :
    FailsByDesign (t.resolve none options) := by
  have hbinds : ((none : Option Theme).getD t).BindsNames := htyped.binds
  exact Theme.resolve_failsByDesign hbinds

theorem Theme.IsTyped.resolveInside_failsByDesign_iff (htyped : t.IsTyped)
    {inside : Option Context} (hinside : ∀ c ∈ inside, c.IsTyped) :
    FailsByDesign (t.resolveInside options inside) ↔ ∀ c ∈ inside, t.FitsDefault c := by
  cases inside with
  | none => simpa [resolveInside] using htyped.resolve_failsByDesign
  | some c =>
      simp only [resolveInside, Option.mem_def, Option.some.injEq, forall_eq']
      exact resolveIn_failsByDesign_iff htyped.binds (hinside c rfl).lookupName?

namespace SingleBuild

variable {b : SingleBuild}

/-- The rule of a place is made, or fails by design, exactly if the place is sound. -/
theorem makeRule_failsByDesign_iff (htyped : b.theme.IsTyped)
    (hregistry : b.maker.registry.IsTyped) (hbase : b.base = none)
    (hres : b.theme.resolve none b.options = .ok b.resolution) (hq : q.IsOf b.theme) :
    FailsByDesign (b.makeRule space q) ↔ q.IsSound b.theme b.options := by
  have hinside : ∀ c ∈ q.inside?, c.IsTyped :=
    fun c hc => htyped.contexts c (Place.inside?_mem hq c hc)
  have hmake : ∀ values, FailsByDesign (b.maker.make (q.fragments b.theme) q.media values) :=
    fun values => RuleMaker.make_failsByDesign hregistry (htyped.exists_selector hq _)
  have hproject : ∀ r, b.theme.resolveInside b.options q.inside? = .ok r →
      (FailsByDesign (r.project b.theme q.projection) ↔ r.PickedBy b.theme q.projection) :=
    fun r hr => Resolution.project_failsByDesign_iff
      (Theme.fits_of_plain htyped.plain (fun c hc => (hinside c hc).plain) hr)
  have hsound : FailsByDesign (b.theme.resolveInside b.options q.inside? >>= fun r =>
      r.project b.theme q.projection) ↔ q.IsSound b.theme b.options := by
    rw [FailsByDesign.bind_iff, htyped.resolveInside_failsByDesign_iff hinside,
      forall₂_congr hproject]
    exact ⟨fun h => ⟨h.1, h.2⟩, fun h => ⟨h.fits, h.picks⟩⟩
  rw [makeRule, FailsByDesign.bind_iff, and_iff_left fun values _ => hmake values, ← hsound]
  by_cases hroot : q = .root
  · obtain rfl := hroot
    rw [values_root hbase hres, FailsByDesign.bind_iff,
      and_iff_left fun values _ => htyped.withPaletteValues_failsByDesign values]
    rfl
  · rw [values_eq hbase hres hroot]

/-- The rules of all places before one are made. -/
def Reaches (space : ColorSpace Float) (b : SingleBuild) (q : Place) : Prop :=
  ∃ before after, b.theme.allPlaces = before ++ q :: after ∧
    ∀ x ∈ before, ∃ rule, b.makeRule space x = .ok rule

end SingleBuild

/-- A build fails by design exactly if all places are sound that it comes to. -/
theorem buildSingle_failsByDesign_iff (htyped : t.IsTyped) (hregistry : maker.registry.IsTyped) :
    FailsByDesign (buildSingle space maker t none options) ↔
      ∀ r, t.resolve none options = .ok r →
        ∀ q, SingleBuild.Reaches space ⟨maker, t, none, options, r⟩ q → q.IsSound t options := by
  have hfailure : ∀ e, buildSingle space maker t none options = .error e ↔ _ :=
    fun e => buildSingle_eq_error fun q hq => htyped.exists_selector hq maker.customizer
  have hplace : ∀ {r q}, t.resolve none options = .ok r → q.IsOf t →
      (FailsByDesign (SingleBuild.makeRule space ⟨maker, t, none, options, r⟩ q) ↔
        q.IsSound t options) :=
    fun hr hq => SingleBuild.makeRule_failsByDesign_iff htyped hregistry rfl hr hq
  constructor
  · rintro hfails r hr q ⟨before, after, hplaces, hmade⟩
    have hq : q.IsOf t :=
      Theme.mem_allPlaces.mp (hplaces ▸ List.mem_append_right _ List.mem_cons_self)
    refine (hplace hr hq).mp fun e he => hfails e ((hfailure e).mpr (.inr ⟨r, hr, ?_⟩))
    exact Outcome.firstFailure_iff.mpr ⟨before, q, after, hplaces, hmade, he⟩
  · intro hsound e he
    rcases (hfailure e).mp he with hresolve | ⟨r, hr, hfirst⟩
    · exact htyped.resolve_failsByDesign e hresolve
    · obtain ⟨before, q, after, hplaces, hmade, hq⟩ := Outcome.firstFailure_iff.mp hfirst
      have hof : q.IsOf t :=
        Theme.mem_allPlaces.mp (hplaces ▸ List.mem_append_right _ List.mem_cons_self)
      exact (hplace hr hof).mpr (hsound r hr q ⟨before, after, hplaces, hmade⟩) e hq

/-! ### All operations of a theme -/

/-- Resolving a theme fails by design. Inside a context it does if the context fits its default
mode, and projecting what was resolved does if the projection finds its state in the mode of every
token. A build does if all places that it comes to are sound. -/
theorem Theme.IsTyped.failsByDesign_iff (htyped : t.IsTyped)
    (hregistry : maker.registry.IsTyped) :
    FailsByDesign (t.resolve none options) ∧
    (∀ c : Context, c.IsTyped →
      (FailsByDesign (t.resolveIn c none none options) ↔ t.FitsDefault c)) ∧
    (∀ inside : Option Context, (∀ c ∈ inside, c.IsTyped) →
      ∀ r, t.resolveInside options inside = .ok r →
        ∀ p, FailsByDesign (r.project t p) ↔ r.PickedBy t p) ∧
    (FailsByDesign (buildSingle space maker t none options) ↔
      ∀ r, t.resolve none options = .ok r →
        ∀ q, SingleBuild.Reaches space ⟨maker, t, none, options, r⟩ q → q.IsSound t options) := by
  refine ⟨htyped.resolve_failsByDesign, fun c hc => ?_, fun inside hinside r hr p => ?_, ?_⟩
  · exact resolveIn_failsByDesign_iff htyped.binds hc.lookupName?
  · have hfits := fits_of_plain htyped.plain (fun c hc => (hinside c hc).plain) hr
    exact Resolution.project_failsByDesign_iff hfits
  · exact buildSingle_failsByDesign_iff htyped hregistry

/-! ### Modes and maps without default -/

/-- A mode without default state. -/
def duality : Mode where
  id := "duality"
  states := .ofList [("day", .optional ".day" .null), ("night", .optional ".night" .null)]
  id_truthy := rfl

def weight : Mode where
  id := "weight"
  states := .ofList [("thin", .fallback true), ("bold", .optional ".bold" .null)]
  id_truthy := rfl

/-- Sets the line in one state of its default mode, but not in the default one. -/
def boldCard : Context where
  id := "card"
  selector := ".c"
  tokens := .ofList [("line", .states (.ofList [("bold", "2")]))]
  defaultMode := "weight"

def groundless : Theme where
  id := "groundless"
  selector := ".g"
  tokens := .ofList [("ink", .states (.ofList [("day", "black"), ("night", "white")])),
    ("line", .text "8")]
  modes := .ofList [("duality", duality), ("weight", weight)]
  bindings := .ofList [("ink", "duality")]
  contexts := .ofList [("card", boldCard)]

theorem isTyped_groundless : groundless.IsTyped where
  plain := by
    refine .of_entries (List.forall_mem_cons.mpr ⟨?_, List.forall_mem_singleton.mpr trivial⟩)
    exact List.forall_mem_cons.mpr ⟨⟨_, rfl⟩, List.forall_mem_singleton.mpr ⟨_, rfl⟩⟩
  binds := by
    intro token v h
    obtain ⟨-, rfl⟩ := Prod.mk.inj (List.mem_singleton.mp (OrdMap.mem_entries_iff.mpr h))
    exact ⟨"duality", rfl⟩
  selector := ⟨_, rfl⟩
  stateSelectors := by
    have hstates : groundless.optionalStates = [⟨duality, "day", ".day", .null⟩,
        ⟨duality, "night", ".night", .null⟩, ⟨weight, "bold", ".bold", .null⟩] := rfl
    rw [hstates]
    simp
  contexts := by
    refine List.forall_mem_singleton.mpr ⟨?_, ⟨_, rfl⟩, .inr ⟨_, rfl⟩⟩
    exact .of_entries (List.forall_mem_singleton.mpr (List.forall_mem_singleton.mpr ⟨_, rfl⟩))
  palettes := nofun

theorem isTyped_panelRegistry : panelMaker.registry.IsTyped :=
  List.forall_mem_cons.mpr ⟨⟨_, rfl⟩, List.forall_mem_singleton.mpr ⟨_, rfl⟩⟩

theorem failsByDesign_iff_groundless :
    groundless.IsTyped ∧ panelMaker.registry.IsTyped ∧
    FailsByDesign (groundless.resolve none {}) ∧
    (∀ c : Context, c.IsTyped →
      (FailsByDesign (groundless.resolveIn c none none {}) ↔ groundless.FitsDefault c)) ∧
    (∀ inside : Option Context, (∀ c ∈ inside, c.IsTyped) →
      ∀ r, groundless.resolveInside {} inside = .ok r →
        ∀ p, FailsByDesign (r.project groundless p) ↔ r.PickedBy groundless p) ∧
    (FailsByDesign (buildSingle Cam16.space panelMaker groundless none {}) ↔
      ∀ r, groundless.resolve none {} = .ok r →
        ∀ q, SingleBuild.Reaches Cam16.space ⟨panelMaker, groundless, none, {}, r⟩ q →
          q.IsSound groundless {}) :=
  ⟨isTyped_groundless, isTyped_panelRegistry,
    isTyped_groundless.failsByDesign_iff isTyped_panelRegistry⟩

/-- The ink has no default, so it cannot be projected and no rule is made. The card's line has none
at the default state of the card's mode. -/
theorem groundless_fails :
    groundless.IsTyped ∧ panelMaker.registry.IsTyped ∧
    (∃ r, groundless.resolve none {} = .ok r ∧
      r.project groundless .defaults = .error (.noDefaultState "duality")) ∧
    buildSingle Cam16.space panelMaker groundless none {} =
      .error (.noDefaultState "duality") ∧
    (∃ c ∈ groundless.contexts.values,
      groundless.resolveIn c none none {} = .error (.missingKey "thin")) ∧
    (Fault.noDefaultState "duality").isDesignFault = false ∧
    (Fault.missingKey "thin").isDesignFault = false := by
  refine ⟨isTyped_groundless, isTyped_panelRegistry, ⟨_, rfl, rfl⟩, rfl,
    ⟨boldCard, List.mem_singleton.mpr rfl, rfl⟩, rfl, rfl⟩

end DesignTokens
