import DesignTokens.Proofs.Resolution.Context
import DesignTokens.Proofs.Resolution.Failing

/-!
How resolving inside a context fails. A map by state on a token without mode is reduced to the entry
at the default state of one mode, and there is a failure for each thing that may be missing for it.
Once the context's assignments are in force, walks fail as in any theme.
-/

namespace DesignTokens

namespace Theme

variable {t : Theme} {c : Context} {options : ResolveOptions} {token : String} {a : Assignment}
  {e : Fault}

/-- Why a context's map by state cannot be collapsed. -/
inductive Uncollapsed (t : Theme) (c : Context) (token : String) (values : OrdMap Value) :
    Fault → Prop where
  | binding {e : Fault} (h : t.modeFor token = .error e) : Uncollapsed t c token values e
  | defaultMode {e : Fault} (free : t.modeFor token = .ok none)
      (h : t.contextMode? c values = .error e) : Uncollapsed t c token values e
  | unbound (free : t.modeFor token = .ok none) (h : t.contextMode? c values = .ok none) :
      Uncollapsed t c token values (.unboundModeValue c.id token)
  | noDefault {mode : Mode} (free : t.modeFor token = .ok none)
      (h : t.contextMode? c values = .ok (some mode)) (hnone : mode.defaultState? = none) :
      Uncollapsed t c token values (.noDefaultState mode.id)
  | missing {mode : Mode} {state : String} (free : t.modeFor token = .ok none)
      (h : t.contextMode? c values = .ok (some mode)) (hstate : mode.defaultState? = some state)
      (hnone : values.get? state = none) :
      Uncollapsed t c token values (.missingKey (.text state))

theorem collapse_eq_error : t.collapse c token a = .error e ↔
    ∃ values, a = .states values ∧ t.Uncollapsed c token values e := by
  constructor
  · intro h
    cases a with
    | text s => cases h
    | other v hv => cases h
    | states values =>
        refine ⟨values, rfl, ?_⟩
        rcases Outcome.bind_eq_error.mp h with hmode | ⟨mode?, hfree, h⟩
        · exact .binding hmode
        · cases mode? with
          | some mode => cases h
          | none =>
              rcases Outcome.bind_eq_error.mp h with hcontext | ⟨found?, hfound, h⟩
              · exact .defaultMode hfree hcontext
              · cases found? with
                | none => exact Except.error.inj h ▸ .unbound hfree hfound
                | some mode =>
                    rcases Outcome.bind_eq_error.mp h with herror | ⟨state, hstate, h⟩
                    · obtain ⟨hnone, rfl⟩ := Mode.defaultState_eq_error.mp herror
                      exact .noDefault hfree hfound hnone
                    · split at h
                      · cases h
                      · next hentry =>
                          have hdefault := Mode.defaultState_eq_ok.mp hstate
                          exact Except.error.inj h ▸ .missing hfree hfound hdefault hentry
  · rintro ⟨values, rfl, h⟩
    cases h with
    | binding h => simp [collapse, h]
    | defaultMode free h => simp [collapse, free, h]
    | unbound free h => simp [collapse, free, h]
    | noDefault free h hnone => simp [collapse, free, h, Mode.defaultState, hnone]
    | missing free h hstate hnone => simp [collapse, free, h, Mode.defaultState, hstate, hnone]

theorem contextMode?_eq_error {values : OrdMap Value} (h : t.contextMode? c values = .error e) :
    e = .wrongKind := by
  rcases Outcome.bind_eq_error.mp h with hlookup | ⟨name?, -, h⟩
  · exact Value.lookupName?_eq_error hlookup
  · split at h
    · exact absurd h Outcome.pure_ne_error
    · exact absurd h Outcome.pure_ne_error

/-- Collapsing leaves an assignment as it is, or takes an entry of a map by state. -/
theorem collapse_cases {a' : Assignment} (h : t.collapse c token a = .ok a') :
    a' = a ∨ ∃ values state v, a = .states values ∧ values.get? state = some v ∧
      a' = .ofValue v := by
  cases a with
  | text s => exact .inl (Except.ok.inj h).symm
  | other v hv => exact .inl (Except.ok.inj h).symm
  | states values =>
      obtain ⟨mode?, -, h⟩ := Outcome.bind_eq_ok.mp h
      split at h
      · exact .inl (Outcome.pure_eq_ok.mp h).symm
      · obtain ⟨found?, -, h⟩ := Outcome.bind_eq_ok.mp h
        cases found? with
        | none => cases h
        | some mode =>
            obtain ⟨state, -, h⟩ := Outcome.bind_eq_ok.mp h
            split at h
            · next v hentry =>
                exact .inr ⟨values, state, v, rfl, hentry, (Outcome.pure_eq_ok.mp h).symm⟩
            · cases h

variable (t c token) in
theorem collapsed_cases (ha : a.IsPlain) : t.collapsed c token a = a ∨
    ∃ values state text, a = .states values ∧ values.get? state = some (.text text) ∧
      t.collapsed c token a = .text text := by
  unfold collapsed
  cases hcollapse : t.collapse c token a with
  | error e => exact .inl rfl
  | ok a' =>
      rcases collapse_cases hcollapse with rfl | ⟨values, state, v, rfl, hentry, rfl⟩
      · exact .inl rfl
      · obtain ⟨text, hv⟩ := ha (state, v) (OrdMap.mem_entries_iff.mpr hentry)
        obtain rfl : v = .text text := hv
        exact .inr ⟨values, state, text, rfl, hentry, rfl⟩

theorem collapsed_isPlain (ha : a.IsPlain) : (t.collapsed c token a).IsPlain := by
  rcases collapsed_cases t c token ha with heq | ⟨_, _, _, _, _, heq⟩
  · rwa [heq]
  · rw [heq]
    trivial

/-- Collapsing all assignments fails as one of them does. -/
theorem collapseAll_eq_error {tokens : OrdMap Assignment} : t.collapseAll c tokens = .error e ↔
    Outcome.FirstFailure (fun entry => t.collapse c entry.1 entry.2) tokens.entries e :=
  OrdMap.mapM_eq_error

/-- No failure of collapsing is one of a walk. -/
theorem fault_of_collapseAll {tokens : OrdMap Assignment} (h : t.collapseAll c tokens = .error e) :
    e = .wrongKind ∨ (∃ token, e = .unboundModeValue c.id token) ∨
      (∃ mode, e = .noDefaultState mode) ∨ ∃ state, e = .missingKey state := by
  obtain ⟨entry, -, he⟩ := (collapseAll_eq_error.mp h).exists_mem
  obtain ⟨values, -, huncollapsed⟩ := collapse_eq_error.mp he
  cases huncollapsed with
  | binding h => exact .inl (modeFor_eq_error h)
  | defaultMode _ h => exact .inl (contextMode?_eq_error h)
  | unbound => exact .inr (.inl ⟨_, rfl⟩)
  | noDefault => exact .inr (.inr (.inl ⟨_, rfl⟩))
  | missing => exact .inr (.inr (.inr ⟨_, rfl⟩))

theorem resolveIn_eq_error : t.resolveIn c none none options = .error e ↔
    t.collapseAll c c.tokens = .error e ∨
      ∃ inside, t.within c none none = .ok inside ∧ inside.resolve none options = .error e := by
  rw [resolveIn, Outcome.bind_eq_error]
  refine or_congr_left ?_
  simp [within]

/-! ### Failures by design -/

/-- If a context's default mode is one of the theme's, all maps by state that the context assigns to
tokens without mode have an entry for the default state of that mode. -/
def FitsDefault (t : Theme) (c : Context) : Prop :=
  ∀ key mode, c.defaultMode = .text key → t.modes.get? key = some mode →
    ∀ token values, c.tokens.get? token = some (.states values) → t.modeOf token = none →
      ∃ state v, mode.defaultState? = some state ∧ values.get? state = some v

theorem contextMode?_of_default {key : String} {mode : Mode} (hc : c.defaultMode = .text key)
    (hmode : t.modes.get? key = some mode) (values : OrdMap Value) :
    t.contextMode? c values = .ok (some mode) := by
  simp [contextMode?, hc, hmode]

/-- A mode that is not the context's default mode was chosen since it fits. -/
theorem default_or_fits {values : OrdMap Value} {mode : Mode}
    (h : t.contextMode? c values = .ok (some mode)) :
    (∃ key, c.defaultMode = .text key ∧ t.modes.get? key = some mode) ∨
      ∃ state v, mode.defaultState? = some state ∧ values.get? state = some v := by
  obtain ⟨name?, hname, h⟩ := Outcome.bind_eq_ok.mp h
  split at h
  · next found hfound =>
      obtain rfl : found = mode := Option.some.inj (Outcome.pure_eq_ok.mp h)
      obtain ⟨key, rfl, hmode⟩ := Option.bind_eq_some_iff.mp hfound
      exact .inl ⟨key, Value.eq_text_of_lookupName? hname, hmode⟩
  · have hfits := List.find?_some (Outcome.pure_eq_ok.mp h)
    obtain ⟨-, hstate⟩ := Bool.and_eq_true_iff.mp hfits
    cases hdefault : mode.defaultState? with
    | none => simp [hdefault] at hstate
    | some state =>
        rw [hdefault, Option.any_some, OrdMap.contains_eq_isSome] at hstate
        obtain ⟨v, hv⟩ := Option.isSome_iff_exists.mp hstate
        exact .inr ⟨state, v, rfl, hv⟩

/-- In a context that fits its default mode, maps are left without a mode only by design. -/
theorem FitsDefault.uncollapsed (hfits : t.FitsDefault c) (hbinds : t.BindsNames)
    (hdefault : ∃ name?, c.defaultMode.lookupName? = .ok name?) {values : OrdMap Value}
    (hvalues : c.tokens.get? token = some (.states values))
    (h : t.Uncollapsed c token values e) : e.isDesignFault = true := by
  have hentry : t.modeFor token = .ok none → ∀ mode, t.contextMode? c values = .ok (some mode) →
      ∃ state v, mode.defaultState? = some state ∧ values.get? state = some v := by
    intro free mode hmode
    rcases default_or_fits hmode with ⟨key, hc, hkey⟩ | hentry
    · exact hfits key mode hc hkey token values hvalues (modeFor_eq free).symm
    · exact hentry
  cases h with
  | binding h => cases h.symm.trans (modeFor_eq_ok (hbinds token))
  | defaultMode _ h =>
      obtain ⟨name?, hname⟩ := hdefault
      rcases Outcome.bind_eq_error.mp h with hlookup | ⟨_, -, h⟩
      · cases hlookup.symm.trans hname
      · split at h
        · exact absurd h Outcome.pure_ne_error
        · exact absurd h Outcome.pure_ne_error
  | unbound => rfl
  | noDefault free h hnone =>
      obtain ⟨state, v, hstate, -⟩ := hentry free _ h
      cases hnone.symm.trans hstate
  | missing free h hstate hnone =>
      obtain ⟨state', v, hstate', hv⟩ := hentry free _ h
      obtain rfl := Option.some.inj (hstate.symm.trans hstate')
      cases hnone.symm.trans hv

/-- A map that a context's default mode does not fit makes all collapsing fail, and not by
design. -/
theorem not_failsByDesign_collapseAll {key : String} {mode : Mode} {values : OrdMap Value}
    (hc : c.defaultMode = .text key) (hmode : t.modes.get? key = some mode)
    (hvalues : c.tokens.get? token = some (.states values)) (hfree : t.modeFor token = .ok none)
    (hnone : ¬ ∃ state v, mode.defaultState? = some state ∧ values.get? state = some v) :
    ¬ FailsByDesign (t.collapseAll c c.tokens) := by
  intro hfails
  have hfound := contextMode?_of_default hc hmode
  have huncollapsed : ∃ e, t.Uncollapsed c token values e := by
    cases hstate : mode.defaultState? with
    | none => exact ⟨_, .noDefault hfree (hfound values) hstate⟩
    | some state =>
        cases hentry : values.get? state with
        | none => exact ⟨_, .missing hfree (hfound values) hstate hentry⟩
        | some v => exact absurd ⟨state, v, hstate, hentry⟩ hnone
  cases hall : t.collapseAll c c.tokens with
  | ok collapsed =>
      obtain ⟨g, hg, -⟩ := OrdMap.mapM_eq_ok.mp hall
      obtain ⟨e, he⟩ := huncollapsed
      have hfails := collapse_eq_error.mpr ⟨values, rfl, he⟩
      cases hfails.symm.trans (hg token _ hvalues)
  | error e =>
      have hdesign := hfails e hall
      obtain ⟨entry, -, he⟩ := (collapseAll_eq_error.mp hall).exists_mem
      obtain ⟨values', -, he⟩ := collapse_eq_error.mp he
      cases he with
      | binding h =>
          obtain rfl := modeFor_eq_error h
          cases hdesign
      | defaultMode _ h => cases h.symm.trans (hfound values')
      | unbound _ h => cases h.symm.trans (hfound values')
      | noDefault => cases hdesign
      | missing => cases hdesign

theorem resolveIn_failsByDesign_iff (hbinds : t.BindsNames)
    (hdefault : ∃ name?, c.defaultMode.lookupName? = .ok name?) :
    FailsByDesign (t.resolveIn c none none options) ↔ t.FitsDefault c := by
  constructor
  · intro hfails key mode hc hmode token values hvalues hfree
    by_contra hnone
    refine not_failsByDesign_collapseAll hc hmode hvalues ?_ hnone fun e he => ?_
    · rw [modeFor_eq_ok (hbinds token), hfree]
    · exact hfails e (resolveIn_eq_error.mpr (.inl he))
  · intro hfits e he
    rcases resolveIn_eq_error.mp he with hcollapse | ⟨inside, hinside, hresolve⟩
    · obtain ⟨entry, hentry, he⟩ := (collapseAll_eq_error.mp hcollapse).exists_mem
      obtain ⟨values, hvalues, he⟩ := collapse_eq_error.mp he
      have hget : c.tokens.get? entry.1 = some (.states values) :=
        hvalues ▸ OrdMap.mem_entries_iff.mp hentry
      exact hfits.uncollapsed hbinds hdefault hget he
    · have hbinds_inside : inside.BindsNames := by
        rw [within_none hinside]
        exact hbinds
      have hfails : FailsByDesign (inside.resolve none options) :=
        resolve_failsByDesign hbinds_inside
      exact hfails e hresolve

end Theme

end DesignTokens
