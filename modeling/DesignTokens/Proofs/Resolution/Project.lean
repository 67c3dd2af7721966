import DesignTokens.Proofs.Resolution.Theme

/-!
Projections of resolutions. Where tokens are assigned texts, everything resolves to texts, and a
projection has the text of each token at one state of its mode: the default state, the given one, or
none for a token of another mode than the given one.
-/

namespace DesignTokens

/-! ### Texts -/

/-- All assignments are texts or map states to texts. -/
def PlainTokens (tokens : OrdMap Assignment) : Prop :=
  ∀ token a, tokens.get? token = some a → a.IsPlain

theorem PlainTokens.of_entries {tokens : OrdMap Assignment}
    (h : ∀ e ∈ tokens.entries, e.2.IsPlain) : PlainTokens tokens :=
  fun token a ha => h (token, a) (OrdMap.mem_entries_iff.mpr ha)

theorem Assignment.at_text {a : Assignment} (ha : a.IsPlain) {token : String}
    {state : Option String} {v : Value} (h : a.at token state = .ok v) :
    ∃ text, v = .text text := by
  cases a with
  | text s =>
      cases h
      exact ⟨s, rfl⟩
  | other v hv => cases ha
  | states values =>
      cases state with
      | none => cases h
      | some name =>
          simp only [Assignment.at] at h
          cases hget : values.get? name with
          | none => simp [hget] at h
          | some w =>
              simp only [hget] at h
              obtain rfl := Except.ok.inj h
              exact ha (name, w) (OrdMap.mem_entries_iff.mpr hget)

theorem Scope.Chain.text {s : Scope} {options : ResolveOptions} {state : Option String}
    (hplain : ∀ token a, s.find? token = some a → a.IsPlain) {token : String} {ts : List String}
    {v : Value} (h : s.Chain options state token ts v) : ∃ text, v = .text text := by
  induction h with
  | go _ _ ih => exact ih
  | @stop token v hs =>
      obtain ⟨a, w, ha, hv, hleaves⟩ := Scope.hop_eq_ok.mp hs
      cases hleaves with
      | literal _ => exact Assignment.at_text (hplain token a ha) hv
      | property _ _ _ => exact ⟨_, rfl⟩

namespace Theme

variable {t : Theme} {base : Option Theme}

theorem plain_of_find? (hown : PlainTokens t.tokens) (hbase : ∀ b ∈ base, PlainTokens b.tokens)
    {token : String} {a : Assignment} (ha : (t.scope base).find? token = some a) : a.IsPlain := by
  rw [Scope.find?_eq, Option.filter_eq_some_iff] at ha
  rcases Option.or_eq_some_iff.mp ha.1 with ha | ⟨-, ha⟩
  · exact hown token a ha
  · obtain ⟨tokens, htokens, ha⟩ := Option.bind_eq_some_iff.mp ha
    obtain ⟨b, hb, rfl⟩ := Option.map_eq_some_iff.mp htokens
    exact hbase b hb token a ha

end Theme

/-! ### Projections -/

theorem Mode.defaultState_eq_ok {mode : Mode} {state : String} :
    mode.defaultState = .ok state ↔ mode.defaultState? = some state := by
  unfold defaultState
  cases mode.defaultState? <;> simp

theorem Mode.defaultState_eq_error {mode : Mode} {e : Fault} :
    mode.defaultState = .error e ↔ mode.defaultState? = none ∧ e = .noDefaultState mode.id := by
  unfold defaultState
  cases mode.defaultState? <;> simp [eq_comm]

/-- The state at which a token of a mode is picked, if it is. -/
def Projection.stateFor (p : Projection) : Option Mode → Option (Option String)
  | none => some none
  | some mode =>
    match p with
    | .defaults => mode.defaultState?.map some
    | .state id chosen => if mode.id.same id then some (some chosen) else none

namespace Resolution

variable {r : Resolution} {t : Theme} {p : Projection} {values : Projected}

theorem pick_ofStates {mode : Mode} {f : Option String → Value} {state : String} {v : Value}
    (h : Projection.pick (.ofStates (some mode) f) state = .ok v) :
    some state ∈ statesOf (some mode) ∧ v = f (some state) := by
  simp only [Projection.pick, Resolved.ofStates, OrdMap.get?_mapWith] at h
  cases hget : mode.states.get? state with
  | none => simp [hget] at h
  | some a =>
      simp only [hget, Option.map_some] at h
      exact ⟨mem_statesOf_some.mpr (OrdMap.mem_keys_of_get? hget), (Except.ok.inj h).symm⟩

theorem apply_ofStates {mode? : Option Mode} {f : Option String → Value} {token : String}
    {picked : Option Value} (h : p.apply mode? token (.ofStates mode? f) = .ok picked)
    (htext : ∀ state ∈ statesOf mode?, ∃ text, f state = .text text) :
    picked = (p.stateFor mode?).map f ∧
      ∀ state, p.stateFor mode? = some state → state ∈ statesOf mode? := by
  cases mode? with
  | none =>
      obtain ⟨text, hf⟩ := htext none (by simp [statesOf])
      simp only [Projection.apply, Resolved.ofStates, hf] at h
      simp [Projection.stateFor, statesOf, hf, ← Except.ok.inj h]
  | some mode =>
      cases p with
      | defaults =>
          simp only [Projection.apply, Resolved.ofStates, Outcome.bind_eq_ok,
            Outcome.pure_eq_ok] at h
          obtain ⟨state, hstate, v, hv, rfl⟩ := h
          obtain ⟨hmem, rfl⟩ := pick_ofStates hv
          have hdefault := Mode.defaultState_eq_ok.mp hstate
          simp [Projection.stateFor, hdefault, hmem]
      | state id chosen =>
          simp only [Projection.apply, Resolved.ofStates] at h
          split at h
          · next hid =>
              obtain ⟨v, hv, rfl⟩ := Outcome.map_eq_ok.mp h
              obtain ⟨hmem, rfl⟩ := pick_ofStates hv
              simp [Projection.stateFor, hid, hmem]
          · next hid => simp [Projection.stateFor, hid, ← Except.ok.inj h]

/-- A projection has every token's value at the state that it picks. -/
theorem get?_project (h : r.project t p = .ok values) {token : String}
    {f : Option String → Value} (hget : r.get? token = some (.ofStates (t.modeOf token) f))
    (htext : ∀ state ∈ statesOf (t.modeOf token), ∃ text, f state = .text text) :
    values.get? token = (p.stateFor (t.modeOf token)).map f ∧
      ∀ state, p.stateFor (t.modeOf token) = some state →
        state ∈ statesOf (t.modeOf token) := by
  obtain ⟨g, hg, rfl⟩ := OrdMap.filterMapM_eq_ok.mp h
  have hstep := hg token _ hget
  simp only [Option.getD_none, Outcome.bind_eq_ok, Outcome.pure_eq_ok] at hstep
  obtain ⟨mode?, hmode, picked, hpicked, hfilter⟩ := hstep
  obtain rfl := Theme.modeFor_eq hmode
  obtain ⟨rfl, hmem⟩ := apply_ofStates hpicked htext
  refine ⟨?_, hmem⟩
  rw [OrdMap.get?_filterMap, hget, Option.bind_some, ← hfilter]
  cases hstate : p.stateFor (t.modeOf token) with
  | none => rfl
  | some state =>
      obtain ⟨text, hf⟩ := htext state (hmem state hstate)
      simp [hf, Value.isNull]

theorem mem_keys_of_project (h : r.project t p = .ok values) {token : String}
    (htoken : token ∈ values.keys) : token ∈ r.keys := by
  obtain ⟨g, hg, rfl⟩ := OrdMap.filterMapM_eq_ok.mp h
  rw [OrdMap.keys_filterMap] at htoken
  exact (List.mem_filter.mp htoken).1

end Resolution

end DesignTokens
