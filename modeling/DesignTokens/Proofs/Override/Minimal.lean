import DesignTokens.Override.Minimal
import DesignTokens.Proofs.Override.Merge
import DesignTokens.Proofs.Resolution.Theme
import Mathlib.Data.Option.Basic

/-!
What a minimal theme keeps of an override. The minimal theme agrees with the theme after the
override on every token but those that the override names and the minimal theme leaves out, since
their own value does not change. So nothing is lost by resolving the minimal theme on top of the
base as long as these tokens, where walks meet them, still lead to their value.
-/

namespace DesignTokens.Theme

variable {t : Theme} {o : Override} {options : ResolveOptions} {before after : Resolution}

/-- The override names a token, but the minimal theme leaves it out. -/
def isLeftOut (o : Override) (minimal : Theme) (token : String) : Bool :=
  o.tokens.contains token && !minimal.tokens.contains token

/-- A theme and its contexts without the tokens that an override does not name. -/
def restrictedTo (t : Theme) (o : Override) : Theme :=
  { t with
    tokens := t.tokens.filter fun token _ =>
      inSomeContext (t.namedContexts o) token || o.tokens.contains token
    contexts := t.namedContexts o }

/-- A minimal theme is made whenever the full resolutions are. -/
theorem minimal_eq_ok (hids : ∀ c ∈ t.contexts.values, ∃ name, c.id.lookupName? = .ok name)
    (hmodes : ∀ token ∈ t.namedBy o, ∃ mode?, t.modeFor token = .ok mode?)
    (hbefore : t.resolve none options = .ok before)
    (hafter : (t.merge o).theme.resolve none options = .ok after) :
    t.minimal o options = .ok
      ⟨{ ((t.restrictedTo o).merge o).theme with
          tokens := ((t.restrictedTo o).merge o).theme.tokens.filter fun token _ =>
            (before.difference after).contains token || inSomeContext (t.namedContexts o) token },
        ((t.restrictedTo o).merge o).skipped ++ (t.merge o).skipped⟩ := by
  refine Outcome.bind_eq_ok.mpr ⟨(), ?_, ?_⟩
  · exact Outcome.forM_eq_ok.mpr fun c hc => Outcome.discard_eq_ok.mpr (hids c hc)
  · refine Outcome.bind_eq_ok.mpr ⟨_, merged_eq_ok hmodes, ?_⟩
    refine Outcome.bind_eq_ok.mpr ⟨before, hbefore, ?_⟩
    exact Outcome.bind_eq_ok.mpr ⟨after, hafter, rfl⟩

/-- The minimal theme assigns nothing but what the theme after the override assigns. -/
theorem exists_minimal (hids : ∀ c ∈ t.contexts.values, ∃ name, c.id.lookupName? = .ok name)
    (hmodes : ∀ token ∈ t.namedBy o, ∃ mode?, t.modeFor token = .ok mode?)
    (hbefore : t.resolve none options = .ok before)
    (hafter : (t.merge o).theme.resolve none options = .ok after) :
    ∃ m, t.minimal o options = .ok m ∧
      ∀ token a, m.theme.tokens.get? token = some a →
        (t.merge o).theme.tokens.get? token = some a := by
  refine ⟨_, minimal_eq_ok hids hmodes hbefore hafter, ?_⟩
  intro token a ha
  have hcut := (Option.filter_eq_some_iff.mp (OrdMap.get?_filter _ _ token ▸ ha)).1
  rw [get?_tokens_merge] at hcut ⊢
  cases hu : o.tokens.get? token with
  | none =>
      simp only [updated, restrictedTo, hu, Option.bind_none, Option.none_or, OrdMap.get?_filter,
        Option.filter_eq_some_iff] at hcut ⊢
      exact hcut.1
  | some u =>
      -- the token is among those cut out of the theme, so it is updated as in the whole theme
      have hnamed : o.tokens.contains token = true :=
        OrdMap.contains_iff.mpr (OrdMap.mem_keys_of_get? hu)
      have hkept : ∀ x : Option Assignment, x.filter (fun _ =>
          inSomeContext (t.namedContexts o) token || o.tokens.contains token) = x := by
        intro x
        cases x <;> simp [hnamed]
      simp only [updated, restrictedTo, OrdMap.get?_filter, hkept] at hcut
      exact hcut

/-! ### Resolving on top of the base -/

/-- The tables of a base and of the theme after an override, and the tokens of the minimal theme. -/
structure MinimalFits (t full : Theme) (o : Override) (minimal : Theme) : Prop where
  /-- Both resolve the same tokens at the same states. -/
  keys : ∀ token, token ∈ full.tokens.keys ↔ token ∈ t.tokens.keys
  modeOf : full.modeOf = t.modeOf
  unnamed : ∀ token ∉ o.tokens.keys, full.tokens.get? token = t.tokens.get? token
  assigned : ∀ token a, minimal.tokens.get? token = some a → full.tokens.get? token = some a

namespace MinimalFits

variable {full minimal : Theme}

theorem find?_eq (h : MinimalFits t full o minimal) {token : String}
    (hout : isLeftOut o minimal token = false) :
    (minimal.scope (some t)).find? token = (full.scope none).find? token := by
  simp only [Scope.find?_eq, scope, Option.map_some, Option.map_none, Option.bind_some,
    Option.bind_none, Option.or_none]
  cases hm : minimal.tokens.get? token with
  | some a => rw [h.assigned token a hm, Option.some_or]
  | none =>
      have hnot : token ∉ minimal.tokens.keys := OrdMap.get?_eq_none_iff.mp hm
      have hunnamed : token ∉ o.tokens.keys := by
        intro hmem
        simp [isLeftOut, OrdMap.contains_iff.mpr hmem, ← OrdMap.contains_iff] at hout hnot
        simp [hout] at hnot
      rw [h.unnamed token hunnamed, Option.none_or]

variable {f g k : String → Option String → Trace} {r : Resolution}

/-- Where no chain from a token meets a token of the minimal theme, it stands for what it stands for
in the base. -/
theorem value_eq_base (hvars : options.useVars = false) (hf : t.Traces none options f)
    (hk : minimal.Traces (some t) options k) {token : String} (htoken : token ∈ t.tokens.keys)
    {state : Option String} (hstate : state ∈ statesOf (t.modeOf token))
    (hmeets : ∀ x ∈ (k token state).path, x ∉ minimal.tokens.keys) :
    (k token state).value = (f token state).value := by
  have hchain := (hk token htoken).2 state hstate
  have hbase : (t.scope none).Chain options state token (k token state).path
      (k token state).value := by
    refine hchain.transfer fun x hx next hnext => ?_
    refine Scope.hop_transfer (find?_of_notMem (hmeets x hx)).symm ?_ hnext
    simp [ResolveOptions.property?, hvars]
  exact (hbase.unique ((hf token htoken).2 state hstate)).2

/-- The base's resolution, updated by that of the minimal theme, is the one after the override
exactly if the chains on top of the base end in the values after the override. -/
theorem union_eq_iff (hvars : options.useVars = false)
    (hf : t.Traces none options f)
    (hbefore : ∀ token ∈ t.tokens.keys, before.get? token =
      some (.ofStates (t.modeOf token) fun state => (f token state).value))
    (hafter : ∀ token ∈ t.tokens.keys, after.get? token =
      some (.ofStates (t.modeOf token) fun state => (g token state).value))
    (hk : minimal.Traces (some t) options k)
    (hr : ∀ token ∈ t.tokens.keys, r.get? token =
      if ∃ state ∈ statesOf (t.modeOf token), ∃ x ∈ (k token state).path, x ∈ minimal.tokens.keys
      then some (.ofStates (t.modeOf token) fun state => (k token state).value) else none)
    {token : String} (htoken : token ∈ t.tokens.keys) :
    (before.union r).get? token = after.get? token ↔
      ∀ state ∈ statesOf (t.modeOf token), (k token state).value = (g token state).value := by
  rw [OrdMap.get?_union, hr token htoken, hafter token htoken]
  split
  · rw [Option.some_or, Option.some.injEq, Resolved.ofStates_inj]
  · next hmeets =>
      rw [Option.none_or, hbefore token htoken, Option.some.injEq, Resolved.ofStates_inj]
      refine forall₂_congr fun state hstate => ?_
      rw [value_eq_base hvars hf hk htoken hstate]
      intro x hx hmem
      exact hmeets ⟨state, hstate, x, hx, hmem⟩

/-- There are chains on top of the base to the values after the override exactly if they are joined
again from every token left out. -/
theorem chains_iff (h : MinimalFits t full o minimal) (hvars : options.useVars = false)
    (hg : full.Traces none options g) {token : String} (htoken : token ∈ t.tokens.keys)
    {state : Option String} (hstate : state ∈ statesOf (t.modeOf token)) :
    (full.scope none).Rejoins (minimal.scope (some t)) options (isLeftOut o minimal) state token ↔
      ∃ us, (minimal.scope (some t)).Chain options state token us (g token state).value := by
  have hchain := (hg token ((h.keys token).mpr htoken)).2 state
    (by simpa only [Option.getD_none, h.modeOf] using hstate)
  refine Scope.rejoins_iff hchain fun x hx next hnext => ?_
  refine Scope.hop_transfer (h.find?_eq hx) ?_ hnext
  simp [ResolveOptions.property?, hvars]

end MinimalFits

/-- The minimal theme loses nothing of an override exactly if every walk through the theme after the
override is joined again on top of the base: the first token on it that the override names and the
minimal theme leaves out leads there to the same value. -/
theorem resolve_minimal_iff (hvars : options.useVars = false)
    (hids : ∀ c ∈ t.contexts.values, ∃ name, c.id.lookupName? = .ok name)
    (hnamed : ∀ token ∈ t.namedBy o, token ∈ t.tokens.keys)
    (hbefore : t.resolve none options = .ok before)
    (hafter : (t.merge o).theme.resolve none options = .ok after) :
    ∃ m, t.minimal o options = .ok m ∧
      ((∃ r, m.theme.resolve (some t) options = .ok r ∧
          ∀ token ∈ t.tokens.keys, (before.union r).get? token = after.get? token) ↔
        ∀ token ∈ t.tokens.keys, ∀ state ∈ statesOf (t.modeOf token),
          ((t.merge o).theme.scope none).Rejoins (m.theme.scope (some t)) options
            (isLeftOut o m.theme) state token) := by
  obtain ⟨f, hf, hbeforeAt⟩ := get?_of_resolve hbefore
  obtain ⟨g, hg, hafterAt⟩ := get?_of_resolve hafter
  simp only [Option.getD_none, Option.isNone_none, true_or, if_true] at hbeforeAt hafterAt
  have hmodes : ∀ token ∈ t.namedBy o, ∃ mode?, t.modeFor token = .ok mode? :=
    fun token htoken => ⟨_, (hf token (hnamed token htoken)).1⟩
  obtain ⟨m, hm, hassigned⟩ := exists_minimal hids hmodes hbefore hafter
  have hfits : MinimalFits t (t.merge o).theme o m.theme := by
    refine ⟨?_, t.modeOf_merge o, ?_, hassigned⟩
    · intro token
      obtain ⟨contexts, htheme⟩ := t.merge_theme o
      rw [htheme]
      exact mem_keys_overlay t _ fun x hx => hnamed x (List.mem_append_left _ hx)
    · intro token htoken
      simp [get?_tokens_merge, updated, OrdMap.get?_eq_none_iff.mpr htoken]
  have hafterAt' : ∀ token ∈ t.tokens.keys, after.get? token =
      some (.ofStates (t.modeOf token) fun state => (g token state).value) := by
    intro token htoken
    rw [hafterAt token ((hfits.keys token).mpr htoken), hfits.modeOf]
  refine ⟨m, hm, ?_⟩
  constructor
  · rintro ⟨r, hr, hunion⟩ token htoken state hstate
    obtain ⟨k, hk, hrAt⟩ := get?_of_resolve hr
    simp only [Option.getD_some, Option.isNone_some, Bool.false_eq_true, false_or] at hrAt
    have hvalue := (MinimalFits.union_eq_iff hvars hf hbeforeAt hafterAt' hk hrAt htoken).mp
      (hunion token htoken) state hstate
    rw [hfits.chains_iff hvars hg htoken hstate, ← hvalue]
    exact ⟨_, (hk token htoken).2 state hstate⟩
  · intro hjoin
    have hchains : ∀ token state, ∃ us, token ∈ t.tokens.keys →
        state ∈ statesOf (t.modeOf token) →
          (m.theme.scope (some t)).Chain options state token us (g token state).value := by
      intro token state
      by_cases h : token ∈ t.tokens.keys ∧ state ∈ statesOf (t.modeOf token)
      · obtain ⟨us, hus⟩ := (hfits.chains_iff hvars hg h.1 h.2).mp (hjoin token h.1 state h.2)
        exact ⟨us, fun _ _ => hus⟩
      · exact ⟨[], fun htoken hstate => absurd ⟨htoken, hstate⟩ h⟩
    -- to resolve, all tokens need their chains at once
    choose us hus using hchains
    have hk : m.theme.Traces (some t) options fun token state =>
        ⟨(g token state).value, us token state⟩ :=
      fun token htoken => ⟨(hf token htoken).1, fun state hstate => hus token state htoken hstate⟩
    obtain ⟨r, hr⟩ := hk.resolve
    refine ⟨r, hr, ?_⟩
    obtain ⟨k, hk, hrAt⟩ := get?_of_resolve hr
    simp only [Option.getD_some, Option.isNone_some, Bool.false_eq_true, false_or] at hrAt
    intro token htoken
    rw [MinimalFits.union_eq_iff hvars hf hbeforeAt hafterAt' hk hrAt htoken]
    intro state hstate
    exact (((hk token htoken).2 state hstate).unique (hus token state htoken hstate)).2

/-! ### An override that is not kept

An override may set a token to the value it has through a reference, and change what it refers to.
The minimal theme leaves the token out, so on top of the base the token follows the change.
-/

/-- A theme whose token `copy` refers to its token `size`. -/
def copied : Theme where
  id := "base"
  selector := ".t"
  tokens := .ofList [("size", .text "1"), ("copy", .text "\x7bsize\x7d")]

/-- Changes `size` and sets `copy` to the value that it has. -/
def detached : Override where
  tokens := .ofList [("size", .text "2"), ("copy", .text "1")]

theorem resolve_minimal_iff_detached :
    copied.resolve = .ok (.ofTexts [("size", "1"), ("copy", "1")]) ∧
      (copied.merge detached).theme.resolve = .ok (.ofTexts [("size", "2"), ("copy", "1")]) ∧
      ∃ m, copied.minimal detached = .ok m ∧
        ((∃ r, m.theme.resolve (some copied) = .ok r ∧ ∀ token ∈ copied.tokens.keys,
            ((Resolution.ofTexts [("size", "1"), ("copy", "1")]).union r).get? token =
              (Resolution.ofTexts [("size", "2"), ("copy", "1")]).get? token) ↔
          ∀ token ∈ copied.tokens.keys, ∀ state ∈ statesOf (copied.modeOf token),
            ((copied.merge detached).theme.scope none).Rejoins (m.theme.scope (some copied)) {}
              (isLeftOut detached m.theme) state token) := by
  have hbefore : copied.resolve = .ok (.ofTexts [("size", "1"), ("copy", "1")]) := rfl
  have hafter : (copied.merge detached).theme.resolve =
      .ok (.ofTexts [("size", "2"), ("copy", "1")]) := rfl
  have hids : ∀ c ∈ copied.contexts.values, ∃ name, c.id.lookupName? = .ok name := by
    intro c hc
    cases hc
  exact ⟨hbefore, hafter, resolve_minimal_iff rfl hids (by decide) hbefore hafter⟩

theorem minimal_loses_detached :
    ∃ m before r after, copied.minimal detached = .ok m ∧ copied.resolve = .ok before ∧
      m.theme.resolve (some copied) = .ok r ∧
      (copied.merge detached).theme.resolve = .ok after ∧
      (before.union r).get? "copy" ≠ after.get? "copy" := by
  refine ⟨⟨{ copied with tokens := .ofList [("size", .text "2")] }, []⟩,
    .ofTexts [("size", "1"), ("copy", "1")], .ofTexts [("size", "2"), ("copy", "2")],
    .ofTexts [("size", "2"), ("copy", "1")], rfl, rfl, rfl, rfl, ?_⟩
  have hminimal : (Resolution.ofTexts [("size", "2"), ("copy", "2")]).get? "copy" =
      some (.single (.text "2")) := rfl
  have hafter : (Resolution.ofTexts [("size", "2"), ("copy", "1")]).get? "copy" =
      some (.single (.text "1")) := rfl
  rw [OrdMap.get?_union, hminimal, hafter]
  simp

end DesignTokens.Theme
