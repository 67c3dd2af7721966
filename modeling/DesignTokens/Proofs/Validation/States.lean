import DesignTokens.Proofs.Build.Values
import DesignTokens.Proofs.Resolution.Collapse
import DesignTokens.Proofs.Resolution.Partial
import DesignTokens.Theme.Validation

/-!
What checking maps by state one by one says of walks. A checked map has all states of the mode of
its own token. A walk keeps to the states of the mode that it started with, so in a valid theme it
misses a state only where it has strayed to a token of another mode.
-/

namespace DesignTokens

namespace Theme

variable {t inside : Theme} {c : Context} {options : ResolveOptions} {token last : String}
  {state : Option String} {mode : Mode} {values : OrdMap Value} {e : Fault}

/-! ### Checked maps -/

/-- No rule reports an error. -/
def IsValid (t : Theme) : Prop := ∀ d ∈ t.validate, d.isError = false

/-- A checked map by state has all states of its token's mode. -/
theorem IsValid.exists_entry (hvalid : t.IsValid) (hmode : t.modeOf token = some mode)
    (hvalues : t.tokens.get? token = some (.states values)) {name : String}
    (hname : name ∈ mode.states.keys) : ∃ v, values.get? name = some v := by
  have hnone : t.statesComplete = [] := by
    refine List.eq_nil_iff_forall_not_mem.mpr fun d hd => ?_
    have hfound : d ∈ t.validate := List.mem_flatMap.mpr ⟨statesComplete, by simp [rules], hd⟩
    obtain ⟨x, -, hx⟩ := List.mem_filterMap.mp hd
    have hok := hvalid d hfound
    split at hx
    · cases hx
    · cases hx
      cases hok
  have hbound : token ∈ t.bindings.keys := by
    simp only [modeOf, Option.bind_eq_bind, Option.bind_eq_some_iff] at hmode
    obtain ⟨id, hid, -⟩ := hmode
    exact OrdMap.mem_keys_of_get? hid
  have hmissing : t.missingStates token = [] := by
    have hskipped := List.filterMap_eq_nil_iff.mp hnone token hbound
    split at hskipped
    · next h => exact h
    · cases hskipped
  simp only [missingStates, hmode, hvalues, List.filter_eq_nil_iff] at hmissing
  have hcontains := hmissing name hname
  simpa [OrdMap.contains_eq_isSome, ← Option.isSome_iff_exists, Option.isSome_iff_ne_none] using
    hcontains

/-! ### Strayed walks -/

/-- A walk from a token leads to a map by state without an entry for the state of the walk, and that
of a token which is not bound to the same mode. -/
structure Strays (t : Theme) (options : ResolveOptions) (token : String) (state : Option String)
    (last : String) : Prop where
  declared : token ∈ t.tokens.keys
  stated : state ∈ statesOf (t.modeOf token)
  way : ∃ path, Way ((t.scope none).Follows options state) token path last
  lacks : (t.scope none).Lacks state last
  other : ∀ mode, t.modeOf token = some mode → t.modeOf last ≠ some mode

/-- The map by state of a token leaves out a state of the token's mode. -/
def LeavesOut (t : Theme) (tokens : OrdMap Assignment) (token state : String) : Prop :=
  ∃ values mode, tokens.get? token = some (.states values) ∧ values.get? state = none ∧
    t.modeOf token = some mode ∧ state ∈ mode.states.keys

theorem IsValid.not_leavesOut (hvalid : t.IsValid) {state : String} :
    ¬ t.LeavesOut t.tokens token state := by
  rintro ⟨values, mode, hvalues, hnone, hmode, hstate⟩
  obtain ⟨v, hv⟩ := hvalid.exists_entry hmode hvalues hstate
  cases hnone.symm.trans hv

/-- A strayed walk is one that the theme does not resolve with. -/
theorem Strays.resolve (h : t.Strays options token state last) :
    ∃ e, t.resolve none options = .error e := by
  obtain ⟨path, way⟩ := h.way
  have hwalk : (t.scope none).walk options state token [] =
      .error (.missingModeState last state) :=
    Scope.walk_eq_error.mpr (.stuck way (.missing h.lacks))
  cases hresolve : t.resolve none options with
  | error e => exact ⟨e, rfl⟩
  | ok r =>
      obtain ⟨-, hwalks⟩ := exists_resolve_iff.mp ⟨r, hresolve⟩ token h.declared
      obtain ⟨trace, htrace⟩ := hwalks state h.stated
      cases hwalk.symm.trans htrace

/-- A state is missed by a strayed walk, or by a map without all states of its token's mode. -/
theorem strays_or_leavesOut {missed : Option String}
    (h : t.resolve none options = .error (.missingModeState last missed)) :
    (∃ token, t.Strays options token missed last) ∨
      ∃ name, missed = some name ∧ t.LeavesOut t.tokens last name := by
  rcases exists_of_resolve_eq_error h with
    ⟨token, -, hmode⟩ | ⟨token, htoken, state, hstate, hwalk⟩
  · cases modeFor_eq_error hmode
  · rw [Option.getD_none] at htoken hstate
    cases Scope.walk_eq_error.mp hwalk with
    | stuck way h =>
        cases h with
        | missing hlacks =>
            by_cases hsame : ∃ mode, t.modeOf token = some mode ∧ t.modeOf last = some mode
            · obtain ⟨mode, hmode, hlast⟩ := hsame
              rw [hmode] at hstate
              obtain ⟨name, hname, rfl⟩ := List.mem_map.mp hstate
              obtain ⟨values, hvalues, hnone⟩ := hlacks
              refine .inr ⟨name, rfl, values, mode, ?_, hnone name rfl, hlast, hname⟩
              simpa [Scope.assigned?, scope] using hvalues
            · refine .inl ⟨token, htoken, hstate, ⟨_, way⟩, hlacks, fun mode hmode hlast => ?_⟩
              exact hsame ⟨mode, hmode, hlast⟩

/-- Inside a context, the context may itself leave out a state. -/
theorem leavesOut_of_within (hplain : t.IsPlain) (hc : c ∈ t.contexts.values)
    (hinside : t.within c none none = .ok inside) {state : String}
    (h : inside.LeavesOut inside.tokens token state) :
    t.LeavesOut c.tokens token state ∨ t.LeavesOut t.tokens token state := by
  obtain ⟨values, mode, hvalues, hnone, hmode, hstate⟩ := h
  have hassigned := get?_within hinside hvalues
  obtain rfl := within_none hinside
  obtain ⟨own, hown, hcollapsed⟩ | hget := hassigned
  · have hown_plain := hplain.contexts c hc token own hown
    rcases collapsed_cases t c token hown_plain with
      heq | ⟨_, _, _, _, _, heq⟩
    · obtain rfl := hcollapsed.trans heq
      exact .inl ⟨values, mode, hown, hnone, hmode, hstate⟩
    · cases hcollapsed.trans heq
  · exact .inr ⟨values, mode, hget, hnone, hmode, hstate⟩

theorem strays_of_resolveIn (hplain : t.IsPlain) (hvalid : t.IsValid)
    (hc : c ∈ t.contexts.values) {missed : Option String}
    (h : t.resolveIn c none none options = .error (.missingModeState last missed)) :
    (∃ inside token, t.within c none none = .ok inside ∧
        inside.Strays options token missed last) ∨
      ∃ name, missed = some name ∧ t.LeavesOut c.tokens last name := by
  rcases resolveIn_eq_error.mp h with hcollapse | ⟨inside, hinside, hresolve⟩
  · rcases fault_of_collapseAll hcollapse with h | ⟨_, h⟩ | ⟨_, h⟩ | ⟨_, h⟩ <;> cases h
  · rcases strays_or_leavesOut hresolve with ⟨token, hstrays⟩ | ⟨name, rfl, hleaves⟩
    · exact .inl ⟨inside, token, hinside, hstrays⟩
    · rcases leavesOut_of_within hplain hc hinside hleaves with hleaves | hleaves
      · exact .inr ⟨name, rfl, hleaves⟩
      · exact absurd hleaves hvalid.not_leavesOut

/-- What a valid theme still misses states by: strayed walks, each of which makes it fail to
resolve, and maps of a context that leave out states themselves. -/
theorem missingModeState_strays (hplain : t.IsPlain) (hvalid : t.IsValid) :
    (∀ u missed, t.resolve none options = .error (.missingModeState u missed) →
      ∃ token, t.Strays options token missed u) ∧
    (∀ token state u, t.Strays options token state u → ∃ e, t.resolve none options = .error e) ∧
    ∀ c ∈ t.contexts.values,
      (∀ u missed, t.resolveIn c none none options = .error (.missingModeState u missed) →
        (∃ inside token, t.within c none none = .ok inside ∧
            inside.Strays options token missed u) ∨
          ∃ name, missed = some name ∧ t.LeavesOut c.tokens u name) ∧
      ∀ inside token state u, t.within c none none = .ok inside →
        inside.Strays options token state u →
          ∃ e, t.resolveIn c none none options = .error e := by
  refine ⟨fun u missed h => ?_, fun token state u h => h.resolve, fun c hc => ⟨?_, ?_⟩⟩
  · rcases strays_or_leavesOut h with hstrays | ⟨name, -, hleaves⟩
    · exact hstrays
    · exact absurd hleaves hvalid.not_leavesOut
  · exact fun u missed => strays_of_resolveIn hplain hvalid hc
  · intro inside token state u hinside hstrays
    obtain ⟨e, he⟩ := hstrays.resolve
    exact ⟨e, resolveIn_eq_error.mpr (.inr ⟨inside, hinside, he⟩)⟩

/-! ### Valid themes that miss a state -/

/-- Refers from a token without mode to one with a mode. -/
def stitched : Theme where
  id := "stitched"
  selector := ".t"
  tokens := .ofList [("border", .text "\x7bgap\x7d"),
    ("gap", .states (.ofList [("cozy", .text "8"), ("compact", .text "4")]))]
  modes := .ofList [("density", density)]
  bindings := .ofList [("gap", "density")]

theorem stitched_isPlain : stitched.IsPlain := by
  refine ⟨.of_entries (List.forall_mem_cons.mpr ⟨trivial, ?_⟩), nofun⟩
  refine List.forall_mem_singleton.mpr (List.forall_mem_cons.mpr ⟨⟨_, rfl⟩, ?_⟩)
  exact List.forall_mem_singleton.mpr ⟨_, rfl⟩

theorem stitched_isValid : stitched.IsValid := by
  have hnone : stitched.validate = [] := rfl
  simp [IsValid, hnone]

/-- Sets the cozy gap only. -/
def cozyCard : Context where
  id := "card"
  selector := ".card"
  tokens := .ofList [("gap", .states (.ofList [("cozy", .text "2")]))]

def padded : Theme where
  id := "padded"
  selector := ".t"
  tokens := .ofList [("gap", .states (.ofList [("cozy", .text "8"), ("compact", .text "4")]))]
  modes := .ofList [("density", density)]
  bindings := .ofList [("gap", "density")]
  contexts := .ofList [("card", cozyCard)]

theorem padded_isPlain : padded.IsPlain := by
  refine ⟨.of_entries (List.forall_mem_singleton.mpr ?_),
    List.forall_mem_singleton.mpr (.of_entries (List.forall_mem_singleton.mpr ?_))⟩
  · exact List.forall_mem_cons.mpr ⟨⟨_, rfl⟩, List.forall_mem_singleton.mpr ⟨_, rfl⟩⟩
  · exact List.forall_mem_singleton.mpr ⟨_, rfl⟩

theorem padded_isValid : padded.IsValid := by
  have hnone : padded.validate = [] := rfl
  simp [IsValid, hnone]

theorem missingModeState_strays_stitched :
    stitched.IsPlain ∧ stitched.IsValid ∧
    (∀ u missed, stitched.resolve none {} = .error (.missingModeState u missed) →
      ∃ token, stitched.Strays {} token missed u) ∧
    (∀ token state u, stitched.Strays {} token state u →
      ∃ e, stitched.resolve none {} = .error e) ∧
    ∀ c ∈ stitched.contexts.values,
      (∀ u missed, stitched.resolveIn c none none {} = .error (.missingModeState u missed) →
        (∃ inside token, stitched.within c none none = .ok inside ∧
            inside.Strays {} token missed u) ∨
          ∃ name, missed = some name ∧ stitched.LeavesOut c.tokens u name) ∧
      ∀ inside token state u, stitched.within c none none = .ok inside →
        inside.Strays {} token state u →
          ∃ e, stitched.resolveIn c none none {} = .error e :=
  ⟨stitched_isPlain, stitched_isValid,
    missingModeState_strays stitched_isPlain stitched_isValid⟩

/-- A token without mode may refer to one with a mode, and a context may leave out a state. -/
theorem valid_misses_states :
    (stitched.IsPlain ∧ stitched.IsValid ∧
      stitched.resolve none {} = .error (.missingModeState "gap" none)) ∧
    (padded.IsPlain ∧ padded.IsValid ∧ ∃ c ∈ padded.contexts.values,
      padded.resolveIn c none none {} = .error (.missingModeState "gap" (some "compact"))) := by
  refine ⟨⟨stitched_isPlain, stitched_isValid, rfl⟩, padded_isPlain, padded_isValid, ?_⟩
  exact ⟨cozyCard, List.mem_singleton.mpr rfl, rfl⟩

end Theme

end DesignTokens
