import DesignTokens.Proofs.OrdMap
import DesignTokens.Proofs.Resolution.Walk
import DesignTokens.Resolution.OfTheme

/-!
What resolving a theme gives. A resolution that succeeds has one chain of hops for every token and
every state of its mode, and holds the values that these chains end in. On top of a base it keeps
the tokens one of whose chains meets a token of the theme.
-/

namespace DesignTokens

instance : Inhabited Trace := ⟨⟨.null, []⟩⟩

/-- The states at which a token of a mode is resolved; a token without mode has none to name. -/
def statesOf : Option Mode → List (Option String)
  | none => [none]
  | some mode => mode.states.keys.map some

theorem Mode.exists_chainOf (mode : Mode) (g : String → ModeState → Trace) :
    ∃ f : Option String → Trace, ∀ name state, mode.states.get? name = some state →
      f (some name) = g name state := by
  let chain? (name : String) : Option Trace := (mode.states.get? name).map (g name)
  refine ⟨fun state => (state.bind chain?).getD default, fun name state hstate => ?_⟩
  simp [chain?, hstate]

theorem mem_statesOf_some {mode : Mode} {name : String} :
    some name ∈ statesOf (some mode) ↔ name ∈ mode.states.keys := by
  simp [statesOf]

namespace Resolved

/-- What a token of a mode stands for, given its value at each state. -/
def ofStates (mode? : Option Mode) (f : Option String → Value) : Resolved :=
  match mode? with
  | none => .single (f none)
  | some mode => .perState (mode.states.mapWith fun state _ => f (some state))

theorem ofStates_inj {mode? : Option Mode} {f g : Option String → Value} :
    ofStates mode? f = ofStates mode? g ↔ ∀ state ∈ statesOf mode?, f state = g state := by
  cases mode? with
  | none => simp [ofStates, statesOf]
  | some mode =>
      simp only [ofStates, statesOf, Resolved.perState.injEq, OrdMap.ext_iff, OrdMap.mapWith,
        OrdMap.keys, List.map_inj_left, Prod.mk.injEq, true_and, List.forall_mem_map]

end Resolved

/-- A resolution of tokens without modes to texts. -/
def Resolution.ofTexts (entries : List (String × String)) : Resolution :=
  .ofList (entries.map fun e => (e.1, .single (.text e.2)))

namespace Traced

def ofStates (mode? : Option Mode) (f : Option String → Trace) : Traced :=
  match mode? with
  | none => .single (f none)
  | some mode => .perState (mode.states.mapWith fun state _ => f (some state))

@[simp] theorem resolved_ofStates (mode? : Option Mode) (f : Option String → Trace) :
    (ofStates mode? f).resolved = .ofStates mode? fun state => (f state).value := by
  cases mode? with
  | none => rfl
  | some mode =>
      simp [ofStates, resolved, Resolved.ofStates, OrdMap.map, OrdMap.mapWith, Function.comp_def]

theorem passes_ofStates {mode? : Option Mode} {f : Option String → Trace}
    {tokens : OrdMap Assignment} :
    (ofStates mode? f).passes tokens = true ↔
      ∃ state ∈ statesOf mode?, ∃ x ∈ (f state).path, x ∈ tokens.keys := by
  cases mode? with
  | none => simp [ofStates, passes, statesOf, OrdMap.contains_iff]
  | some mode =>
      simp [ofStates, passes, statesOf, OrdMap.contains_iff, OrdMap.values, OrdMap.mapWith,
        OrdMap.keys]

end Traced

theorem Scope.trace_eq_ok {s : Scope} {options : ResolveOptions} {mode? : Option Mode}
    {token : String} {traced : Traced} :
    s.trace options mode? token = .ok traced ↔
      ∃ f : Option String → Trace,
        (∀ state ∈ statesOf mode?, s.Chain options state token (f state).path (f state).value) ∧
          traced = .ofStates mode? f := by
  cases mode? with
  | none =>
      simp only [trace, Outcome.map_eq_ok, walk_nil_eq_ok, statesOf, List.mem_singleton,
        forall_eq, Traced.ofStates]
      constructor
      · rintro ⟨t, ht, rfl⟩
        exact ⟨fun _ => t, ht, rfl⟩
      · rintro ⟨f, hf, rfl⟩
        exact ⟨f none, hf, rfl⟩
  | some mode =>
      simp only [trace, Outcome.map_eq_ok, OrdMap.mapM_eq_ok, walk_nil_eq_ok, statesOf,
        List.forall_mem_map, OrdMap.mem_keys_iff, Traced.ofStates]
      constructor
      · rintro ⟨traces, ⟨g, hg, rfl⟩, rfl⟩
        obtain ⟨f, hf⟩ := mode.exists_chainOf g
        refine ⟨f, ?_, ?_⟩
        · rintro name ⟨a, ha⟩
          rw [hf name a ha]
          exact hg name a ha
        · rw [Traced.perState.injEq, OrdMap.ext_iff]
          refine List.map_congr_left fun e he => ?_
          simp only [hf e.1 e.2 (OrdMap.mem_entries_iff.mp he)]
      · rintro ⟨f, hf, rfl⟩
        exact ⟨_, ⟨fun name _ => f (some name), fun name a ha => hf name ⟨a, ha⟩, rfl⟩, rfl⟩

namespace Theme

variable {t : Theme} {base : Option Theme} {options : ResolveOptions} {r : Resolution}

theorem modeFor_eq {token : String} {mode? : Option Mode} (h : t.modeFor token = .ok mode?) :
    mode? = t.modeOf token := by
  unfold modeFor at h
  unfold modeOf
  cases hb : t.bindings.get? token with
  | none =>
      simp only [hb] at h
      exact (Except.ok.inj h).symm
  | some id =>
      simp only [hb, Outcome.bind_eq_ok, Outcome.pure_eq_ok] at h
      obtain ⟨name?, hname, rfl⟩ := h
      obtain rfl : id.text? = name? := by
        unfold Value.lookupName? at hname
        split at hname
        · cases hname
        · cases hname
        · exact Except.ok.inj hname
      rfl

/-- A token that a theme does not assign is looked up in the base. -/
theorem find?_of_notMem {b : Theme} {token : String} (h : token ∉ t.tokens.keys) :
    (t.scope (some b)).find? token = (b.scope none).find? token := by
  simp [Scope.find?_eq, scope, OrdMap.get?_eq_none_iff.mpr h]

/-- A table of chains, one for each token that is resolved and each state of its mode. -/
def Traces (t : Theme) (base : Option Theme) (options : ResolveOptions)
    (f : String → Option String → Trace) : Prop :=
  ∀ token ∈ (base.getD t).tokens.keys,
    (base.getD t).modeFor token = .ok ((base.getD t).modeOf token) ∧
      ∀ state ∈ statesOf ((base.getD t).modeOf token),
        (t.scope base).Chain options state token (f token state).path (f token state).value

/-- The chains of a token, if they are kept: those that meet a token of the theme, or all of them
without a base. -/
def keptChains (t : Theme) (base : Option Theme) (f : String → Option String → Trace)
    (token : String) : Option Traced :=
  let chains := Traced.ofStates ((base.getD t).modeOf token) (f token)
  if base.isNone || chains.passes t.tokens then some chains else none

theorem trace_eq_ok {traced : OrdMap Traced} :
    t.trace base options = .ok traced ↔
      ∃ f, t.Traces base options f ∧
        traced = (base.getD t).tokens.filterMap fun token _ => t.keptChains base f token := by
  simp only [trace, OrdMap.filterMapM_eq_ok, Outcome.bind_eq_ok, Outcome.pure_eq_ok,
    Scope.trace_eq_ok]
  constructor
  · rintro ⟨g, hg, rfl⟩
    have hchoice : ∀ token ∈ (base.getD t).tokens.keys, ∃ f : Option String → Trace,
        (base.getD t).modeFor token = .ok ((base.getD t).modeOf token) ∧
          (∀ state ∈ statesOf ((base.getD t).modeOf token),
            (t.scope base).Chain options state token (f state).path (f state).value) ∧
          ∀ a, (base.getD t).tokens.get? token = some a →
            t.keptChains base (fun _ => f) token = g token a := by
      intro token htoken
      obtain ⟨a, ha⟩ := OrdMap.mem_keys_iff.mp htoken
      obtain ⟨mode?, hmode, traced, ⟨f, hf, rfl⟩, hkeep⟩ := hg token a ha
      obtain rfl := modeFor_eq hmode
      refine ⟨f, hmode, hf, ?_⟩
      intro b hb
      obtain rfl := Option.some.inj (ha.symm.trans hb)
      exact hkeep
    choose! f hmode hf hkeep using hchoice
    refine ⟨f, fun token htoken => ⟨hmode token htoken, hf token htoken⟩, ?_⟩
    rw [OrdMap.ext_iff]
    refine List.filterMap_congr fun e he => ?_
    have hget := OrdMap.mem_entries_iff.mp he
    rw [← hkeep e.1 (OrdMap.mem_keys_of_get? hget) e.2 hget]
    rfl
  · rintro ⟨f, hf, rfl⟩
    refine ⟨_, ?_, rfl⟩
    intro token a ha
    obtain ⟨hmode, hchains⟩ := hf token (OrdMap.mem_keys_of_get? ha)
    exact ⟨_, hmode, _, ⟨f token, hchains, rfl⟩, rfl⟩

/-- A resolution holds the ends of the chains of a table. -/
theorem resolve_eq_ok :
    t.resolve base options = .ok r ↔
      ∃ f, t.Traces base options f ∧
        r = (base.getD t).tokens.filterMap fun token _ =>
          (t.keptChains base f token).map Traced.resolved := by
  have hmap : ∀ (tokens : OrdMap Assignment) (g : String → Option Traced),
      (tokens.filterMap fun token _ => g token).map Traced.resolved =
        tokens.filterMap fun token _ => (g token).map Traced.resolved := by
    intro tokens g
    simp [OrdMap.map, OrdMap.mapWith, OrdMap.filterMap, List.map_filterMap,
      Function.comp_def]
  simp only [resolve, Outcome.map_eq_ok, trace_eq_ok]
  constructor
  · rintro ⟨traced, ⟨f, hf, rfl⟩, rfl⟩
    exact ⟨f, hf, hmap _ _⟩
  · rintro ⟨f, hf, rfl⟩
    exact ⟨_, ⟨f, hf, rfl⟩, hmap _ _⟩

/-- Every token of the source whose chains are kept has its values at the states of its mode. -/
theorem get?_of_resolve (h : t.resolve base options = .ok r) :
    ∃ f, t.Traces base options f ∧ ∀ token ∈ (base.getD t).tokens.keys, r.get? token =
      if base.isNone ∨ ∃ state ∈ statesOf ((base.getD t).modeOf token),
          ∃ x ∈ (f token state).path, x ∈ t.tokens.keys then
        some (.ofStates ((base.getD t).modeOf token) fun state => (f token state).value)
      else none := by
  obtain ⟨f, hf, rfl⟩ := resolve_eq_ok.mp h
  refine ⟨f, hf, ?_⟩
  intro token htoken
  obtain ⟨a, ha⟩ := OrdMap.mem_keys_iff.mp htoken
  rw [OrdMap.get?_filterMap, ha, Option.bind_some, keptChains]
  simp only [Bool.or_eq_true, Traced.passes_ofStates]
  split <;> simp

theorem mem_source_of_resolve (h : t.resolve base options = .ok r) {token : String}
    (htoken : token ∈ r.keys) : token ∈ (base.getD t).tokens.keys := by
  obtain ⟨f, -, rfl⟩ := resolve_eq_ok.mp h
  rw [OrdMap.keys_filterMap] at htoken
  exact (List.mem_filter.mp htoken).1

theorem Traces.resolve {f : String → Option String → Trace} (h : t.Traces base options f) :
    ∃ r, t.resolve base options = .ok r :=
  ⟨_, resolve_eq_ok.mpr ⟨f, h, rfl⟩⟩

/-- A theme resolves if its tokens have modes and every walk from them ends. -/
theorem exists_resolve_iff : (∃ r, t.resolve base options = .ok r) ↔
    ∀ token ∈ (base.getD t).tokens.keys,
      (base.getD t).modeFor token = .ok ((base.getD t).modeOf token) ∧
        ∀ state ∈ statesOf ((base.getD t).modeOf token),
          ∃ trace, (t.scope base).walk options state token [] = .ok trace := by
  simp only [Scope.walk_nil_eq_ok]
  constructor
  · rintro ⟨r, h⟩ token htoken
    obtain ⟨f, hf, -⟩ := resolve_eq_ok.mp h
    obtain ⟨hmode, hchains⟩ := hf token htoken
    exact ⟨hmode, fun state hstate => ⟨f token state, hchains state hstate⟩⟩
  · intro h
    have hchains := fun token htoken => (h token htoken).2
    choose! g hg using hchains
    exact Traces.resolve (f := g) fun token htoken => ⟨(h token htoken).1, hg token htoken⟩

end Theme

end DesignTokens
