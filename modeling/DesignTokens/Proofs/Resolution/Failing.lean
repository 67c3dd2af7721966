import DesignTokens.Proofs.Fault
import DesignTokens.Proofs.Resolution.Ending

/-!
How resolving a theme fails, whether custom properties are used or not. A theme makes its walks
token by token and state by state, and fails as the first walk that fails. Where the references that
a walk follows never end, that is this walk or an earlier one.
-/

namespace DesignTokens

namespace Scope

variable {s : Scope} {options : ResolveOptions} {state : Option String} {token : String} {e : Fault}

/-- A way of a walk that comes back to a token on it, for the first time. -/
structure Returns (s : Scope) (options : ResolveOptions) (state : Option String)
    (token : String) (path : List String) (last : String) : Prop where
  way : Way (s.Follows options state) token path last
  fresh : path.Nodup
  again : last ∈ path

/-- Where following references never ends, the walk reports the first token that it meets again. -/
theorem Circles.exists_returns (h : s.Circles options state token) :
    ∃ last path, s.walk options state token [] = .error (.circularDependency last path) ∧
      s.Returns options state token path last := by
  obtain ⟨last, path, hwalk⟩ := circular_iff_circles.mpr h
  refine ⟨last, path, hwalk, ?_⟩
  cases walk_eq_error.mp hwalk with
  | stuck _ h => cases h
  | circular way fresh again => exact ⟨way, fresh, again⟩

/-! ### The walks of a theme -/

/-- The walk from a token at a state. -/
def walkAt (s : Scope) (options : ResolveOptions) (start : String × Option String) :
    Except Fault Trace :=
  s.walk options start.2 start.1 []

theorem trace_eq_error {mode? : Option Mode} : s.trace options mode? token = .error e ↔
    Outcome.FirstFailure (s.walkAt options)
      ((statesOf mode?).map fun state => (token, state)) e := by
  cases mode? with
  | none => simp [trace, statesOf, walkAt, Outcome.firstFailure_cons]
  | some mode =>
      simp only [trace, Outcome.map_eq_error, OrdMap.mapM_eq_error, statesOf, OrdMap.keys,
        List.map_map]
      exact Outcome.firstFailure_map fun _ _ _ => Iff.rfl

end Scope

theorem Value.lookupName?_eq_error {v : Value} {e : Fault} (h : v.lookupName? = .error e) :
    e = .wrongKind := by
  unfold lookupName? at h
  split at h
  · exact (Except.error.inj h).symm
  · exact (Except.error.inj h).symm
  · cases h

theorem Value.eq_text_of_lookupName? {v : Value} {name : String}
    (h : v.lookupName? = .ok (some name)) : v = .text name := by
  cases v with
  | text s => exact congrArg text (Option.some.inj (Except.ok.inj h))
  | _ => cases h

namespace Theme

variable {t : Theme} {base : Option Theme} {options : ResolveOptions} {token : String}
  {state : Option String} {e : Fault}

/-- Tokens are bound to modes by their names. -/
def BindsNames (t : Theme) : Prop :=
  ∀ token v, t.bindings.get? token = some v → ∃ key, v = .text key

/-- Where walks are started, in order: at each token and at each state of its mode. -/
def starts (t : Theme) : List (String × Option String) :=
  t.tokens.keys.flatMap fun token => (statesOf (t.modeOf token)).map fun state => (token, state)

theorem mem_starts :
    (token, state) ∈ t.starts ↔ token ∈ t.tokens.keys ∧ state ∈ statesOf (t.modeOf token) := by
  simp only [starts, List.mem_flatMap, List.mem_map, Prod.mk.injEq]
  constructor
  · rintro ⟨x, hx, y, hy, rfl, rfl⟩
    exact ⟨hx, hy⟩
  · rintro ⟨htoken, hstate⟩
    exact ⟨token, htoken, state, hstate, rfl, rfl⟩

/-- A theme fails to resolve as its first walk that fails. -/
theorem resolve_eq_error (hbinds : (base.getD t).BindsNames) :
    t.resolve base options = .error e ↔
      Outcome.FirstFailure ((t.scope base).walkAt options) (base.getD t).starts e := by
  rw [resolve, Outcome.map_eq_error, trace, OrdMap.filterMapM_eq_error, starts, OrdMap.keys,
    List.flatMap_map]
  refine Outcome.firstFailure_flatMap fun entry _ e => ?_
  rw [modeFor_eq_ok (hbinds entry.1), ← Scope.trace_eq_error]
  simp

theorem resolve_failsByDesign (hbinds : (base.getD t).BindsNames) :
    FailsByDesign (t.resolve base options) := by
  intro e he
  refine FailsByDesign.of_firstFailure (fun start _ e hwalk => ?_) ((resolve_eq_error hbinds).mp he)
  exact (Scope.walk_eq_error.mp hwalk).isDesignFault

/-- A theme fails to resolve as one of its walks, or at a token bound to a container. -/
theorem exists_of_resolve_eq_error (h : t.resolve base options = .error e) :
    (∃ token ∈ (base.getD t).tokens.keys, (base.getD t).modeFor token = .error e) ∨
      ∃ token ∈ (base.getD t).tokens.keys, ∃ state ∈ statesOf ((base.getD t).modeOf token),
        (t.scope base).walk options state token [] = .error e := by
  rw [resolve, Outcome.map_eq_error, trace, OrdMap.filterMapM_eq_error] at h
  obtain ⟨⟨token, a⟩, hmem, h⟩ := h.exists_mem
  have htoken := OrdMap.mem_keys_of_get? (OrdMap.mem_entries_iff.mp hmem)
  rcases Outcome.bind_eq_error.mp h with hmode | ⟨mode?, hmode, h⟩
  · exact .inl ⟨token, htoken, hmode⟩
  · obtain rfl := modeFor_eq hmode
    rcases Outcome.bind_eq_error.mp h with htrace | ⟨traced, -, h⟩
    · obtain ⟨start, hstart, hwalk⟩ := (Scope.trace_eq_error.mp htrace).exists_mem
      obtain ⟨state, hstate, rfl⟩ := List.mem_map.mp hstart
      exact .inr ⟨token, htoken, state, hstate, hwalk⟩
    · exact absurd h Outcome.pure_ne_error

theorem modeFor_eq_error (h : t.modeFor token = .error e) : e = .wrongKind := by
  unfold modeFor at h
  split at h
  · cases h
  · rcases Outcome.bind_eq_error.mp h with hlookup | ⟨name?, -, h⟩
    · exact Value.lookupName?_eq_error hlookup
    · exact absurd h Outcome.pure_ne_error

/-! ### References that never end -/

/-- Where references that a walk follows never end, the theme does not resolve: it fails as the
first walk before that fails, or it reports the first token that is met again. -/
theorem resolve_of_circles (hbinds : (base.getD t).BindsNames)
    (htoken : token ∈ (base.getD t).tokens.keys)
    (hstate : state ∈ statesOf ((base.getD t).modeOf token))
    (hcircles : (t.scope base).Circles options state token) :
    ∃ before after e, (base.getD t).starts = before ++ (token, state) :: after ∧
      t.resolve base options = .error e ∧
      (Outcome.FirstFailure ((t.scope base).walkAt options) before e ∨
        ∃ last path, e = .circularDependency last path ∧
          (t.scope base).Returns options state token path last) := by
  obtain ⟨before, after, hstarts⟩ := List.append_of_mem (mem_starts.mpr ⟨htoken, hstate⟩)
  obtain ⟨last, path, hwalk, hreturns⟩ := hcircles.exists_returns
  cases hresolve : t.resolve base options with
  | ok r =>
      obtain ⟨-, hwalks⟩ := exists_resolve_iff.mp ⟨r, hresolve⟩ token htoken
      obtain ⟨trace, htrace⟩ := hwalks state hstate
      cases hwalk.symm.trans htrace
  | error e =>
      refine ⟨before, after, e, hstarts, rfl, ?_⟩
      have hfirst := (resolve_eq_error hbinds).mp hresolve
      rw [hstarts] at hfirst
      rcases hfirst.before_or_eq hwalk with hbefore | rfl
      · exact .inl hbefore
      · exact .inr ⟨last, path, rfl, hreturns⟩

/-- `line` refers to itself. -/
def looped : Theme where
  id := "looped"
  selector := ".t"
  tokens := .ofList [("rim", .text "\x7bline\x7d"), ("line", .text "\x7bline\x7d")]

/-- Writes references to `line` as a property. -/
def lineProperty : ResolveOptions where
  useVars := true
  properties := .ofList [("line", .text "--line")]

theorem resolve_of_circles_looped :
    looped.BindsNames ∧ "rim" ∈ looped.tokens.keys ∧ none ∈ statesOf (looped.modeOf "rim") ∧
      (looped.scope none).Circles {} none "rim" ∧
      ∃ before after e, looped.starts = before ++ ("rim", none) :: after ∧
        looped.resolve none {} = .error e ∧
        (Outcome.FirstFailure ((looped.scope none).walkAt {}) before e ∨
          ∃ last path, e = .circularDependency last path ∧
            (looped.scope none).Returns {} none "rim" path last) := by
  have hbinds : looped.BindsNames := by
    intro token v hv
    cases hv
  have htoken : "rim" ∈ looped.tokens.keys := by decide
  have hstate : none ∈ statesOf (looped.modeOf "rim") := List.mem_singleton.mpr rfl
  have hcircles : (looped.scope none).Circles {} none "rim" := by
    refine ⟨fun n => if n = 0 then "rim" else "line", rfl, ?_⟩
    rintro (_ | n)
    · exact ⟨⟨_, .text rfl, rfl⟩, rfl⟩
    · exact ⟨⟨_, .text rfl, rfl⟩, rfl⟩
  exact ⟨hbinds, htoken, hstate, hcircles,
    @resolve_of_circles looped none {} "rim" none hbinds htoken hstate hcircles⟩

/-- Refers to a token that is missing when it is light, and to itself when it is dark. -/
def flickering : Theme where
  id := "flickering"
  selector := ".t"
  tokens := .ofList
    [("line", .states (.ofList
      [("light", .text "\x7bgone\x7d"), ("dark", .text "\x7bline\x7d")]))]
  modes := .ofList [("shade", ⟨"shade", .ofList
    [("light", .fallback true), ("dark", .optional ".d" .null)], rfl⟩)]
  bindings := .ofList [("line", "shade")]

/-- References that never end are not always reported: a property ends the walk before, and a state
before may fail in another way. -/
theorem endless_unreported :
    ((looped.scope none).Endless none "line" ∧
      looped.resolve none lineProperty =
        .ok (.ofTexts [("rim", "var(--line)"), ("line", "var(--line)")])) ∧
    ((flickering.scope none).Endless (some "dark") "line" ∧
      flickering.tokens.keys = ["line"] ∧
      flickering.resolve none {} = .error (.unknownToken "gone")) := by
  refine ⟨⟨⟨fun _ => "line", rfl, fun _ => ?_⟩, ?_⟩, ⟨fun _ => "line", rfl, fun _ => ?_⟩, ?_, ?_⟩
  · exact ⟨_, .text rfl, rfl⟩
  · rfl
  · exact ⟨_, .entry rfl rfl rfl, rfl⟩
  · rfl
  · rfl

end Theme

end DesignTokens
