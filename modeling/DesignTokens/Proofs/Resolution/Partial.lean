import DesignTokens.Proofs.Resolution.Theme

/-!
Resolving a theme on top of a base. The two tables look every token up as one table would that has
the theme's tokens written over those of the base, so walks are the same there. A token is kept
exactly if one of its walks meets a token of the theme. The walks of any other token go past the
theme, so it stands for what it stands for in the base, and nothing is lost by leaving it out.
-/

namespace DesignTokens

namespace Traced

/-- The tokens that each walk passes through, one list for each state. -/
def paths : Traced → List (List String)
  | single trace => [trace.path]
  | perState traces => traces.values.map Trace.path

theorem passes_iff {traced : Traced} {tokens : OrdMap Assignment} :
    traced.passes tokens = true ↔ ∃ path ∈ traced.paths, ∃ x ∈ path, x ∈ tokens.keys := by
  cases traced <;> simp [passes, paths, OrdMap.contains_iff]

end Traced

/-- Chains depend on what is looked up, not on the tables. -/
theorem Scope.Chain.of_find? {s s' : Scope} {options : ResolveOptions} {state : Option String}
    {token : String} {ts : List String} {v : Value} (h : s.Chain options state token ts v)
    (hfind : ∀ x, s'.find? x = s.find? x) : s'.Chain options state token ts v := by
  refine h.transfer fun x _ next hnext => ?_
  refine Scope.hop_transfer (hfind x) (fun y _ hy => ?_) hnext
  rwa [hfind y]

namespace Theme

variable {t base : Theme} {options : ResolveOptions} {f g : String → Option String → Trace}
  {before after : Resolution} {token : String}

/-- The base with a theme's tokens written over its own. -/
def onto (t base : Theme) : Theme := { base with tokens := base.tokens.union t.tokens }

theorem find?_onto (t base : Theme) (token : String) :
    ((t.onto base).scope none).find? token = (t.scope (some base)).find? token := by
  simp [Scope.find?_eq, scope, onto, OrdMap.get?_union]

theorem mem_keys_onto (h : token ∈ base.tokens.keys) : token ∈ (t.onto base).tokens.keys :=
  OrdMap.mem_keys_union.mpr (.inl h)

/-- What is walked in the one table is walked on top of the base. -/
theorem Traces.of_onto (h : (t.onto base).Traces none options f) :
    t.Traces (some base) options f := by
  intro token htoken
  obtain ⟨hmode, hchains⟩ := h token (mem_keys_onto htoken)
  refine ⟨hmode, fun state hstate => ?_⟩
  exact (hchains state hstate).of_find? fun x => (find?_onto t base x).symm

/-- Where all chains are known, all tokens are walked from, and those that count are kept in
order. -/
theorem Traces.exists_trace {base : Option Theme} (h : t.Traces base options f) :
    ∃ traced, t.trace base options = .ok traced ∧
      traced.keys.Sublist (base.getD t).tokens.keys ∧
      ∀ token ∈ (base.getD t).tokens.keys, traced.get? token = t.keptChains base f token := by
  refine ⟨_, trace_eq_ok.mpr ⟨f, h, rfl⟩, ?_, fun token htoken => ?_⟩
  · rw [OrdMap.keys_filterMap]
    exact List.filter_sublist
  · exact OrdMap.get?_filterMap_of_mem htoken

/-- A walk past a theme ends where it ends in the base. -/
theorem value_eq_base (hf : base.Traces none options f) (hg : t.Traces (some base) options g)
    (htoken : token ∈ base.tokens.keys) {state : Option String}
    (hstate : state ∈ statesOf (base.modeOf token))
    (hpast : ∀ x ∈ (g token state).path, x ∉ t.tokens.keys) :
    (g token state).value = (f token state).value := by
  have hbase := (hf token htoken).2 state hstate
  have hagree : ∀ x, t.tokens.contains x = false → ∀ next next',
      (t.scope (some base)).hop options state x = .ok next →
        (base.scope none).hop options state x = .ok next' → next = next' := by
    intro x hx next next' hnext hnext'
    have hnot : x ∉ t.tokens.keys := by simpa [← OrdMap.contains_iff] using hx
    exact Scope.hop_agree (find?_of_notMem hnot).symm hnext hnext'
  obtain ⟨-, hvalue⟩ | ⟨k, rest, hfind, -⟩ := ((hg token htoken).2 state hstate).meet hbase hagree
  · exact hvalue
  · have hk := List.find?_some hfind
    exact absurd (OrdMap.contains_iff.mp hk) (hpast k (List.mem_of_find?_eq_some hfind))

theorem keptChains_onto (token : String) :
    (t.onto base).keptChains none f token = some (.ofStates (base.modeOf token) (f token)) := rfl

theorem keptChains_eq_some_iff {traced : Traced} :
    t.keptChains (some base) f token = some traced ↔
      traced = .ofStates (base.modeOf token) (f token) ∧
        ∃ path ∈ traced.paths, ∃ x ∈ path, x ∈ t.tokens.keys := by
  rw [← Traced.passes_iff]
  simp only [keptChains, Option.getD_some, Option.isNone_some, Bool.false_or]
  constructor
  · intro h
    split at h
    · next hpasses => exact ⟨(Option.some.inj h).symm, Option.some.inj h ▸ hpasses⟩
    · cases h
  · rintro ⟨rfl, hpasses⟩
    rw [if_pos hpasses]

/-- Whatever is not kept stands for what it stands for in the base. -/
theorem resolved_eq_base (hf : base.Traces none options f) (hg : t.Traces (some base) options g)
    (htoken : token ∈ base.tokens.keys) (hleft : t.keptChains (some base) g token = none) :
    Resolved.ofStates (base.modeOf token) (fun state => (g token state).value) =
      .ofStates (base.modeOf token) fun state => (f token state).value := by
  rw [Resolved.ofStates_inj]
  intro state hstate
  refine value_eq_base hf hg htoken hstate fun x hx hin => ?_
  -- a token of the theme on a walk would have it kept
  have hkept : t.keptChains (some base) g token =
      some (.ofStates (base.modeOf token) (g token)) := by
    rw [keptChains_eq_some_iff, ← Traced.passes_iff, Traced.passes_ofStates]
    exact ⟨rfl, state, hstate, x, hx, hin⟩
  rw [hleft] at hkept
  cases hkept

/-- The walks that are kept on top of a base, judged by the walks in the theme written onto it and
by what tokens stand for in the base and there. -/
structure ExactPart (t base : Theme) (walks changed : OrdMap Traced) (before after : Resolution) :
    Prop where
  order : changed.keys.Sublist base.tokens.keys
  /-- Kept are the tokens one of whose walks passes through a token of the theme. -/
  kept_iff : ∀ token ∈ base.tokens.keys, token ∈ changed.keys ↔
    ∃ traced, walks.get? token = some traced ∧ ∃ path ∈ traced.paths, ∃ x ∈ path, x ∈ t.tokens.keys
  /-- They have the same values there, by the same walks. -/
  walks_eq : ∀ token ∈ changed.keys, changed.get? token = walks.get? token
  left_eq : ∀ token ∈ base.tokens.keys, token ∉ changed.keys →
    before.get? token = after.get? token
  union_eq : ∀ token ∈ base.tokens.keys,
    (before.union (changed.map Traced.resolved)).get? token = after.get? token

/-- Where a base resolves, and so does the theme written onto it, the theme resolves on top of the
base, exactly to the part of the latter that it changes. -/
theorem trace_onto (hbefore : base.resolve none options = .ok before)
    (hafter : (t.onto base).resolve none options = .ok after) :
    ∃ walks changed, (t.onto base).trace none options = .ok walks ∧
      t.trace (some base) options = .ok changed ∧
      ExactPart t base walks changed before after := by
  obtain ⟨f, hf, hbeforeAt⟩ := get?_of_resolve hbefore
  obtain ⟨g, hg, hafterAt⟩ := get?_of_resolve hafter
  obtain ⟨walks, hwalks, -, hwalksAt⟩ := hg.exists_trace
  obtain ⟨changed, hchanged, hsub, hchangedAt⟩ := hg.of_onto.exists_trace
  simp only [Option.getD_none, Option.isNone_none, true_or, if_true] at hbeforeAt hafterAt
  simp only [Option.getD_some] at hsub hchangedAt
  have hwalksOf : ∀ token ∈ base.tokens.keys,
      walks.get? token = some (.ofStates (base.modeOf token) (g token)) :=
    fun token htoken => (hwalksAt token (mem_keys_onto htoken)).trans (keptChains_onto token)
  have hkept : ∀ token ∈ changed.keys, changed.get? token = walks.get? token := by
    intro token htoken
    obtain ⟨traced, htraced⟩ := OrdMap.mem_keys_iff.mp htoken
    have hbase := hsub.subset htoken
    rw [hwalksOf token hbase, htraced]
    rw [hchangedAt token hbase] at htraced
    rw [(keptChains_eq_some_iff.mp htraced).1]
  have hleft : ∀ token ∈ base.tokens.keys, token ∉ changed.keys →
      before.get? token = after.get? token := by
    intro token htoken hnot
    have hnone := hchangedAt token htoken
    rw [OrdMap.get?_eq_none_iff.mpr hnot] at hnone
    rw [hbeforeAt token htoken, hafterAt token (mem_keys_onto htoken), Option.some.injEq]
    exact (resolved_eq_base hf hg.of_onto htoken hnone.symm).symm
  refine ⟨walks, changed, hwalks, hchanged, hsub, ?_, hkept, hleft, ?_⟩
  · intro token htoken
    simp only [OrdMap.mem_keys_iff, hchangedAt token htoken, hwalksOf token htoken,
      keptChains_eq_some_iff, Option.some.injEq, @eq_comm _ (Traced.ofStates _ _)]
  · intro token htoken
    rw [OrdMap.get?_union, OrdMap.get?_map]
    by_cases hin : token ∈ changed.keys
    · rw [hkept token hin, hwalksOf token htoken, Option.map_some, Option.some_or,
        Traced.resolved_ofStates, hafterAt token (mem_keys_onto htoken)]
      rfl
    · rw [OrdMap.get?_eq_none_iff.mpr hin, Option.map_none, Option.none_or, hleft token htoken hin]

/-! ### A theme on top of a base with a mode -/

def density : Mode where
  id := "density"
  states := .ofList [("cozy", .fallback true), ("compact", .optional ".compact" .null)]
  id_truthy := rfl

/-- A base whose gap follows its size where it is cozy. -/
def spaced : Theme where
  id := "base"
  selector := ".t"
  tokens := .ofList [("size", .text "8"),
    ("gap", .states (.ofList [("cozy", .text "\x7bsize\x7d"), ("compact", .text "2")])),
    ("border", .text "1")]
  modes := .ofList [("density", density)]
  bindings := .ofList [("gap", .text "density")]

def enlarged : Theme where
  id := "enlarged"
  selector := ".t"
  tokens := .ofList [("size", .text "12")]

/-- What the tokens of `spaced` stand for where its size is the given one. -/
def spacedFor (size : String) : Resolution :=
  .ofList [("size", .single (.text size)),
    ("gap", .perState (.ofList [("cozy", .text size), ("compact", .text "2")])),
    ("border", .single (.text "1"))]

theorem trace_onto_spaced :
    spaced.resolve = .ok (spacedFor "8") ∧
      (enlarged.onto spaced).resolve = .ok (spacedFor "12") ∧
      ∃ walks changed, (enlarged.onto spaced).trace = .ok walks ∧
        enlarged.trace (some spaced) = .ok changed ∧
        ExactPart enlarged spaced walks changed (spacedFor "8") (spacedFor "12") := by
  have hbefore : spaced.resolve = .ok (spacedFor "8") := rfl
  have hafter : (enlarged.onto spaced).resolve = .ok (spacedFor "12") := rfl
  exact ⟨hbefore, hafter, trace_onto hbefore hafter⟩

end Theme

end DesignTokens
