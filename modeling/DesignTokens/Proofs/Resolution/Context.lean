import DesignTokens.Proofs.Resolution.Theme
import DesignTokens.Resolution.InContext

/-!
Contexts on top of a base. Four tables assign tokens there: the context, the base's context, the
theme and the base, nearer ones first. Instead of writing all of them over one another, a theme is
rebaselined: of the base's context only the assignments are taken that matter by themselves. Every
token looked up is found where all four tables have it, unless it was overlooked when rebaselining;
so the values are those of the four tables as long as walks lead on from overlooked tokens to the
same values.
-/

namespace DesignTokens

instance : Inhabited Assignment := ⟨.null⟩

namespace Theme

variable {t base inside full : Theme} {c baseContext : Context} {changed : Resolution}
  {options : ResolveOptions}

/-- The base with all tables written over it: the theme, the base's context, the context. -/
def layered (base t : Theme) (baseContext c : Context) : Except Fault Theme := do
  let below ← base.collapseAll c baseContext.tokens
  let own ← base.collapseAll c c.tokens
  return { base with tokens := ((base.tokens.union t.tokens).union below).union own }

/-- The theme or the base's context assigns a token, and neither the context does nor the
rebaselined table. -/
def isOverlooked (base t : Theme) (baseContext c : Context) (changed : Resolution)
    (token : String) : Bool :=
  (baseContext.tokens.contains token || t.tokens.contains token) && !c.tokens.contains token &&
    !(t.rebaselined base baseContext changed).contains token

/-! ### Collapsed assignments -/

/-- An assignment as it is in a context, where it can be collapsed. -/
def collapsed (t : Theme) (c : Context) (token : String) (a : Assignment) : Assignment :=
  Outcome.valueOr a (t.collapse c token a)

theorem collapseAll_eq {tokens collapsed : OrdMap Assignment}
    (h : t.collapseAll c tokens = .ok collapsed) : collapsed = tokens.mapWith (t.collapsed c) := by
  obtain ⟨g, hg, rfl⟩ := OrdMap.mapM_eq_ok.mp h
  rw [OrdMap.ext_iff]
  refine List.map_congr_left fun e he => ?_
  rw [Theme.collapsed, hg e.1 e.2 (OrdMap.mem_entries_iff.mp he)]
  rfl

/-- Only a map by state is changed, and that of a token without mode. -/
theorem collapsed_eq_self {token : String} {a : Assignment}
    (h : t.modeFor token = .ok none → ∀ values, a ≠ .states values) :
    t.collapsed c token a = a := by
  cases a with
  | text s => rfl
  | other v hv => rfl
  | states values =>
      unfold collapsed collapse
      cases hm : t.modeFor token with
      | error e => rfl
      | ok mode? =>
          cases mode? with
          | none => exact absurd rfl (h hm values)
          | some mode => rfl

/-! ### The tables of a context -/

/-- Inside a context a theme has its own tokens and those of the context, with its own modes. -/
theorem within_none (h : t.within c none none = .ok inside) :
    inside = { t with tokens := t.tokens.union (c.tokens.mapWith (t.collapsed c)) } := by
  simp only [within, Option.getD_none, Outcome.bind_eq_ok, Outcome.pure_eq_ok] at h
  obtain ⟨own, hown, rfl⟩ := h
  rw [collapseAll_eq hown]

/-- There a token is assigned what the context says, or else what the theme says. -/
theorem get?_within (h : t.within c none none = .ok inside) {token : String} {a : Assignment}
    (ha : inside.tokens.get? token = some a) :
    (∃ own, c.tokens.get? token = some own ∧ a = t.collapsed c token own) ∨
      t.tokens.get? token = some a := by
  rw [within_none h] at ha
  simp only [OrdMap.get?_union, OrdMap.get?_mapWith, Option.or_eq_some_iff, Option.map_eq_some_iff]
    at ha
  obtain ⟨own, hown, rfl⟩ | ⟨-, ha⟩ := ha
  · exact .inl ⟨own, hown, rfl⟩
  · exact .inr ha

theorem within_eq_ok (hcounterpart : base.counterpart? c = .ok (some baseContext))
    (h : t.within c (some base) (some changed) = .ok inside) :
    inside = { t with
      tokens := ((t.rebaselined base baseContext changed).mapWith (base.collapsed c)).union
        (c.tokens.mapWith (base.collapsed c)) } := by
  simp only [within, Option.getD_some, hcounterpart, Outcome.bind_eq_ok, Except.ok.injEq,
    exists_eq_left', Outcome.pure_eq_ok] at h
  obtain ⟨own, hown, below, hbelow, rfl⟩ := h
  rw [collapseAll_eq hown, collapseAll_eq hbelow]

theorem layered_eq_ok (h : layered base t baseContext c = .ok full) :
    full = { base with
      tokens := ((base.tokens.union t.tokens).union
        (baseContext.tokens.mapWith (base.collapsed c))).union
          (c.tokens.mapWith (base.collapsed c)) } := by
  simp only [layered, Outcome.bind_eq_ok, Outcome.pure_eq_ok] at h
  obtain ⟨below, hbelow, own, hown, rfl⟩ := h
  rw [collapseAll_eq hown, collapseAll_eq hbelow]

theorem get?_rebaselined {token : String} {a : Assignment}
    (h : (t.rebaselined base baseContext changed).get? token = some a) :
    baseContext.tokens.get? token = some a ∨
      (baseContext.tokens.get? token = none ∧ t.tokens.get? token = some a ∧
        token ∈ changed.keys) := by
  simp only [rebaselined, OrdMap.get?_filterMap, Option.bind_eq_some_iff] at h
  obtain ⟨r, hr, h⟩ := h
  cases hb : baseContext.tokens.get? token with
  | some b =>
      simp only [hb, Option.isNone_some, Bool.false_and, Bool.false_eq_true, if_false,
        Option.getD_some] at h
      split at h
      · cases h
      · exact .inl h
  | none =>
      refine .inr ⟨rfl, ?_, OrdMap.mem_keys_of_get? hr⟩
      cases ht : t.tokens.get? token with
      | none => simp [hb, OrdMap.contains_eq_isSome, ht] at h
      | some b =>
          simp only [hb, ht, OrdMap.contains_eq_isSome, Option.isSome_some, Bool.not_true,
            Bool.and_false, Bool.false_eq_true, if_false, Option.getD_none, Option.some_or,
            Option.getD_some] at h
          split at h
          · cases h
          · exact h

/-- An assignment of the theme that was found when resolving it is as it is in any context. -/
theorem collapsed_of_resolved (hchanged : t.resolve (some base) options = .ok changed)
    {token : String} (htoken : token ∈ changed.keys) {a : Assignment}
    (ha : t.tokens.get? token = some a) : base.collapsed c token a = a := by
  refine collapsed_eq_self ?_
  rintro hmode values rfl
  obtain ⟨f, hf, -⟩ := get?_of_resolve hchanged
  obtain ⟨hfor, hchains⟩ := hf token (mem_source_of_resolve hchanged htoken)
  simp only [Option.getD_some] at hfor hchains
  obtain hnone : none = base.modeOf token := Except.ok.inj (hmode.symm.trans hfor)
  -- without a mode the token is looked up at no state, where a map by state has no value
  have hchain := hchains none (by simp [← hnone, statesOf])
  obtain ⟨rest, hrest⟩ := hchain.head
  obtain ⟨next, hnext⟩ := hchain.hop_of_mem (hrest ▸ List.mem_cons_self)
  have hfind : (t.scope (some base)).find? token = some (.states values) := by
    rw [Scope.find?_eq]
    simp only [scope, ha, Option.some_or]
    rfl
  obtain ⟨a, v, ha, hv, -⟩ := Scope.hop_eq_ok.mp hnext
  obtain rfl := Option.some.inj (hfind.symm.trans ha)
  cases hv

/-- A token that is not overlooked is looked up as in the four tables. -/
theorem find?_within_eq (hcounterpart : base.counterpart? c = .ok (some baseContext))
    (hchanged : t.resolve (some base) options = .ok changed)
    (hinside : t.within c (some base) (some changed) = .ok inside)
    (hfull : layered base t baseContext c = .ok full) {token : String}
    (hover : isOverlooked base t baseContext c changed token = false) :
    (full.scope none).find? token = (inside.scope (some base)).find? token := by
  obtain rfl := within_eq_ok hcounterpart hinside
  obtain rfl := layered_eq_ok hfull
  simp only [Scope.find?_eq, scope, Option.map_none, Option.map_some, Option.bind_none,
    Option.bind_some, Option.or_none, OrdMap.get?_union, OrdMap.get?_mapWith]
  cases hc : c.tokens.get? token with
  | some a => simp
  | none =>
      cases hr : (t.rebaselined base baseContext changed).get? token with
      | some a =>
          obtain hb | ⟨hb, ht, hmem⟩ := get?_rebaselined hr
          · simp [hb]
          · simp [hb, ht, collapsed_of_resolved hchanged hmem ht]
      | none =>
          simp only [isOverlooked, OrdMap.contains_eq_isSome, hc, hr, Option.isSome_none,
            Bool.not_false, Bool.and_true, Bool.or_eq_false_iff, Option.isSome_eq_false_iff,
            Option.isNone_iff_eq_none] at hover
          simp [hover.1, hover.2]

/-! ### Resolving inside a context -/

/-- The tokens stand for what they stand for in the four tables exactly if every walk leads on from
its first overlooked token to the same value there. -/
theorem resolveIn_eq_layered_iff {r values : Resolution}
    (hcounterpart : base.counterpart? c = .ok (some baseContext))
    (hchanged : t.resolve (some base) options = .ok changed)
    (hr : t.resolveIn c (some base) (some changed) options = .ok r)
    (hfull : layered base t baseContext c = .ok full)
    (hvalues : full.resolve none options = .ok values) :
    ∃ inside, t.within c (some base) (some changed) = .ok inside ∧
      ((∀ token ∈ r.keys, r.get? token = values.get? token) ↔
        ∀ token ∈ r.keys, ∀ state ∈ statesOf (base.modeOf token),
          (inside.scope (some base)).Rejoins (full.scope none) options
            (isOverlooked base t baseContext c changed) state token) := by
  obtain ⟨inside, hinside, hr⟩ := Outcome.bind_eq_ok.mp hr
  refine ⟨inside, hinside, ?_⟩
  obtain ⟨f, hf, hrAt⟩ := get?_of_resolve hr
  obtain ⟨g, hg, hvaluesAt⟩ := get?_of_resolve hvalues
  simp only [Option.getD_some] at hrAt
  simp only [Option.getD_none, Option.isNone_none, true_or, if_true] at hvaluesAt
  refine forall₂_congr fun token htoken => ?_
  have hbase : token ∈ base.tokens.keys := mem_source_of_resolve hr htoken
  have hmodeOf : full.modeOf token = base.modeOf token := by
    rw [layered_eq_ok hfull]
    rfl
  have hmem : token ∈ full.tokens.keys := by
    rw [layered_eq_ok hfull]
    simp only [OrdMap.mem_keys_union, hbase, true_or]
  -- a token of the result met the tables of the context, so it has all its chains there
  have hget : r.get? token =
      some (.ofStates (base.modeOf token) fun state => (f token state).value) := by
    rw [hrAt token hbase, ite_eq_left_iff]
    intro hnot
    obtain ⟨a, ha⟩ := OrdMap.mem_keys_iff.mp htoken
    rw [hrAt token hbase, if_neg hnot] at ha
    cases ha
  rw [hget, hvaluesAt token hmem, hmodeOf, Option.some.injEq, Resolved.ofStates_inj]
  refine forall₂_congr fun state hstate => ?_
  have hhere := (hf token hbase).2 state hstate
  have hthere := (hg token hmem).2 state (by simpa only [Option.getD_none, hmodeOf] using hstate)
  rw [Scope.rejoins_iff_eq hhere hthere]
  intro x hx next next' hnext hnext'
  exact Scope.hop_agree (find?_within_eq hcounterpart hchanged hinside hfull hx) hnext hnext'

/-! ### An overlooked token

A theme may refer to a token that it does not change, but the base's context does. Rebaselining
looks at changed tokens only, so the reference leads to the base past its context.
-/

/-- The context of the base that sets `size`. -/
def compact : Context where
  id := "compact"
  selector := ".compact"
  tokens := .ofList [("size", .text "2")]

def sized : Theme where
  id := "base"
  selector := ".t"
  tokens := .ofList [("size", .text "1"), ("copy", .text "0")]
  contexts := .ofList [("compact", compact)]

/-- The same context of a theme that assigns nothing there. -/
def bare : Context := { compact with tokens := .empty }

/-- Lets `copy` refer to `size`. -/
def copying : Theme where
  id := "copying"
  selector := ".t"
  tokens := .ofList [("copy", .text "\x7bsize\x7d")]
  contexts := .ofList [("compact", bare)]

theorem resolveIn_eq_layered_iff_copying :
    ∃ full, sized.counterpart? bare = .ok (some compact) ∧
      copying.resolve (some sized) = .ok (.ofTexts [("copy", "1")]) ∧
      copying.resolveIn bare (some sized) (some (.ofTexts [("copy", "1")])) =
        .ok (.ofTexts [("copy", "1")]) ∧
      layered sized copying compact bare = .ok full ∧
      full.resolve = .ok (.ofTexts [("size", "2"), ("copy", "2")]) ∧
      ∃ inside, copying.within bare (some sized) (some (.ofTexts [("copy", "1")])) = .ok inside ∧
        ((∀ token ∈ (Resolution.ofTexts [("copy", "1")]).keys,
            (Resolution.ofTexts [("copy", "1")]).get? token =
              (Resolution.ofTexts [("size", "2"), ("copy", "2")]).get? token) ↔
          ∀ token ∈ (Resolution.ofTexts [("copy", "1")]).keys,
            ∀ state ∈ statesOf (sized.modeOf token),
              (inside.scope (some sized)).Rejoins (full.scope none) {}
                (isOverlooked sized copying compact bare (.ofTexts [("copy", "1")])) state
                token) := by
  have hcounterpart : sized.counterpart? bare = .ok (some compact) := rfl
  have hchanged : copying.resolve (some sized) = .ok (.ofTexts [("copy", "1")]) := rfl
  have hr : copying.resolveIn bare (some sized) (some (.ofTexts [("copy", "1")])) =
      .ok (.ofTexts [("copy", "1")]) := rfl
  have hfull : layered sized copying compact bare = .ok { sized with
      tokens := .ofList [("size", .text "2"), ("copy", .text "\x7bsize\x7d")] } := rfl
  have hvalues : ({ sized with
      tokens := .ofList [("size", .text "2"), ("copy", .text "\x7bsize\x7d")] } : Theme).resolve =
        .ok (.ofTexts [("size", "2"), ("copy", "2")]) := rfl
  exact ⟨_, hcounterpart, hchanged, hr, hfull, hvalues,
    resolveIn_eq_layered_iff hcounterpart hchanged hr hfull hvalues⟩

theorem resolveIn_copying_passes_compact :
    ∃ changed r full values, copying.resolve (some sized) = .ok changed ∧
      copying.resolveIn bare (some sized) (some changed) = .ok r ∧
      sized.counterpart? bare = .ok (some compact) ∧
      layered sized copying compact bare = .ok full ∧ full.resolve = .ok values ∧
      "copy" ∈ r.keys ∧ r.get? "copy" ≠ values.get? "copy" := by
  refine ⟨.ofTexts [("copy", "1")], .ofTexts [("copy", "1")], { sized with
      tokens := .ofList [("size", .text "2"), ("copy", .text "\x7bsize\x7d")] },
    .ofTexts [("size", "2"), ("copy", "2")], rfl, rfl, rfl, rfl, rfl, by decide, ?_⟩
  have hr : (Resolution.ofTexts [("copy", "1")]).get? "copy" = some (.single (.text "1")) := rfl
  have hvalues : (Resolution.ofTexts [("size", "2"), ("copy", "2")]).get? "copy" =
      some (.single (.text "2")) := rfl
  rw [hr, hvalues]
  simp

end Theme

end DesignTokens
