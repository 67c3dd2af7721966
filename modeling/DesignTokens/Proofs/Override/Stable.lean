import DesignTokens.Proofs.Override.Merge

/-!
Applying an override again, and in another order. An update that was combined with an assignment is
absorbed by the result, so an override that is applied twice is applied once, also in contexts,
whose tokens are combined with tokens that the same override has changed. And since updates do not
meet, their order shows in nothing but the place of new tokens.
-/

namespace DesignTokens

/-! ### Maps that grow -/

namespace OrdMap

variable {α : Type}

/-- A map has the names of an older one first, in their order, and keeps what they stand for except
at some names. -/
structure ExtendsBut (old m : OrdMap α) (named : List String) : Prop where
  order : old.keys <+: m.keys
  kept : ∀ key ∉ named, m.get? key = old.get? key

/-- Two maps hold the same. The names of an older map come first in both, in its order, so that they
differ at most in the place of other names. -/
structure SameBeyond (old m n : OrdMap α) : Prop where
  same : ∀ key, m.get? key = n.get? key
  left : old.keys <+: m.keys
  right : old.keys <+: n.keys

end OrdMap

/-! ### Overrides in another order -/

/-- The same updates, where the tokens, the contexts, and the tokens in a context may stand in
another order. -/
structure Override.Rearranges (o o' : Override) : Prop where
  tokens : o.tokens.entries.Perm o'.tokens.entries
  contexts : ∀ id, Option.Rel (Option.Rel fun u u' => u.entries.Perm u'.entries)
    (o.contexts.get? id) (o'.contexts.get? id)

theorem Override.Rearranges.updatesIn {o o' : Override} (h : o.Rearranges o') (id : String) :
    (o.updatesIn id).entries.Perm (o'.updatesIn id).entries := by
  have hid := h.contexts id
  unfold Override.updatesIn
  generalize o.contexts.get? id = x at hid ⊢
  generalize o'.contexts.get? id = y at hid ⊢
  cases hid with
  | none => exact .refl _
  | some hid =>
      cases hid with
      | none => exact .refl _
      | some hperm => exact hperm

namespace Theme

variable {t : Theme} {o o' : Override} {below : String → Option Assignment}
  {updates updates' tokens : OrdMap Assignment} {token : String} {a inForce update : Assignment}

/-! ### One update twice -/

theorem areStates_iff {m : OrdMap Value} : areStates m.entries = true ↔
    ∀ key v, m.get? key = some v → (!isRungKey key && v.text?.isSome) = true := by
  simp only [areStates, List.all_eq_true, Prod.forall, OrdMap.mem_entries_iff]

theorem areStates_union {m n : OrdMap Value} (hm : areStates m.entries = true)
    (hn : areStates n.entries = true) : areStates (m.union n).entries = true := by
  rw [areStates_iff] at hm hn ⊢
  intro key v hv
  rw [OrdMap.get?_union] at hv
  rcases Option.or_eq_some_iff.mp hv with hv | ⟨-, hv⟩
  · exact hn key v hv
  · exact hm key v hv

theorem areStates_of_statesUnder? {under : OrdMap Value}
    (h : statesUnder? inForce = some under) : areStates under.entries = true := by
  unfold statesUnder? at h
  split at h
  · obtain ⟨hstates, hunder⟩ := Option.ite_none_right_eq_some.mp h
    exact Option.some.inj hunder ▸ hstates
  · obtain ⟨-, hunder⟩ := Option.ite_none_right_eq_some.mp h
    exact Option.some.inj hunder ▸ rfl

/-- An update that was combined with an assignment is absorbed by the result. -/
theorem combine_absorb (h : t.combine token inForce update = some a) :
    t.combine token a update = some a := by
  cases update with
  | text s => cases hmode : t.modeOf token <;> simpa only [combine, hmode] using h
  | other v hv => cases h
  | states values =>
      simp only [combine] at h ⊢
      obtain ⟨hvalues, h⟩ := Option.ite_none_right_eq_some.mp h
      obtain ⟨under, hunder, rfl⟩ := Option.map_eq_some_iff.mp h
      have hunion := areStates_union (areStates_of_statesUnder? hunder) hvalues
      simp only [statesUnder?, hvalues, hunion, if_true, Option.map_some, OrdMap.union_union_self]

theorem revision?_overlay (hupdate : updates.get? token = some update) :
    t.revision? below (t.overlay below updates tokens).1 token update =
      t.revision? below tokens token update := by
  have hafter : (t.overlay below updates tokens).1.get? token =
      (t.revision? below tokens token update).or (tokens.get? token) := by
    rw [get?_overlay, updated, hupdate, Option.bind_some, revision?]
  rw [revision?, hafter]
  cases hrevision : t.revision? below tokens token update with
  | none => rw [Option.none_or, ← revision?, hrevision]
  | some a => exact combine_absorb hrevision

/-- Updates that were written over some assignments change them no further, and those that were
skipped are skipped again. -/
theorem overlay_overlay (t : Theme) (below : String → Option Assignment)
    (updates tokens : OrdMap Assignment) :
    t.overlay below updates (t.overlay below updates tokens).1 =
      t.overlay below updates tokens := by
  have hrevisions : updates.filterMap (t.revision? below (t.overlay below updates tokens).1) =
      updates.filterMap (t.revision? below tokens) :=
    OrdMap.filterMap_congr fun token update hupdate => revision?_overlay hupdate
  have hskipped : (updates.filter fun token update =>
      (t.revision? below (t.overlay below updates tokens).1 token update).isNone) =
      updates.filter fun token update => (t.revision? below tokens token update).isNone :=
    OrdMap.filter_congr fun token update hupdate =>
      congrArg Option.isNone (revision?_overlay hupdate)
  rw [overlay_eq, hrevisions, hskipped, overlay_eq, OrdMap.union_union_self]

/-! ### An override twice -/

section Contexts

variable {given : String → Option (OrdMap Assignment)} {id : String} {c : Context}

theorem recontexted_recontexted :
    t.recontexted given id (t.recontexted given id c) = t.recontexted given id c := by
  cases hgiven : given id with
  | none => rw [recontexted_of_none hgiven, recontexted_of_none hgiven]
  | some updates => simp only [recontexted, hgiven, overlay_overlay]

theorem skippedIn_recontexted {contexts : OrdMap Context}
    {e : String × Option (OrdMap Assignment)} (he : given e.1 = e.2) :
    t.skippedIn (contexts.mapWith (t.recontexted given)) e = t.skippedIn contexts e := by
  unfold skippedIn
  rw [OrdMap.get?_mapWith]
  cases hupdates : e.2 with
  | none => rfl
  | some updates =>
      cases contexts.get? e.1 with
      | none => rfl
      | some c => simp only [Option.map_some, recontexted, he, hupdates, overlay_overlay]

end Contexts

theorem merge_merge (t : Theme) (o : Override) : (t.merge o).theme.merge o = t.merge o := by
  let r := t.retokened o
  let given (id : String) := (o.contexts.get? id).join
  let m : Theme := { r with contexts := t.contexts.mapWith (r.recontexted given) }
  have hmerge : (t.merge o).theme = m := by rw [merge_eq]
  have hown : m.overlay (fun _ => none) o.tokens m.tokens =
      t.overlay (fun _ => none) o.tokens t.tokens :=
    t.overlay_overlay (fun _ => none) o.tokens t.tokens
  have hretokened : m.retokened o = m := by
    rw [retokened, hown]
    rfl
  have hcontexts : m.contexts.mapWith (m.recontexted given) = m.contexts := by
    rw [OrdMap.mapWith_mapWith]
    exact OrdMap.mapWith_congr fun id c _ => recontexted_recontexted (t := r)
  have hskipped : o.contexts.entries.flatMap (m.skippedIn m.contexts) =
      o.contexts.entries.flatMap (r.skippedIn t.contexts) := by
    refine List.flatMap_congr fun e he => ?_
    have hgiven : given e.1 = e.2 := by
      simp only [given, OrdMap.mem_entries_iff.mp he, Option.join_some]
    exact skippedIn_recontexted (t := r) hgiven
  rw [hmerge, merge_eq, hretokened, hcontexts, hskipped, hown, merge_eq]

/-! ### Another order -/

theorem overlay_sameBeyond (h : updates.entries.Perm updates'.entries) :
    tokens.SameBeyond (t.overlay below updates tokens).1 (t.overlay below updates' tokens).1 where
  same key := by
    rw [get?_overlay, get?_overlay, updated, updated, OrdMap.get?_eq_of_perm h]
  left := t.keys_overlay_prefix below updates tokens
  right := t.keys_overlay_prefix below updates' tokens

/-- Two themes made from an older one differ at most in the place of tokens that it does not have,
in themselves and in each context. -/
structure SameBeyond (t m n : Theme) : Prop where
  rest : n = { m with tokens := n.tokens, contexts := n.contexts }
  tokens : t.tokens.SameBeyond m.tokens n.tokens
  contextIds : m.contexts.keys = n.contexts.keys
  contexts : ∀ id c, t.contexts.get? id = some c → ∃ d e, m.contexts.get? id = some d ∧
    n.contexts.get? id = some e ∧ e = { d with tokens := e.tokens } ∧
      c.tokens.SameBeyond d.tokens e.tokens

theorem keys_contexts_merge (t : Theme) (o : Override) :
    (t.merge o).theme.contexts.keys = t.contexts.keys := by
  rw [merge_eq, OrdMap.keys_mapWith]

theorem merge_sameBeyond (t : Theme) (h : o.Rearranges o') :
    t.SameBeyond (t.merge o).theme (t.merge o').theme where
  rest := by
    obtain ⟨contexts, hm⟩ := t.merge_theme o
    obtain ⟨contexts', hn⟩ := t.merge_theme o'
    rw [hm, hn]
    rfl
  tokens := by
    rw [merge_eq, merge_eq]
    exact overlay_sameBeyond h.tokens
  contextIds := by rw [keys_contexts_merge, keys_contexts_merge]
  contexts id c hc := by
    have htokens : (t.merge o').theme.tokens.get? = (t.merge o).theme.tokens.get? := by
      funext token
      rw [get?_tokens_merge, get?_tokens_merge, updated, updated, OrdMap.get?_eq_of_perm h.tokens]
    refine ⟨_, _, (t.get?_contexts_merge o id).trans (congrArg (Option.map _) hc),
      (t.get?_contexts_merge o' id).trans (congrArg (Option.map _) hc), rfl, ?_⟩
    rw [htokens]
    exact overlay_sameBeyond (h.updatesIn id)

/-! ### What an override reaches -/

/-- A context is a context before an override with its tokens revised. Each token that the override
names there was combined with what was in force: the context's own assignment, or else that of the
theme after the override. -/
structure ContextRevised (t m : Theme) (updates : OrdMap Assignment) (c d : Context) : Prop where
  rest : d = { c with tokens := d.tokens }
  tokens : c.tokens.ExtendsBut d.tokens updates.keys
  named : ∀ token update, updates.get? token = some update → d.tokens.get? token =
    (t.combine token (((c.tokens.get? token).or (m.tokens.get? token)).getD .null) update).or
      (c.tokens.get? token)

/-- A theme is another one with its tokens revised by an override, and those of its contexts. Each
token that the override names was combined with its assignment. -/
structure Revises (o : Override) (t m : Theme) : Prop where
  rest : m = { t with tokens := m.tokens, contexts := m.contexts }
  tokens : t.tokens.ExtendsBut m.tokens o.tokens.keys
  named : ∀ token update, o.tokens.get? token = some update → m.tokens.get? token =
    (t.combine token ((t.tokens.get? token).getD .null) update).or (t.tokens.get? token)
  contextIds : m.contexts.keys = t.contexts.keys
  contexts : ∀ id c, t.contexts.get? id = some c →
    ∃ d, m.contexts.get? id = some d ∧ ContextRevised t m (o.updatesIn id) c d

theorem overlay_extendsBut (t : Theme) (below : String → Option Assignment)
    (updates tokens : OrdMap Assignment) :
    tokens.ExtendsBut (t.overlay below updates tokens).1 updates.keys where
  order := t.keys_overlay_prefix below updates tokens
  kept _ hkey := t.get?_overlay_of_notMem below hkey

theorem merge_revises (t : Theme) (o : Override) : Revises o t (t.merge o).theme where
  rest := by
    obtain ⟨contexts, hm⟩ := t.merge_theme o
    rw [hm]
    rfl
  tokens := by
    rw [merge_eq]
    exact t.overlay_extendsBut _ _ _
  named token update hupdate := by
    rw [get?_tokens_merge, updated, hupdate, Option.bind_some, Option.or_none]
  contextIds := t.keys_contexts_merge o
  contexts id c hc := by
    refine ⟨_, (t.get?_contexts_merge o id).trans (congrArg (Option.map _) hc), rfl,
      t.overlay_extendsBut _ _ _, fun token update hupdate => ?_⟩
    rw [get?_overlay, updated, hupdate, Option.bind_some]

/-! ### When it is applied -/

theorem mem_namedBy : token ∈ t.namedBy o ↔ token ∈ o.tokens.keys ∨
    ∃ id ∈ t.contexts.keys, token ∈ (o.updatesIn id).keys := by
  rw [namedBy, List.mem_append, List.mem_flatMap]
  refine or_congr_right ⟨?_, ?_⟩
  · rintro ⟨⟨id, updates⟩, he, htoken⟩
    obtain ⟨hid, htoken⟩ : t.contexts.contains id = true ∧
        token ∈ (updates.map OrdMap.keys).getD [] := by
      split at htoken
      · next hid => exact ⟨hid, htoken⟩
      · cases htoken
    refine ⟨id, OrdMap.contains_iff.mp hid, ?_⟩
    rw [Override.updatesIn, OrdMap.mem_entries_iff.mp he, Option.join_some]
    cases updates with
    | none => cases htoken
    | some updates => exact htoken
  · rintro ⟨id, hid, htoken⟩
    unfold Override.updatesIn at htoken
    cases he : o.contexts.get? id with
    | none => simp [he, OrdMap.keys, OrdMap.empty] at htoken
    | some updates =>
        refine ⟨(id, updates), OrdMap.mem_entries_iff.mpr he, ?_⟩
        rw [if_pos (OrdMap.contains_iff.mpr hid)]
        cases updates with
        | none => simp [he, OrdMap.keys, OrdMap.empty] at htoken
        | some updates => simpa [he] using htoken

theorem mem_namedBy_of_rearranges (h : o.Rearranges o') :
    token ∈ t.namedBy o' ↔ token ∈ t.namedBy o := by
  have hkeys : ∀ {m n : OrdMap Assignment}, m.entries.Perm n.entries →
      (token ∈ n.keys ↔ token ∈ m.keys) := fun hperm => (hperm.map Prod.fst).mem_iff.symm
  simp only [mem_namedBy, hkeys h.tokens, hkeys (h.updatesIn _)]

/-- An override that is applied again changes nothing more; its order shows in nothing but the place
of new tokens; and it reaches only what it names. -/
theorem merged_stable
    (hmodes : ∀ token ∈ t.namedBy o, ∃ mode?, t.modeFor token = .ok mode?) :
    ∃ m, t.merged o = .ok m ∧ m.theme.merged o = .ok m ∧
      (∀ o', o.Rearranges o' → ∃ m', t.merged o' = .ok m' ∧ t.SameBeyond m.theme m'.theme) ∧
      Revises o t m.theme := by
  refine ⟨t.merge o, merged_eq_ok hmodes, ?_, fun o' h => ?_, t.merge_revises o⟩
  · have hagain : ∀ token ∈ (t.merge o).theme.namedBy o,
        ∃ mode?, (t.merge o).theme.modeFor token = .ok mode? := by
      intro token htoken
      rw [mem_namedBy, keys_contexts_merge, ← mem_namedBy] at htoken
      rw [modeFor_merge]
      exact hmodes token htoken
    rw [merged_eq_ok hagain, merge_merge]
  · refine ⟨t.merge o', merged_eq_ok fun token htoken => ?_, t.merge_sameBeyond h⟩
    exact hmodes token ((mem_namedBy_of_rearranges h).mp htoken)

/-! ### An override of a theme and of its context

The override spreads one text over the states of a mode, and changes the token at one of the states
in a context, which does not assign it yet.
-/

def hour : Mode where
  id := "hour"
  states := .ofList [("day", .fallback true), ("night", .optional ".night" .null)]
  id_truthy := rfl

def hall : Context where
  id := "hall"
  selector := ".hall"
  tokens := .ofList [("width", .text "2")]

def hourly : Theme where
  id := "hourly"
  selector := ".t"
  tokens := .ofList [
    ("paper", .states (.ofList [("day", .text "white"), ("night", .text "black")])),
    ("width", .text "1")]
  modes := .ofList [("hour", hour)]
  bindings := .ofList [("paper", .text "hour")]
  contexts := .ofList [("hall", hall)]

def greyed : Override where
  tokens := .ofList [("paper", .text "grey"), ("height", .text "3")]
  contexts := .ofList [
    ("hall", some (.ofList [("paper", .states (.ofList [("night", .text "navy")])),
      ("width", .states (.ofList [("night", .text "4")]))])),
    ("attic", none)]

theorem merged_stable_greyed :
    (∀ token ∈ hourly.namedBy greyed, ∃ mode?, hourly.modeFor token = .ok mode?) ∧
      ∃ m, hourly.merged greyed = .ok m ∧ m.theme.merged greyed = .ok m ∧
        (∀ o', greyed.Rearranges o' →
          ∃ m', hourly.merged o' = .ok m' ∧ hourly.SameBeyond m.theme m'.theme) ∧
        Revises greyed hourly m.theme := by
  have hmodes : ∀ token ∈ hourly.namedBy greyed, ∃ mode?, hourly.modeFor token = .ok mode? := by
    intro token _
    refine ⟨_, modeFor_eq_ok fun v hv => ?_⟩
    have hbound : hourly.bindings.get? token =
        if token = "paper" then some (Value.text "hour") else none :=
      OrdMap.get?_insert .empty "paper" token (Value.text "hour")
    rw [hbound] at hv
    split at hv
    · exact ⟨"hour", (Option.some.inj hv).symm⟩
    · cases hv
  exact ⟨hmodes, merged_stable hmodes⟩

/-- The token of the context starts from what the theme has after the override, and so is grey by
day; the width has no states. -/
example : hourly.merge greyed =
    ⟨{ hourly with
        tokens := .ofList [
          ("paper", .states (.ofList [("day", .text "grey"), ("night", .text "grey")])),
          ("width", .text "1"), ("height", .text "3")]
        contexts := .ofList [("hall", { hall with
          tokens := .ofList [("width", .text "2"),
            ("paper", .states (.ofList [("day", .text "grey"), ("night", .text "navy")]))] })] },
      ["width"]⟩ := by
  rfl

end Theme

end DesignTokens
