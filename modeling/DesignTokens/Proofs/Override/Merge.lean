import DesignTokens.Override.Merge
import DesignTokens.Proofs.OrdMap

/-!
What applying an override does to a theme, in closed form. The updates of an override read each
other's results nowhere: an update is combined with the assignment that was in force before any of
them, and those that fit are written over the assignments all at once. Contexts are updated one by
one over a theme whose own tokens are updated already; modes and bindings stay as they are.
-/

namespace DesignTokens

/-- The updates that an override has for the context with an id. -/
def Override.updatesIn (o : Override) (id : String) : OrdMap Assignment :=
  (o.contexts.get? id).join.getD .empty

namespace Theme

variable (t : Theme) (below : String → Option Assignment)

/-! ### Updates of tokens -/

/-- A token after its update; without one that fits it stays as it is. -/
def updated (updates tokens : OrdMap Assignment) (token : String) : Option Assignment :=
  ((updates.get? token).bind
    (t.combine token (((tokens.get? token).or (below token)).getD .null))).or (tokens.get? token)

/-- What an update makes of a token, if it fits the assignment in force. -/
def revision? (tokens : OrdMap Assignment) (token : String) (update : Assignment) :
    Option Assignment :=
  t.combine token (((tokens.get? token).or (below token)).getD .null) update

/-- Writes one update over the assignments, or skips it. -/
def overwrite (acc : OrdMap Assignment × List String) (e : String × Assignment) :
    OrdMap Assignment × List String :=
  (t.revision? below acc.1 e.1 e.2).elim (acc.1, acc.2 ++ [e.1]) fun a =>
    (acc.1.insert e.1 a, acc.2)

theorem overlay_eq_foldl (updates tokens : OrdMap Assignment) :
    t.overlay below updates tokens =
      updates.entries.foldl (t.overwrite below) (tokens, []) := by
  unfold overlay
  congr 1
  funext ⟨now, skipped⟩ ⟨token, update⟩
  simp only [overwrite, revision?]
  cases t.combine token (((now.get? token).or (below token)).getD .null) update <;> rfl

/-- The updates that fit are written over the assignments, the others are skipped. -/
theorem overlay_eq (updates tokens : OrdMap Assignment) :
    t.overlay below updates tokens =
      (tokens.union (updates.filterMap (t.revision? below tokens)),
        (updates.filter fun token update =>
          (t.revision? below tokens token update).isNone).keys) := by
  -- the assignments written so far are those of other tokens, so that the rest sees the old ones
  suffices H : ∀ (es : List (String × Assignment)) (now : OrdMap Assignment)
      (skipped : List String), (es.map Prod.fst).Nodup →
      (∀ e ∈ es, now.get? e.1 = tokens.get? e.1) →
      es.foldl (t.overwrite below) (now, skipped) =
      ((es.filterMap fun e => (t.revision? below tokens e.1 e.2).map (e.1, ·)).foldl
          (fun acc e => acc.insert e.1 e.2) now,
        skipped ++ (es.filter fun e => (t.revision? below tokens e.1 e.2).isNone).map Prod.fst) from
    (t.overlay_eq_foldl below updates tokens).trans
      (H updates.entries tokens [] updates.nodup fun _ _ => rfl)
  intro es
  induction es with
  | nil => intro now skipped _ _; simp
  | cons e es ih =>
      intro now skipped hes hnow
      rw [List.map_cons, List.nodup_cons] at hes
      obtain ⟨htoken, hnow⟩ := List.forall_mem_cons.mp hnow
      have hfits : t.revision? below now e.1 e.2 = t.revision? below tokens e.1 e.2 := by
        rw [revision?, revision?, htoken]
      rw [List.foldl_cons, overwrite, hfits]
      cases hrevision : t.revision? below tokens e.1 e.2 with
      | none =>
          rw [Option.elim_none, ih _ _ hes.2 hnow]
          simp [hrevision]
      | some a =>
          rw [Option.elim_some, ih _ _ hes.2 fun e' he' => ?_]
          · simp [hrevision]
          · have hne : e'.1 ≠ e.1 := fun heq => hes.1 (List.mem_map.mpr ⟨e', he', heq⟩)
            rw [OrdMap.get?_insert, if_neg hne, hnow e' he']

theorem get?_overlay (updates tokens : OrdMap Assignment) (token : String) :
    (t.overlay below updates tokens).1.get? token = t.updated below updates tokens token := by
  rw [overlay_eq, OrdMap.get?_union, OrdMap.get?_filterMap]
  rfl

theorem mem_keys_overlay {updates tokens : OrdMap Assignment} {token : String}
    (h : ∀ x ∈ updates.keys, x ∈ tokens.keys) :
    token ∈ (t.overlay below updates tokens).1.keys ↔ token ∈ tokens.keys := by
  rw [OrdMap.mem_keys_iff, OrdMap.mem_keys_iff, get?_overlay, updated]
  cases hu : updates.get? token with
  | none => simp
  | some u =>
      obtain ⟨a, ha⟩ := OrdMap.mem_keys_iff.mp (h token (OrdMap.mem_keys_of_get? hu))
      simp only [ha, Option.bind_some]
      cases t.combine token (((some a).or (below token)).getD .null) u <;> simp

/-- Updated tokens keep their order, and new ones come after them. -/
theorem keys_overlay_prefix (updates tokens : OrdMap Assignment) :
    tokens.keys <+: (t.overlay below updates tokens).1.keys := by
  rw [overlay_eq, OrdMap.keys_union]
  exact List.prefix_append _ _

theorem get?_overlay_of_notMem {updates tokens : OrdMap Assignment} {token : String}
    (h : token ∉ updates.keys) :
    (t.overlay below updates tokens).1.get? token = tokens.get? token := by
  rw [get?_overlay, updated, OrdMap.get?_eq_none_iff.mpr h, Option.bind_none, Option.none_or]

/-! ### The theme around the tokens -/

/-- A theme with the tokens of an override, its contexts as they were. -/
def retokened (o : Override) : Theme :=
  { t with tokens := (t.overlay (fun _ => none) o.tokens t.tokens).1 }

/-- A context with the updates given for its id written over the assignments in force in it. -/
def recontexted (updates : String → Option (OrdMap Assignment)) (id : String) (c : Context) :
    Context :=
  match updates id with
  | some updates => { c with tokens := (t.overlay t.tokens.get? updates c.tokens).1 }
  | none => c

/-- The tokens that are skipped in the context with an id. -/
def skippedIn (contexts : OrdMap Context) (e : String × Option (OrdMap Assignment)) : List String :=
  match e.2, contexts.get? e.1 with
  | some updates, some c => (t.overlay t.tokens.get? updates c.tokens).2
  | _, _ => []

variable {t}

/-- Without updates a context stays as it is. -/
theorem recontexted_of_none {updates : String → Option (OrdMap Assignment)} {id : String}
    (h : updates id = none) (c : Context) : t.recontexted updates id c = c := by
  simp only [recontexted, h]

theorem mergeContext_eq (contexts : OrdMap Context) (skipped : List String) (id : String)
    (updates : Option (OrdMap Assignment)) :
    mergeContext ⟨{ t with contexts := contexts }, skipped⟩ id updates =
      ⟨{ t with
          contexts := contexts.mapWith
            (t.recontexted fun key => if key = id then updates else none) },
        skipped ++ t.skippedIn contexts (id, updates)⟩ := by
  cases updates with
  | none =>
      have hsame : contexts.mapWith (t.recontexted fun key => if key = id then none else none) =
          contexts := OrdMap.mapWith_eq_self fun key c _ => recontexted_of_none (by simp) c
      rw [hsame, skippedIn, List.append_nil]
      rfl
  | some updates =>
      cases hc : contexts.get? id with
      | none =>
          have hsame : contexts.mapWith
              (t.recontexted fun key => if key = id then some updates else none) = contexts := by
            refine OrdMap.mapWith_eq_self fun key c hkey => recontexted_of_none (if_neg ?_) c
            rintro rfl
            cases hc.symm.trans hkey
          simp only [mergeContext, skippedIn, hc, hsame, List.append_nil]
      | some c =>
          simp only [mergeContext, skippedIn, hc]
          rw [OrdMap.insert_eq_mapWith hc]
          congr 2
          refine OrdMap.mapWith_congr fun key d hd => ?_
          by_cases hkey : key = id
          · subst hkey
            obtain rfl : c = d := Option.some.inj (hc.symm.trans hd)
            simp only [recontexted, if_true]
            rfl
          · simp only [recontexted, if_neg hkey]

/-- Updates of contexts are all made from the theme as it is before them. -/
theorem foldl_mergeContext {es : List (String × Option (OrdMap Assignment))}
    (hes : (es.map Prod.fst).Nodup) (contexts : OrdMap Context) (skipped : List String) :
    es.foldl (fun m e => mergeContext m e.1 e.2) ⟨{ t with contexts := contexts }, skipped⟩ =
      ⟨{ t with
          contexts := contexts.mapWith (t.recontexted fun id => (es.lookup id).join) },
        skipped ++ es.flatMap (t.skippedIn contexts)⟩ := by
  induction es generalizing contexts skipped with
  | nil =>
      have hsame : contexts.mapWith (t.recontexted fun id => ([].lookup id).join) = contexts :=
        OrdMap.mapWith_eq_self fun id c _ => recontexted_of_none rfl c
      rw [hsame, List.flatMap_nil, List.append_nil]
      rfl
  | cons e es ih =>
      obtain ⟨id, updates⟩ := e
      rw [List.map_cons, List.nodup_cons] at hes
      have hcontexts : (contexts.mapWith (t.recontexted fun key =>
          if key = id then updates else none)).mapWith
            (t.recontexted fun key => (es.lookup key).join) =
          contexts.mapWith (t.recontexted fun key => (((id, updates) :: es).lookup key).join) := by
        rw [OrdMap.mapWith_mapWith]
        refine OrdMap.mapWith_congr fun key c _ => ?_
        by_cases hkey : key = id
        · have hrest : es.lookup key = none := Entries.lookup_eq_none_iff.mpr (hkey ▸ hes.1)
          rw [recontexted_of_none (by rw [hrest]; rfl)]
          simp only [recontexted, Entries.lookup_cons, if_pos hkey, Option.join_some]
        · simp only [recontexted, Entries.lookup_cons, if_neg hkey]
      have hskipped : es.flatMap (t.skippedIn (contexts.mapWith (t.recontexted fun key =>
          if key = id then updates else none))) = es.flatMap (t.skippedIn contexts) := by
        refine List.flatMap_congr fun e he => ?_
        have hne : e.1 ≠ id := fun heq => hes.1 (List.mem_map.mpr ⟨e, he, heq⟩)
        have hget : (contexts.mapWith (t.recontexted fun key =>
            if key = id then updates else none)).get? e.1 = contexts.get? e.1 := by
          rw [OrdMap.get?_mapWith]
          cases contexts.get? e.1 with
          | none => rfl
          | some c => rw [Option.map_some, recontexted_of_none (if_neg hne)]
        simp only [skippedIn, hget]
      rw [List.foldl_cons, mergeContext_eq, ih hes.2, hcontexts, hskipped, List.flatMap_cons,
        List.append_assoc]

variable (t)

theorem merge_eq (o : Override) : t.merge o =
    ⟨{ t.retokened o with
        contexts := t.contexts.mapWith
          ((t.retokened o).recontexted fun id => (o.contexts.get? id).join) },
      (t.overlay (fun _ => none) o.tokens t.tokens).2 ++
        o.contexts.entries.flatMap ((t.retokened o).skippedIn t.contexts)⟩ :=
  foldl_mergeContext (t := t.retokened o) o.contexts.nodup t.contexts _

theorem merge_theme (o : Override) :
    ∃ contexts, (t.merge o).theme = { t.retokened o with contexts := contexts } := by
  rw [merge_eq]
  exact ⟨_, rfl⟩

theorem get?_tokens_merge (o : Override) (token : String) :
    (t.merge o).theme.tokens.get? token =
      t.updated (fun _ => none) o.tokens t.tokens token := by
  rw [merge_eq]
  exact t.get?_overlay _ _ _ _

/-- A context after an override; where it has no updates for it, none are written over it. -/
theorem recontexted_eq (o : Override) (id : String) (c : Context) :
    t.recontexted (fun id => (o.contexts.get? id).join) id c =
      { c with tokens := (t.overlay t.tokens.get? (o.updatesIn id) c.tokens).1 } := by
  cases hupdates : (o.contexts.get? id).join with
  | none =>
      simp only [recontexted, Override.updatesIn, hupdates]
      rfl
  | some updates => simp only [recontexted, Override.updatesIn, hupdates, Option.getD_some]

theorem get?_contexts_merge (o : Override) (id : String) :
    (t.merge o).theme.contexts.get? id = (t.contexts.get? id).map fun c =>
      { c with tokens :=
          (t.overlay (t.merge o).theme.tokens.get? (o.updatesIn id) c.tokens).1 } := by
  rw [merge_eq, OrdMap.get?_mapWith]
  exact congrArg (Option.map · (t.contexts.get? id))
    (funext fun c => (t.retokened o).recontexted_eq o id c)

theorem modeOf_merge (o : Override) : (t.merge o).theme.modeOf = t.modeOf := by
  rw [merge_eq]
  rfl

theorem modeFor_merge (o : Override) : (t.merge o).theme.modeFor = t.modeFor := by
  rw [merge_eq]
  rfl

variable {t}

theorem merged_eq_ok {o : Override}
    (hmodes : ∀ token ∈ t.namedBy o, ∃ mode?, t.modeFor token = .ok mode?) :
    t.merged o = .ok (t.merge o) := by
  refine Outcome.bind_eq_ok.mpr ⟨(), ?_, rfl⟩
  exact Outcome.forM_eq_ok.mpr fun token htoken => Outcome.discard_eq_ok.mpr (hmodes token htoken)

end Theme

end DesignTokens
