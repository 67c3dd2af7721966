import Mathlib.Data.List.Induction
import DesignTokens.Override.Sanitize
import DesignTokens.Proofs.Override.Merge

/-!
What sanitising an override comes to. A part of the run that meets some misnomers announces those of
them that nobody met before, and nothing else of what was met before matters to it. So parts of the
run compose, and the whole run announces the first occurrences in the whole override, in order.
-/

namespace DesignTokens

/-! ### First occurrences -/

section Firsts

variable {α : Type} {same : α → α → Bool} {all firsts l news : List α} {a b : α}

/-- Keeps the first of items that count as the same. -/
def firstsBy (same : α → α → Bool) : List α → List α
  | [] => []
  | a :: rest => a :: (firstsBy same rest).filter fun b => !same a b

/-- One item of the list for all that count as the same, in the order of their first occurrences:
what belongs to an initial part of the list occurs in it and stands for all of it. -/
structure AreFirsts (same : α → α → Bool) (all firsts : List α) : Prop where
  subset : firsts ⊆ all
  distinct : firsts.Pairwise fun a b => same a b = false
  order : ∀ before, before <+: all → ∃ met, met <+: firsts ∧ met ⊆ before ∧
    ∀ a ∈ before, ∃ b ∈ met, same b a = true

theorem firstsBy_subset (l : List α) : firstsBy same l ⊆ l := by
  induction l with
  | nil => exact List.Subset.refl _
  | cons a rest ih =>
      refine List.cons_subset_cons a fun b hb => ?_
      exact ih (List.mem_filter.mp hb).1

theorem pairwise_firstsBy (l : List α) :
    (firstsBy same l).Pairwise fun a b => same a b = false := by
  induction l with
  | nil => exact .nil
  | cons a rest ih =>
      refine List.pairwise_cons.mpr ⟨fun b hb => ?_, ih.filter _⟩
      simpa using (List.mem_filter.mp hb).2

variable (hrefl : ∀ a, same a a = true)
  (htrans : ∀ a b c, same a b = true → same b c = true → same a c = true)

include hrefl htrans in
/-- Every item is stood for. -/
theorem exists_firstsBy (ha : a ∈ l) : ∃ b ∈ firstsBy same l, same b a = true := by
  induction l with
  | nil => cases ha
  | cons x rest ih =>
      cases hx : same x a with
      | true => exact ⟨x, List.mem_cons_self, hx⟩
      | false =>
          rcases List.mem_cons.mp ha with rfl | ha
          · exact absurd ((hrefl a).symm.trans hx) Bool.noConfusion
          · obtain ⟨b, hb, hba⟩ := ih ha
            refine ⟨b, List.mem_cons_of_mem _ (List.mem_filter.mpr ⟨hb, ?_⟩), hba⟩
            rw [Bool.not_eq_true', Bool.eq_false_iff]
            intro hxb
            exact Bool.noConfusion ((htrans x b a hxb hba).symm.trans hx)

include htrans in
/-- An item at the end is kept if nothing before it counts as the same. -/
theorem firstsBy_concat (l : List α) (a : α) : firstsBy same (l ++ [a]) =
    firstsBy same l ++ if (firstsBy same l).any (same · a) then [] else [a] := by
  induction l with
  | nil => rfl
  | cons x rest ih =>
      rw [List.cons_append, firstsBy, ih, List.filter_append, firstsBy, List.cons_append,
        List.any_cons]
      congr 2
      cases hx : same x a with
      | true => split <;> simp [hx]
      | false =>
          -- what stands for the item in the rest is not dropped on account of `x`
          have hany : ((firstsBy same rest).filter fun b => !same x b).any (same · a) =
              (firstsBy same rest).any (same · a) := by
            rw [List.any_filter]
            refine List.any_congr rfl fun b => ?_
            cases hba : same b a with
            | false => rw [Bool.and_false]
            | true =>
                rw [Bool.and_true, Bool.not_eq_true', Bool.eq_false_iff]
                intro hxb
                exact Bool.noConfusion ((htrans x b a hxb hba).symm.trans hx)
          rw [hany, Bool.false_or]
          split <;> simp [hx]

include htrans in
theorem firstsBy_prefix (h : l <+: all) : firstsBy same l <+: firstsBy same all := by
  obtain ⟨rest, rfl⟩ := h
  induction rest using List.reverseRecOn with
  | nil => simp
  | append_singleton rest a ih =>
      rw [← List.append_assoc, firstsBy_concat htrans]
      exact ih.trans (List.prefix_append _ _)

include hrefl htrans in
theorem areFirsts_firstsBy (all : List α) : AreFirsts same all (firstsBy same all) where
  subset := firstsBy_subset all
  distinct := pairwise_firstsBy all
  order before hbefore := ⟨firstsBy same before, firstsBy_prefix htrans hbefore,
    firstsBy_subset before, fun _ ha => exists_firstsBy hrefl htrans ha⟩

end Firsts

/-! ### Misnomers -/

namespace Misnomer

/-- The same token, wherever it is named, or the same context. -/
def same : Misnomer → Misnomer → Bool
  | token a _, token b _ => a == b
  | context a, context b => a == b
  | _, _ => false

theorem same_refl (a : Misnomer) : same a a = true := by
  cases a <;> exact beq_self_eq_true _

theorem same_trans (a b c : Misnomer) (hab : same a b = true) (hbc : same b c = true) :
    same a c = true := by
  cases a <;> cases b <;> cases c <;> simp_all [same]

def token? : Misnomer → Option String
  | token name _ => some name
  | context _ => none

def context? : Misnomer → Option String
  | token .. => none
  | context id => some id

/-- The first of all misnomers that are the same. -/
def firsts (all : List Misnomer) : List Misnomer := firstsBy same all

theorem firsts_concat (met : List Misnomer) (x : Misnomer) :
    firsts (met ++ [x]) = firsts met ++ if (firsts met).any (same · x) then [] else [x] :=
  firstsBy_concat same_trans met x

end Misnomer

namespace Override

section Spec

variable (themeable contexts : List String)

/-- Misnomers among tokens, in order. -/
def unthemeable (context : Option String) (tokens : List String) : List Misnomer :=
  (tokens.filter fun token => !themeable.contains token).map (.token · context)

theorem unthemeable_cons (context : Option String) (token : String) (tokens : List String) :
    unthemeable themeable context (token :: tokens) =
      (if themeable.contains token then [] else [.token token context]) ++
        unthemeable themeable context tokens := by
  unfold unthemeable
  rw [List.filter_cons]
  cases themeable.contains token <;> rfl

/-- Misnomers in an entry for a context, in order. An entry without content names nothing. -/
def misnomersIn : String × Option (OrdMap Assignment) → List Misnomer
  | (_, none) => []
  | (id, some tokens) =>
    if contexts.contains id then unthemeable themeable (some id) tokens.keys else [.context id]

/-- All that an override names but must not, in order, with repetitions. -/
def misnomers (o : Override) : List Misnomer :=
  unthemeable themeable none o.tokens.keys ++
    o.contexts.entries.flatMap (misnomersIn themeable contexts)

/-- The themeable ones of some tokens. -/
def keep (tokens : OrdMap Assignment) : OrdMap Assignment :=
  tokens.filter fun token _ => themeable.contains token

/-- What remains of an entry for a context. -/
def keepIn (id : String) : Option (OrdMap Assignment) → Option (Option (OrdMap Assignment))
  | none => none
  | some tokens => if contexts.contains id then some (some (keep themeable tokens)) else none

/-- The themeable tokens of an override, in the theme and in contexts that exist. -/
def sanitized (o : Override) : Override :=
  ⟨keep themeable o.tokens, o.contexts.filterMap (keepIn themeable contexts)⟩

/-- The findings on an override: one for each token and each context that is dropped. -/
def findings (o : Override) : List Diagnostic :=
  (Misnomer.firsts (o.misnomers themeable contexts)).map Misnomer.diagnostic

end Spec

/-! ### Runs -/

section Runs

variable {m : Type → Type} [Monad m]

/-- How one finding is made known: in the log first, then to whoever else listens. -/
def Listeners.announce (on : Listeners m) (d : Diagnostic) : m Unit := do
  on.log (findingNote d)
  if let some onDiagnostic := on.onDiagnostic? then onDiagnostic d

/-- What was reported when some misnomers were met. -/
def Reports.of (met : List Misnomer) : Reports where
  tokens := (Misnomer.firsts met).filterMap Misnomer.token?
  contexts := (Misnomer.firsts met).filterMap Misnomer.context?
  diagnostics := (Misnomer.firsts met).map Misnomer.diagnostic

/-- A part of the run meets some misnomers and gives a result: whatever was met before, those that
are new are announced, in order. -/
def Meets {α : Type} (on : Listeners m) (c : StateT Reports m α) (found : List Misnomer) (a : α) :
    Prop :=
  ∀ met, ∃ news, Misnomer.firsts (met ++ found) = Misnomer.firsts met ++ news ∧
    c.run (.of met) = do
      (news.map Misnomer.diagnostic).forM on.announce
      return (a, .of (met ++ found))

variable [LawfulMonad m] {on : Listeners m}

theorem run_report (d : Diagnostic) (r : Reports) : (report on d).run r = do
    on.announce d
    return ((), { r with diagnostics := r.diagnostics ++ [d] }) := by
  unfold report Listeners.announce
  cases on.onDiagnostic? <;> simp [StateT.run_bind]

namespace Reports

variable {met : List Misnomer} {x : Misnomer}

@[simp] theorem diagnostics_remember (r : Reports) (x : Misnomer) :
    (r.remember x).diagnostics = r.diagnostics := by
  cases x <;> rfl

theorem knows_of (met : List Misnomer) (x : Misnomer) :
    (of met).knows x = (Misnomer.firsts met).any (Misnomer.same · x) := by
  unfold of
  generalize Misnomer.firsts met = l
  induction l with
  | nil => cases x <;> rfl
  | cons y l ih =>
      rw [List.any_cons, ← ih]
      have hcons : ∀ (a b : String) (names : List String),
          (b :: names).contains a = (b == a || names.contains a) := by
        intro a b names
        rw [List.contains_cons, BEq.comm]
      cases x with
      | token name context =>
          cases y with
          | token a _ => exact hcons name a _
          | context a => exact (Bool.false_or _).symm
      | context id =>
          cases y with
          | token a _ => exact (Bool.false_or _).symm
          | context a => exact hcons id a _

/-- What is known is not reported again. -/
theorem of_concat_of_knows (h : (of met).knows x = true) : of (met ++ [x]) = of met := by
  rw [knows_of] at h
  unfold of
  rw [Misnomer.firsts_concat, h, if_pos rfl, List.append_nil]

theorem of_concat (h : (of met).knows x = false) : of (met ++ [x]) =
    { (of met).remember x with diagnostics := (of met).diagnostics ++ [x.diagnostic] } := by
  rw [knows_of] at h
  unfold of
  rw [Misnomer.firsts_concat, h, if_neg Bool.false_ne_true]
  cases x <;> simp [remember, Misnomer.token?, Misnomer.context?]

end Reports

namespace Meets

variable {α β : Type} {a : α} {b : β} {found more : List Misnomer}

theorem of_pure (a : α) : Meets on (pure a) [] a := by
  intro met
  refine ⟨[], by rw [List.append_nil, List.append_nil], ?_⟩
  simp

theorem bind {c : StateT Reports m α} {f : α → StateT Reports m β} (h : Meets on c found a)
    (hf : Meets on (f a) more b) : Meets on (c >>= f) (found ++ more) b := by
  intro met
  obtain ⟨news, hnews, hrun⟩ := h met
  obtain ⟨later, hlater, hrest⟩ := hf (met ++ found)
  refine ⟨news ++ later, ?_, ?_⟩
  · rw [← List.append_assoc, hlater, hnews, List.append_assoc]
  · rw [StateT.run_bind, hrun, List.map_append, ← List.append_assoc]
    simp only [List.forM_eq_forM, List.forM_append, bind_assoc, pure_bind, hrest]

theorem map {c : StateT Reports m α} {f : α → β} (h : Meets on c found a) :
    Meets on (do return f (← c)) found (f a) := by
  have hbind := h.bind (f := fun a => pure (f a)) (.of_pure (f a))
  rwa [List.append_nil] at hbind

/-- Something that does not stay is met. -/
theorem vet (allowed : Bool) (x : Misnomer) :
    Meets on (Override.vet on allowed x) (if allowed then [] else [x]) allowed := by
  cases allowed with
  | true => exact .of_pure true
  | false =>
      intro met
      have hfirsts := Misnomer.firsts_concat met x
      rw [← Reports.knows_of] at hfirsts
      unfold Override.vet
      cases hknown : (Reports.of met).knows x with
      | true =>
          rw [hknown, if_pos rfl] at hfirsts
          refine ⟨[], hfirsts, ?_⟩
          simp [hknown, Reports.of_concat_of_knows hknown]
      | false =>
          rw [hknown, if_neg Bool.false_ne_true] at hfirsts
          refine ⟨[x], hfirsts, ?_⟩
          simp [hknown, run_report, Reports.of_concat hknown]

end Meets

section Lists

variable {themeable contexts : List String} {context : Option String}

/-! ### Whole lists -/

theorem meets_keepTokens (es : List (String × Assignment)) :
    Meets on (keepTokens on themeable context es)
      (unthemeable themeable context (es.map Prod.fst))
      (es.filter fun e => themeable.contains e.1) := by
  induction es with
  | nil => exact .of_pure []
  | cons e es ih =>
      rw [List.map_cons, unthemeable_cons, List.filter_cons]
      exact (Meets.vet _ _).bind ih.map

theorem meets_keepContexts (es : List (String × Option (OrdMap Assignment))) :
    Meets on (keepContexts on themeable contexts es) (es.flatMap (misnomersIn themeable contexts))
      (es.filterMap fun e => (keepIn themeable contexts e.1 e.2).map (e.1, ·)) := by
  induction es with
  | nil => exact .of_pure []
  | cons e es ih =>
      obtain ⟨id, tokens?⟩ := e
      rw [List.flatMap_cons, List.filterMap_cons]
      cases tokens? with
      | none => exact ih
      | some tokens =>
          rw [misnomersIn, keepIn]
          cases hmem : contexts.contains id with
          | true =>
              have hid : Meets on (vet on (contexts.contains id) (.context id)) [] true := by
                rw [hmem]
                exact Meets.vet true _
              rw [if_pos rfl, if_pos rfl, Option.map_some, ← (keep themeable tokens).ofList_entries]
              exact hid.bind ((meets_keepTokens tokens.entries).bind ih.map)
          | false =>
              have hid : Meets on (vet on (contexts.contains id) (.context id))
                  [.context id] false := by
                rw [hmem]
                exact Meets.vet false _
              rw [if_neg Bool.false_ne_true, if_neg Bool.false_ne_true, Option.map_none]
              exact hid.bind ih

theorem meets_keepAll (o : Override) : Meets on (keepAll on themeable contexts o)
    (o.misnomers themeable contexts) (o.sanitized themeable contexts) := by
  have hkept : o.sanitized themeable contexts =
      ⟨.ofList (keep themeable o.tokens).entries,
        .ofList (o.contexts.filterMap (keepIn themeable contexts)).entries⟩ := by
    rw [OrdMap.ofList_entries, OrdMap.ofList_entries]
    rfl
  rw [hkept]
  exact (meets_keepTokens o.tokens.entries).bind (meets_keepContexts o.contexts.entries).map

end Lists

/-- The run ends with what the override should be reduced to, and has announced each finding. -/
theorem sanitize_eq (on : Listeners m) (themeable contexts : List String) (o : Override) :
    sanitize on themeable contexts o = do
      (o.findings themeable contexts).forM on.announce
      return (o.sanitized themeable contexts, o.findings themeable contexts) := by
  obtain ⟨news, hnews, hrun⟩ : ∃ news, Misnomer.firsts (o.misnomers themeable contexts) = news ∧
      (keepAll on themeable contexts o).run {} = do
        (news.map Misnomer.diagnostic).forM on.announce
        return (o.sanitized themeable contexts, Reports.of (o.misnomers themeable contexts)) :=
    meets_keepAll o []
  unfold sanitize findings
  rw [hrun, hnews]
  simp only [bind_assoc, pure_bind, Reports.of, hnews]

end Runs

/-! ### What is kept -/

section Kept

variable {themeable contexts : List String} {o kept : Override} {tokens : OrdMap Assignment}

/-- An override keeps of another one, in order, the themeable tokens and the contexts that have
content and are available, each with its themeable tokens. -/
structure Keeps (themeable contexts : List String) (o kept : Override) : Prop where
  tokens : kept.tokens.entries = o.tokens.entries.filter fun e => themeable.contains e.1
  contextIds : kept.contexts.keys = o.contexts.keys.filter fun id =>
    contexts.contains id && (o.contexts.get? id).join.isSome
  inContext : ∀ id tokens, o.contexts.get? id = some (some tokens) → id ∈ contexts →
    ∃ those : OrdMap Assignment, kept.contexts.get? id = some (some those) ∧
      those.entries = tokens.entries.filter fun e => themeable.contains e.1

theorem sanitized_keeps (o : Override) :
    o.Keeps themeable contexts (o.sanitized themeable contexts) where
  tokens := rfl
  contextIds := by
    rw [sanitized, OrdMap.keys_filterMap]
    refine List.filter_congr fun id _ => ?_
    rcases o.contexts.get? id with - | (- | tokens)
    · exact (Bool.and_false _).symm
    · exact (Bool.and_false _).symm
    · rw [Option.bind_some, keepIn]
      cases contexts.contains id <;> rfl
  inContext id tokens htokens hid := by
    refine ⟨keep themeable tokens, ?_, rfl⟩
    rw [sanitized, OrdMap.get?_filterMap, htokens, Option.bind_some, keepIn,
      if_pos (List.contains_iff_mem.mpr hid)]

/-- An override names nothing but themeable tokens, in the theme and in available contexts. -/
structure IsClean (themeable contexts : List String) (o : Override) : Prop where
  tokens : ∀ token ∈ o.tokens.keys, token ∈ themeable
  contexts : ∀ id tokens?, o.contexts.get? id = some tokens? →
    id ∈ contexts ∧ ∃ tokens, tokens? = some tokens ∧ ∀ token ∈ tokens.keys, token ∈ themeable

theorem mem_themeable_of_mem_keep {token : String} (h : token ∈ (keep themeable tokens).keys) :
    token ∈ themeable := by
  obtain ⟨a, ha⟩ := OrdMap.mem_keys_iff.mp h
  rw [keep, OrdMap.get?_filter] at ha
  exact List.contains_iff_mem.mp (Option.filter_eq_some_iff.mp ha).2

theorem isClean_sanitized : (o.sanitized themeable contexts).IsClean themeable contexts where
  tokens _ h := mem_themeable_of_mem_keep h
  contexts id tokens? h := by
    rw [sanitized, OrdMap.get?_filterMap] at h
    obtain ⟨given, -, h⟩ := Option.bind_eq_some_iff.mp h
    cases given with
    | none => cases h
    | some tokens =>
        obtain ⟨hid, h⟩ := Option.ite_none_right_eq_some.mp h
        refine ⟨List.contains_iff_mem.mp hid, keep themeable tokens, (Option.some.inj h).symm, ?_⟩
        exact fun _ => mem_themeable_of_mem_keep

namespace IsClean

theorem keep_eq (h : ∀ token ∈ tokens.keys, token ∈ themeable) :
    keep themeable tokens = tokens := by
  refine OrdMap.ext (List.filter_eq_self.mpr fun e he => ?_)
  exact List.contains_iff_mem.mpr (h e.1 (List.mem_map_of_mem he))

theorem unthemeable_eq {names : List String} (h : ∀ token ∈ names, token ∈ themeable)
    (context : Option String) : unthemeable themeable context names = [] := by
  rw [unthemeable, List.map_eq_nil_iff, List.filter_eq_nil_iff]
  intro token htoken
  simpa using h token htoken

theorem sanitized_eq (h : o.IsClean themeable contexts) : o.sanitized themeable contexts = o := by
  have hcontexts : o.contexts.filterMap (keepIn themeable contexts) = o.contexts := by
    refine OrdMap.filterMap_eq_self fun id tokens? hid => ?_
    obtain ⟨hmem, tokens, rfl, htokens⟩ := h.contexts id tokens? hid
    rw [keepIn, if_pos (List.contains_iff_mem.mpr hmem), keep_eq htokens]
  rw [sanitized, keep_eq h.tokens, hcontexts]

theorem misnomers_eq (h : o.IsClean themeable contexts) : o.misnomers themeable contexts = [] := by
  rw [misnomers, unthemeable_eq h.tokens, List.nil_append, List.flatMap_eq_nil_iff]
  rintro ⟨id, tokens?⟩ he
  obtain ⟨hmem, tokens, rfl, htokens⟩ := h.contexts id tokens? (OrdMap.mem_entries_iff.mp he)
  rw [misnomersIn, if_pos (List.contains_iff_mem.mpr hmem), unthemeable_eq htokens]

theorem updatesIn (h : o.IsClean themeable contexts) (id : String) :
    ∀ token ∈ (o.updatesIn id).keys, token ∈ themeable := by
  unfold Override.updatesIn
  cases hid : o.contexts.get? id with
  | none => exact fun _ htoken => absurd htoken List.not_mem_nil
  | some tokens? =>
      obtain ⟨-, tokens, rfl, htokens⟩ := h.contexts id tokens? hid
      exact htokens

/-- Such an override leaves all other tokens alone. -/
theorem get?_merge (h : o.IsClean themeable contexts) (t : Theme) {token : String}
    (htoken : token ∉ themeable) :
    (t.merge o).theme.tokens.get? token = t.tokens.get? token ∧
      ∀ id, ((t.merge o).theme.contexts.get? id).map (·.tokens.get? token) =
        (t.contexts.get? id).map (·.tokens.get? token) := by
  constructor
  · rw [Theme.get?_tokens_merge, ← Theme.get?_overlay]
    exact t.get?_overlay_of_notMem _ fun hmem => htoken (h.tokens token hmem)
  · intro id
    rw [Theme.get?_contexts_merge, Option.map_map]
    refine congrArg (Option.map · (t.contexts.get? id)) (funext fun c => ?_)
    exact t.get?_overlay_of_notMem _ fun hmem => htoken (h.updatesIn id token hmem)

end IsClean

end Kept

/-- Sanitising keeps what an override may change and reports the rest: the first occurrence of each
token and of each context that is dropped, in order, to all who listen. Sanitised once more, the
result stays as it is, without findings; and merged into a theme it changes no other tokens. -/
theorem sanitize_exact {m : Type → Type} [Monad m] [LawfulMonad m] (on : Listeners m)
    (themeable contexts : List String) (o : Override) :
    ∃ kept found,
      sanitize on themeable contexts o = (do found.forM on.announce; return (kept, found)) ∧
      o.Keeps themeable contexts kept ∧
      (∃ firsts, AreFirsts Misnomer.same (o.misnomers themeable contexts) firsts ∧
        found = firsts.map Misnomer.diagnostic) ∧
      sanitize on themeable contexts kept = pure (kept, []) ∧
      ∀ t : Theme, (∀ token ∈ t.namedBy kept, ∃ mode?, t.modeFor token = .ok mode?) →
        ∃ merged, t.merged kept = .ok merged ∧ ∀ token ∉ themeable,
          merged.theme.tokens.get? token = t.tokens.get? token ∧
            ∀ id, (merged.theme.contexts.get? id).map (·.tokens.get? token) =
              (t.contexts.get? id).map (·.tokens.get? token) := by
  have hclean : (o.sanitized themeable contexts).IsClean themeable contexts := isClean_sanitized
  refine ⟨_, _, sanitize_eq on themeable contexts o, sanitized_keeps o, ⟨_, ?_, rfl⟩, ?_, ?_⟩
  · exact areFirsts_firstsBy Misnomer.same_refl Misnomer.same_trans _
  · rw [sanitize_eq, findings, hclean.misnomers_eq, hclean.sanitized_eq]
    exact pure_bind () _
  · intro t hmodes
    exact ⟨t.merge _, Theme.merged_eq_ok hmodes, fun token => hclean.get?_merge t⟩

/-- A listener that collects the findings, in order. -/
def collector : Listeners (StateM (List Diagnostic)) where
  log _ := pure ()
  onDiagnostic? := some fun d => modify (· ++ [d])

/-- Changes a token that is not themeable, in the theme and in a context; another context does not
exist, and yet another one has no content. -/
def darkened : Override where
  tokens := .ofList [("shadow", .text "red"), ("black", .text "navy")]
  contexts := .ofList [
    ("navigation", some (.ofList [("black", .text "white"), ("shadow", .text "blue")])),
    ("attic", some (.ofList [("grey", .text "white")])), ("hall", none)]

theorem sanitize_exact_darkened : ∃ kept found,
    sanitize collector ["shadow"] ["navigation", "hall"] darkened =
        (do found.forM collector.announce; return (kept, found)) ∧
      darkened.Keeps ["shadow"] ["navigation", "hall"] kept ∧
      (∃ firsts, AreFirsts Misnomer.same (darkened.misnomers ["shadow"] ["navigation", "hall"])
          firsts ∧ found = firsts.map Misnomer.diagnostic) ∧
      sanitize collector ["shadow"] ["navigation", "hall"] kept = pure (kept, []) ∧
      ∀ t : Theme, (∀ token ∈ t.namedBy kept, ∃ mode?, t.modeFor token = .ok mode?) →
        ∃ merged, t.merged kept = .ok merged ∧ ∀ token ∉ ["shadow"],
          merged.theme.tokens.get? token = t.tokens.get? token ∧
            ∀ id, (merged.theme.contexts.get? id).map (·.tokens.get? token) =
              (t.contexts.get? id).map (·.tokens.get? token) :=
  sanitize_exact collector ["shadow"] ["navigation", "hall"] darkened

/-- The token is reported once, as one of the theme. -/
example : (sanitize collector ["shadow"] ["navigation", "hall"] darkened).run [] =
    (({ tokens := .ofList [("shadow", .text "red")]
        contexts := .ofList [("navigation", some (.ofList [("shadow", .text "blue")]))] },
      [(Misnomer.token "black" none).diagnostic, (Misnomer.context "attic").diagnostic]),
      [(Misnomer.token "black" none).diagnostic, (Misnomer.context "attic").diagnostic]) := by
  rfl

end Override

end DesignTokens
