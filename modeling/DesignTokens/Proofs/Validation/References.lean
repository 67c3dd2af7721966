import DesignTokens.Proofs.Build.Values
import DesignTokens.Proofs.Resolution.Collapse
import DesignTokens.Theme.Validation

/-!
What checking references one by one says of walks. A walk that ends at an unknown token came there
by a reference, and the assignment with this reference is one that was checked: an assignment of the
theme, or of the context that is in force.
-/

namespace DesignTokens

namespace Scope

variable {s : Scope} {options : ResolveOptions} {state : Option String} {token name : String}

/-- The reference that a walk of a declared token ends at, if the token referred to is unknown. -/
theorem exists_refers_of_unknown (hplain : s.Plain) (htoken : token ∈ s.names)
    (h : s.walk options state token [] = .error (.unknownToken name)) :
    ∃ x, s.Refers state x name ∧ name ∉ s.names := by
  have hunknown : ∀ x, s.find? x = none → x ∉ s.names :=
    fun _ => (find?_eq_none_of_plain hplain).mp
  cases walk_eq_error.mp h with
  | stuck way h =>
      cases h with
      | unknown hnone =>
          rcases way.eq_or_exists_last with rfl | ⟨x, -, hx⟩
          · exact absurd htoken (hunknown _ hnone)
          · exact ⟨x, hx.1, hunknown _ hnone⟩
      | dangling href _ hnone => exact ⟨_, href, hunknown _ hnone⟩

theorem Refers.exists_targets (h : s.Refers state token name) :
    ∃ a, s.assigned? token = some a ∧ name ∈ Theme.targets a := by
  obtain ⟨text, htext, htarget⟩ := h
  cases htext with
  | text h => exact ⟨_, h, by simp [Theme.targets, Assignment.toValue, Value.target?, htarget]⟩
  | entry h _ hentry =>
      refine ⟨_, h, List.mem_filterMap.mpr ⟨.text text, ?_, htarget⟩⟩
      exact OrdMap.mem_values_iff.mpr ⟨_, hentry⟩

end Scope

namespace Theme

variable {t : Theme} {c : Context} {options : ResolveOptions} {token name : String}
  {tokens : OrdMap Assignment} {context : Value} {a : Assignment} {d : Diagnostic}

/-! ### Findings -/

/-- The finding of a reference to an unknown token. -/
def unknownReference (context : Value) (token target : String) : Diagnostic where
  rule := "check_references_exist"
  severity := .error
  message := s!"Token '{token}' references unknown token '{target}'."
  token := some token
  context := context

/-- Every reference of a checked table to an unknown token is found. -/
theorem unknownReference_mem
    (htable : (context, tokens) ∈ (.null, t.tokens) :: t.contexts.values.map fun c =>
      (c.id, c.tokens))
    (ha : tokens.get? token = some a) (htarget : name ∈ targets a)
    (hunknown : name ∉ t.tokens.keys) :
    unknownReference context token name ∈ t.referencesExist := by
  refine List.mem_flatMap.mpr ⟨(context, tokens), htable, ?_⟩
  refine List.mem_flatMap.mpr ⟨(token, a), OrdMap.mem_entries_iff.mpr ha, ?_⟩
  refine List.mem_map.mpr ⟨name, List.mem_filter.mpr ⟨htarget, ?_⟩, rfl⟩
  simpa [← OrdMap.contains_iff] using hunknown

theorem mem_targets_of_collapsed (ha : a.IsPlain)
    (h : name ∈ targets (t.collapsed c token a)) : name ∈ targets a := by
  rcases collapsed_cases t c token ha with
    heq | ⟨values, state, text, rfl, hentry, heq⟩
  · rwa [heq] at h
  · rw [heq] at h
    refine List.mem_filterMap.mpr ⟨.text text, OrdMap.mem_values_iff.mpr ⟨state, hentry⟩, ?_⟩
    exact Option.mem_toList.mp h

/-! ### Walks that end at an unknown token -/

theorem exists_targets_of_resolve (hplain : PlainTokens t.tokens)
    (h : t.resolve none options = .error (.unknownToken name)) :
    ∃ token a, t.tokens.get? token = some a ∧ name ∈ targets a ∧ name ∉ t.tokens.keys := by
  have hscope : (t.scope none).Plain := plain_scope hplain nofun
  have hnames : (t.scope none).names = t.tokens.keys := by simp [Scope.names, scope]
  rcases exists_of_resolve_eq_error h with ⟨token, -, hmode⟩ | ⟨token, htoken, state, -, hwalk⟩
  · cases modeFor_eq_error hmode
  · rw [Option.getD_none, ← hnames] at htoken
    obtain ⟨x, href, hunknown⟩ := Scope.exists_refers_of_unknown hscope htoken hwalk
    obtain ⟨a, ha, htarget⟩ := href.exists_targets
    exact ⟨x, a, by simpa [Scope.assigned?, scope] using ha, htarget, hnames ▸ hunknown⟩

/-- Inside a context the reference is one of the theme or one of the context. -/
theorem exists_targets_of_resolveIn (hplain : t.IsPlain) (hc : c ∈ t.contexts.values)
    (h : t.resolveIn c none none options = .error (.unknownToken name)) :
    name ∉ t.tokens.keys ∧ ∃ tokens, (tokens = t.tokens ∨ tokens = c.tokens) ∧
      ∃ token a, tokens.get? token = some a ∧ name ∈ targets a := by
  rcases resolveIn_eq_error.mp h with hcollapse | ⟨inside, hinside, hresolve⟩
  · rcases fault_of_collapseAll hcollapse with h | ⟨_, h⟩ | ⟨_, h⟩ | ⟨_, h⟩ <;> cases h
  · obtain ⟨token, a, ha, htarget, hunknown⟩ :=
      exists_targets_of_resolve (plain_within hplain.tokens (hplain.contexts c hc) hinside) hresolve
    rw [within_none hinside, OrdMap.mem_keys_union, not_or] at hunknown
    refine ⟨hunknown.1, ?_⟩
    obtain ⟨own, hown, rfl⟩ | ha := get?_within hinside ha
    · have hown_plain := hplain.contexts c hc token own hown
      exact ⟨_, .inr rfl, token, own, hown, mem_targets_of_collapsed hown_plain htarget⟩
    · exact ⟨_, .inl rfl, token, a, ha, htarget⟩

/-- Resolution meets an unknown token only where a reference to it is found by the rule. -/
theorem unknownToken_found (hplain : t.IsPlain) :
    (t.referencesExist = [] → ∀ name,
      t.resolve none options ≠ .error (.unknownToken name) ∧
        ∀ c ∈ t.contexts.values, t.resolveIn c none none options ≠ .error (.unknownToken name)) ∧
    ∀ name, t.resolve none options = .error (.unknownToken name) →
      ∃ token a, t.tokens.get? token = some a ∧ name ∈ targets a ∧
        ∃ d ∈ t.referencesExist, d.token = some token ∧ d.context = .null ∧
          d.message = s!"Token '{token}' references unknown token '{name}'." := by
  have halone : ∀ name, t.resolve none options = .error (.unknownToken name) →
      ∃ token a, t.tokens.get? token = some a ∧ name ∈ targets a ∧
        unknownReference .null token name ∈ t.referencesExist := by
    intro name h
    obtain ⟨token, a, ha, htarget, hunknown⟩ := exists_targets_of_resolve hplain.tokens h
    exact ⟨token, a, ha, htarget, unknownReference_mem List.mem_cons_self ha htarget hunknown⟩
  refine ⟨fun hnone name => ⟨?_, ?_⟩, ?_⟩
  · intro h
    obtain ⟨token, a, -, -, hmem⟩ := halone name h
    simp [hnone] at hmem
  · intro c hc h
    obtain ⟨hunknown, tokens, htable, token, a, ha, htarget⟩ :=
      exists_targets_of_resolveIn hplain hc h
    have hfound : ∃ context, unknownReference context token name ∈ t.referencesExist := by
      rcases htable with rfl | rfl
      · exact ⟨.null, unknownReference_mem List.mem_cons_self ha htarget hunknown⟩
      · have hchecked := List.mem_cons_of_mem (Value.null, t.tokens)
          (List.mem_map_of_mem (f := fun c : Context => (c.id, c.tokens)) hc)
        exact ⟨c.id, unknownReference_mem hchecked ha htarget hunknown⟩
    obtain ⟨context, hmem⟩ := hfound
    simp [hnone] at hmem
  · intro name h
    obtain ⟨token, a, ha, htarget, hmem⟩ := halone name h
    exact ⟨token, a, ha, htarget, _, hmem, rfl, rfl, rfl⟩

/-- Refers to a token that is missing, but not in a card. -/
def chipped : Theme where
  id := "chipped"
  selector := ".t"
  tokens := .ofList [("edge", .text "\x7brim\x7d"), ("rim", .text "\x7bgone\x7d")]
  contexts := .ofList [("card",
    { id := "card", selector := ".card", tokens := .ofList [("rim", .text "black")] })]

theorem unknownToken_found_chipped :
    chipped.IsPlain ∧ (chipped.referencesExist = [] → ∀ name,
      chipped.resolve none {} ≠ .error (.unknownToken name) ∧
        ∀ c ∈ chipped.contexts.values,
          chipped.resolveIn c none none {} ≠ .error (.unknownToken name)) ∧
    ∀ name, chipped.resolve none {} = .error (.unknownToken name) →
      ∃ token a, chipped.tokens.get? token = some a ∧ name ∈ targets a ∧
        ∃ d ∈ chipped.referencesExist, d.token = some token ∧ d.context = .null ∧
          d.message = s!"Token '{token}' references unknown token '{name}'." := by
  have hplain : chipped.IsPlain := by
    refine ⟨.of_entries ?_, List.forall_mem_singleton.mpr (.of_entries ?_)⟩
    · exact List.forall_mem_cons.mpr ⟨trivial, List.forall_mem_singleton.mpr trivial⟩
    · exact List.forall_mem_singleton.mpr trivial
  exact ⟨hplain, unknownToken_found hplain⟩

example : chipped.resolve none {} = .error (.unknownToken "gone") := rfl

end Theme

end DesignTokens
