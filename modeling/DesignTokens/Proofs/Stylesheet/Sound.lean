import DesignTokens.Proofs.Stylesheet.Lists
import DesignTokens.Proofs.Stylesheet.Minimal

/-!
Sheets of which nothing is known but that every rule stands at its own selector. Whatever replaced
each other there, rules are found by their selectors. Such a sheet need not be grounded: a rule that
was replaced may stand on the paths of others. Its minimal form is still the sheet without some
rules and declarations, and it leaves alone what is placed below nothing.
-/

namespace DesignTokens

/-! ### Rules by selector -/

namespace Stylesheet

variable {s : Stylesheet} {r : Rule} {selector : String}

/-- The rule that stands at a selector. -/
def ruleAt? (s : Stylesheet) (selector : String) : Option Rule := (s.find? selector).map s.rule

/-- Every rule in the sheet is known and stands at its own selector. -/
structure Sound (s : Stylesheet) : Prop where
  known : ∀ selector p, s.placed.get? selector = some p → p.rule < s.rules.length
  selector : ∀ selector p, s.placed.get? selector = some p → (s.rule p.rule).selector = selector

theorem Sound.start : Sound {} := ⟨by simp, by simp⟩

/-- What adding a rule that declares something does to the places. -/
theorem get?_placed_add (s : Stylesheet) (hfilled : r.isEmpty = false)
    (path : List (Option RuleId)) (selector : String) :
    (s.add r path).1.placed.get? selector =
      if selector = r.selector then some ⟨s.rules.length, path.filterMap fun id => id⟩
      else s.placed.get? selector := by
  have hnew : (s.make r).1.rule (s.make r).2 = r := by
    rw [rule_make]
    exact if_pos rfl
  simp only [Stylesheet.add, hfilled, Bool.false_eq_true, if_false]
  rw [get?_placed_append, hnew]
  rfl

theorem rule_add (s : Stylesheet) (hfilled : r.isEmpty = false) (path : List (Option RuleId))
    (id : RuleId) : (s.add r path).1.rule id = if id = s.rules.length then r else s.rule id := by
  simp only [Stylesheet.add, hfilled, Bool.false_eq_true, if_false]
  rw [rule_append, rule_make]

theorem length_rules_add (s : Stylesheet) (hfilled : r.isEmpty = false)
    (path : List (Option RuleId)) : (s.add r path).1.rules.length = s.rules.length + 1 := by
  simp [Stylesheet.add, hfilled, make, append]

theorem id_add (s : Stylesheet) (hfilled : r.isEmpty = false) (path : List (Option RuleId)) :
    (s.add r path).2 = some s.rules.length := by
  simp [Stylesheet.add, hfilled, make]

theorem add_of_isEmpty (s : Stylesheet) (hempty : r.isEmpty = true) (path : List (Option RuleId)) :
    s.add r path = (s, none) := by
  simp [Stylesheet.add, hempty]

namespace Sound

theorem add (h : s.Sound) (r : Rule) (path : List (Option RuleId)) : (s.add r path).1.Sound := by
  cases hfilled : r.isEmpty with
  | true => rwa [add_of_isEmpty s hfilled]
  | false =>
      constructor
      · intro selector p hp
        rw [get?_placed_add s hfilled] at hp
        rw [length_rules_add s hfilled]
        split at hp
        · obtain rfl := Option.some.inj hp
          exact Nat.lt_succ_self _
        · exact Nat.lt_succ_of_lt (h.known selector p hp)
      · intro selector p hp
        rw [get?_placed_add s hfilled] at hp
        rw [rule_add s hfilled]
        split at hp
        · next hselector =>
            obtain rfl := Option.some.inj hp
            rw [if_pos rfl, hselector]
        · rw [if_neg (Nat.ne_of_lt (h.known selector p hp))]
          exact h.selector selector p hp

/-- A rule that is added stands at its selector, unless it is empty; all others stay. -/
theorem ruleAt?_add (h : s.Sound) (r : Rule) (path : List (Option RuleId)) (selector : String) :
    (s.add r path).1.ruleAt? selector =
      if r.selector = selector ∧ r.isEmpty = false then some r else s.ruleAt? selector := by
  cases hfilled : r.isEmpty with
  | true => simp [add_of_isEmpty s hfilled]
  | false =>
      have hadded := rule_add s hfilled path
      rw [ruleAt?, find?, get?_placed_add s hfilled]
      by_cases hselector : selector = r.selector
      · rw [if_pos hselector, if_pos ⟨hselector.symm, rfl⟩, Option.map_some, Option.map_some,
          hadded, if_pos rfl]
      · rw [if_neg hselector, if_neg fun hboth => hselector hboth.1.symm, ruleAt?, find?]
        cases hp : s.placed.get? selector with
        | none => rfl
        | some p =>
            rw [Option.map_some, Option.map_some, Option.map_some, hadded,
              if_neg (Nat.ne_of_lt (h.known selector p hp))]

theorem mem_listing_iff (h : s.Sound) : r ∈ s.listing ↔ s.ruleAt? r.selector = some r := by
  simp only [listing, order, List.map_map, List.mem_map, Function.comp_apply,
    OrdMap.mem_values_iff, ruleAt?, find?, Option.map_map, Option.map_eq_some_iff]
  constructor
  · rintro ⟨p, ⟨selector, hp⟩, rfl⟩
    exact ⟨p, by rwa [h.selector selector p hp], rfl⟩
  · rintro ⟨p, hp, hr⟩
    exact ⟨p, ⟨_, hp⟩, hr⟩

end Sound

end Stylesheet

/-! ### Dropping declarations -/

namespace Stylesheet

variable {s m n : Stylesheet} {id : RuleId}

theorem rule_setRule_declarations (s : Stylesheet) (id : RuleId) (kept : Declarations)
    (k : RuleId) : (s.setRule id { s.rule id with declarations := kept }).rule k =
      if k = id ∧ k < s.rules.length then { s.rule id with declarations := kept }
      else s.rule k := by
  by_cases hk : k < s.rules.length
  · simp only [hk, and_true]
    by_cases hsame : k = id
    · rw [s.rule_setRule _ (hsame ▸ hk)]
    · simp [rule, setRule, List.getElem?_set_ne (Ne.symm hsame), hsame]
  · simp [rule, setRule, hk]

theorem selector_setRule_declarations (s : Stylesheet) (id : RuleId) (kept : Declarations)
    (k : RuleId) : ((s.setRule id { s.rule id with declarations := kept }).rule k).selector =
      (s.rule k).selector := by
  rw [rule_setRule_declarations]
  split
  · next hk => rw [hk.1]
  · rfl

/-- A sheet that is left of another when rules and declarations are dropped. Only rules that are
placed below others lose declarations. -/
structure Shrinks (s m : Stylesheet) : Prop where
  placed : ∀ selector p, m.placed.get? selector = some p → s.placed.get? selector = some p
  selector : ∀ id, (m.rule id).selector = (s.rule id).selector
  declared : ∀ id property v, (m.rule id).declarations.get? property = some v →
    (s.rule id).declarations.get? property = some v
  rule : ∀ id, (∀ selector p, s.placed.get? selector = some p → p.rule = id → p.path = []) →
    m.rule id = s.rule id

namespace Shrinks

theorem refl (s : Stylesheet) : s.Shrinks s :=
  ⟨fun _ _ hp => hp, fun _ => rfl, fun _ _ _ hv => hv, fun _ _ => rfl⟩

theorem trans (h : s.Shrinks m) (h' : m.Shrinks n) : s.Shrinks n where
  placed selector p hp := h.placed selector p (h'.placed selector p hp)
  selector id := (h'.selector id).trans (h.selector id)
  declared id property v hv := h.declared id property v (h'.declared id property v hv)
  rule id htop := by
    rw [h'.rule id fun selector p hp => htop selector p (h.placed selector p hp), h.rule id htop]

theorem textual (h : s.Shrinks m) (htextual : (s.rule id).declarations.Textual) :
    (m.rule id).declarations.Textual :=
  fun property v hv => htextual property v (h.declared id property v hv)

theorem remove (s : Stylesheet) (id : RuleId) : s.Shrinks (s.remove id) := by
  refine ⟨fun selector p hp => ?_, fun k => by rw [rule_remove], fun k property v hv => ?_,
    fun k _ => rule_remove s id k⟩
  · unfold Stylesheet.remove at hp
    split at hp
    · rw [OrdMap.get?_erase] at hp
      split at hp
      · cases hp
      · exact hp
    · exact hp
  · rwa [rule_remove] at hv

/-- A rule below others is left with some of its declarations. -/
theorem setRule {selector : String} {p : Placed} (hp : s.placed.get? selector = some p)
    (hbelow : p.path ≠ []) {kept : Declarations}
    (hkept : ∀ property v, kept.get? property = some v →
      (s.rule p.rule).declarations.get? property = some v) :
    s.Shrinks (s.setRule p.rule { s.rule p.rule with declarations := kept }) := by
  have hrule := s.rule_setRule_declarations p.rule kept
  refine ⟨fun _ _ hq => hq, s.selector_setRule_declarations p.rule kept,
    fun k property v hv => ?_, fun k htop => ?_⟩
  · rw [hrule] at hv
    split at hv
    · next hk => exact hk.1 ▸ hkept property v hv
    · exact hv
  · rw [hrule, if_neg]
    rintro ⟨rfl, -⟩
    exact hbelow (htop selector p hp rfl)

theorem settle {selector : String} {p : Placed} (hp : s.placed.get? selector = some p)
    {kept : Declarations} (hkept : ∀ property v, kept.get? property = some v →
      (s.rule p.rule).declarations.get? property = some v) : s.Shrinks (s.settle p kept) := by
  unfold Stylesheet.settle
  split
  · exact refl s
  · next hbelow =>
      have hset := setRule hp hbelow hkept
      simp only
      split
      · exact hset.trans (remove _ _)
      · exact hset

end Shrinks

variable {b : Stylesheet} {p : Placed} {selector : String}

/-- A rule of texts can be reduced wherever it stands. -/
theorem exists_reduceRule (hplace : b.place? p.rule = some p)
    (htextual : p.path ≠ [] → (b.rule p.rule).declarations.Textual) :
    ∃ kept, b.reduceRule p.rule = .ok (b.settle p kept) ∧
      ∀ property v, kept.get? property = some v →
        (b.rule p.rule).declarations.get? property = some v := by
  have hpath : b.path p.rule = .ok p.path := by simp [path, hplace]
  rw [reduceRule, hpath]
  cases hcase : p.path with
  | nil => exact ⟨.empty, by simp [settle, hcase, bind, Except.bind, pure, Except.pure], by simp⟩
  | cons first rest =>
      have hown := htextual (by simp [hcase])
      let kept : Declarations := (b.rule p.rule).declarations.filter fun property v =>
        Declarations.keeps (b.rule p.rule).declarations (b.inherited (first :: rest))
          (comparesByValue (b.rule p.rule)) property v
      have hreduced : (b.rule p.rule).declarations.reduced (b.inherited (first :: rest))
          (comparesByValue (b.rule p.rule)) = .ok kept := Declarations.reduced_eq hown _ _
      refine ⟨kept, ?_, ?_⟩
      · simp only [settle, hcase, reduceCtorEq, if_false, Outcome.bind_eq_ok, Except.ok.injEq,
          exists_eq_left', hreduced, Outcome.pure_eq_ok]
      · intro property v hv
        rw [OrdMap.get?_filter, Option.filter_eq_some_iff] at hv
        exact hv.1

/-- Settling a rule leaves the places at other selectors alone. -/
theorem get?_placed_settle (kept : Declarations) (hne : selector ≠ (b.rule p.rule).selector) :
    (b.settle p kept).placed.get? selector = b.placed.get? selector := by
  have hremove : ∀ s : Stylesheet, selector ≠ (s.rule p.rule).selector →
      (s.remove p.rule).placed.get? selector = s.placed.get? selector := by
    intro s hs
    unfold remove
    split
    · rw [OrdMap.get?_erase, if_neg hs]
    · rfl
  unfold settle
  split
  · rfl
  · simp only
    split
    · rw [hremove _ (by rwa [selector_setRule_declarations]), placed_setRule]
    · rw [placed_setRule]

namespace Sound

theorem nodup_values (h : s.Sound) : s.placed.values.Nodup := by
  refine List.Nodup.of_map (fun p => (s.rule p.rule).selector) ?_
  have hkeys : s.placed.values.map (fun p => (s.rule p.rule).selector) = s.placed.keys := by
    rw [OrdMap.values, List.map_map, OrdMap.keys]
    exact List.map_congr_left fun e he => h.selector e.1 e.2 (OrdMap.mem_entries_iff.mp he)
  rw [hkeys]
  exact s.placed.nodup

/-- A sheet that declares texts has a minimal form. -/
theorem exists_minimal (h : s.Sound)
    (htextual : ∀ p ∈ s.placed.values, p.path ≠ [] → (s.rule p.rule).declarations.Textual) :
    ∃ m, s.minimal = .ok m ∧ s.Shrinks m := by
  -- rules that were not visited yet are where they were
  let motive (done : List Placed) (b : Stylesheet) : Prop :=
    s.Shrinks b ∧ ∀ selector p, s.placed.get? selector = some p → p ∉ done →
      b.placed.get? selector = some p
  have hrun : ∃ m, s.depthOrder.foldlM (fun b p => b.reduceRule p.rule) s = .ok m ∧
      motive s.depthOrder m := by
    refine Outcome.exists_foldlM motive ⟨.refl s, fun _ _ hp _ => hp⟩ ?_
    rintro done p rest b hsplit ⟨hshrinks, hwaiting⟩
    have hp : p ∈ s.placed.values := by
      rw [← mem_depthOrder, hsplit]
      simp
    have hnew : p ∉ done := by
      have hnodup : s.depthOrder.Nodup := (List.mergeSort_perm _ _).nodup_iff.mpr h.nodup_values
      rw [hsplit] at hnodup
      exact fun hmem => (List.nodup_append.mp hnodup).2.2 p hmem p List.mem_cons_self rfl
    obtain ⟨selector, hget⟩ := OrdMap.mem_values_iff.mp hp
    have hselector : (b.rule p.rule).selector = selector :=
      (hshrinks.selector p.rule).trans (h.selector selector p hget)
    have hhere := hwaiting selector p hget hnew
    have hplace : b.place? p.rule = some p := by simp [place?, hselector, hhere, Option.filter]
    obtain ⟨kept, hreduce, hkept⟩ :=
      exists_reduceRule hplace fun hpath => hshrinks.textual (htextual p hp hpath)
    refine ⟨_, hreduce, hshrinks.trans (.settle hhere hkept), ?_⟩
    intro selector' q hq hnot
    rw [get?_placed_settle]
    · exact hwaiting selector' q hq fun hmem => hnot (List.mem_append_left _ hmem)
    · rintro rfl
      rw [hselector, hget] at hq
      exact hnot (by simp [Option.some.inj hq])
  obtain ⟨m, hm, hshrinks, -⟩ := hrun
  exact ⟨m, by rw [minimal_eq, hm], hshrinks⟩

end Sound

end Stylesheet

end DesignTokens
