import DesignTokens.Proofs.Stylesheet.Ledger

/-!
Histories of a ledger: rules are appended and removed, the same ones again and again, and several of
them may have one selector. An append lasts until the selector gets another rule, the same rule is
appended again, or the rule is removed. At any point the rules in both tables are those whose last
append still lasts, in the order of these appends and with the paths given there. So a selector has
one rule at most, and taking out a rule that was replaced changes nothing.

What a history leaves is told for sheets first. Both tables follow every edit, so they hold the
same.
-/

namespace DesignTokens

/-- A change of which rules are in a sheet. -/
inductive Edit where
  | append (id : RuleId) (path : List RuleId)
  | remove (id : RuleId)
  deriving DecidableEq

namespace Edit

variable {selector : RuleId → String} {id : RuleId} {edits : List Edit} {p : Placed}

/-- The edit takes a rule out of the sheet or puts one in its place, be it the rule itself. -/
def Ousts (selector : RuleId → String) (id : RuleId) : Edit → Prop
  | append other _ => selector other = selector id
  | remove other => other = id

instance (selector : RuleId → String) (id : RuleId) : (e : Edit) → Decidable (e.Ousts selector id)
  | append other _ => inferInstanceAs (Decidable (selector other = selector id))
  | remove other => inferInstanceAs (Decidable (other = id))

/-- Before the last edits of a history a rule was appended with its path, and none of them ousts
it. -/
structure Lasts (selector : RuleId → String) (edits : List Edit) (p : Placed) (after : List Edit) :
    Prop where
  appended : append p.rule p.path :: after <:+ edits
  kept : ∀ e ∈ after, ¬ e.Ousts selector p.rule

/-- The place that an edit gives a rule, at its selector. -/
def places (selector : RuleId → String) : Edit → List (String × Placed)
  | append id path => [(selector id, ⟨id, path⟩)]
  | remove _ => []

/-- The appends that last to the end, in order. -/
def standing (selector : RuleId → String) : List Edit → List Placed
  | [] => []
  | append id path :: after =>
    if ∃ e ∈ after, e.Ousts selector id then standing selector after
    else ⟨id, path⟩ :: standing selector after
  | remove _ :: after => standing selector after

/-- An edit of the past places what the edits after it do not oust. -/
theorem map_standing_cons (e : Edit) (edits : List Edit) :
    (standing selector (e :: edits)).map (fun p => (selector p.rule, p)) =
      (e.places selector).filter (fun x => ∀ e ∈ edits, ¬ e.Ousts selector x.2.rule) ++
        (standing selector edits).map fun p => (selector p.rule, p) := by
  cases e with
  | remove id => rfl
  | append id path =>
      rw [standing, places]
      by_cases houst : ∃ e ∈ edits, e.Ousts selector id
      · rw [if_pos houst, List.filter_cons_of_neg (by simpa using houst)]
        rfl
      · rw [if_neg houst, List.filter_cons_of_pos (by simpa using houst)]
        rfl

theorem Lasts.cons {after : List Edit} (h : Lasts selector edits p after) (e : Edit) :
    Lasts selector (e :: edits) p after :=
  ⟨h.appended.trans (List.suffix_cons e edits), h.kept⟩

theorem lasts_cons_iff {e : Edit} {after : List Edit} : Lasts selector (e :: edits) p after ↔
    (e = append p.rule p.path ∧ after = edits ∧ ∀ e ∈ edits, ¬ e.Ousts selector p.rule) ∨
      Lasts selector edits p after := by
  constructor
  · rintro ⟨happended, hkept⟩
    rcases List.suffix_cons_iff.mp happended with heq | hsuffix
    · obtain ⟨rfl, rfl⟩ := List.cons.inj heq
      exact .inl ⟨rfl, rfl, hkept⟩
    · exact .inr ⟨hsuffix, hkept⟩
  · rintro (⟨rfl, rfl, hkept⟩ | h)
    · exact ⟨List.suffix_rfl, hkept⟩
    · exact h.cons e

theorem mem_standing_iff : p ∈ standing selector edits ↔ ∃ after, Lasts selector edits p after := by
  induction edits with
  | nil =>
      constructor
      · intro h
        cases h
      · rintro ⟨after, happended, -⟩
        cases List.suffix_nil.mp happended
  | cons e edits ih =>
      simp only [lasts_cons_iff, exists_or, ← ih]
      cases e with
      | remove id => simp [standing]
      | append id path =>
          by_cases houst : ∃ e ∈ edits, e.Ousts selector id
          · rw [standing, if_pos houst, iff_or_self]
            rintro ⟨after, heq, -, hkept⟩
            obtain ⟨rfl, rfl⟩ := append.inj heq
            obtain ⟨e, he, hoe⟩ := houst
            exact absurd hoe (hkept e he)
          · have hfree : ∀ e ∈ edits, ¬ e.Ousts selector id :=
              fun e he hoe => houst ⟨e, he, hoe⟩
            rw [standing, if_neg houst, List.mem_cons]
            apply or_congr_left
            constructor
            · rintro rfl
              exact ⟨edits, rfl, rfl, hfree⟩
            · rintro ⟨after, heq, -, -⟩
              obtain ⟨rfl, rfl⟩ := append.inj heq
              rfl

/-- What stands earlier was appended earlier. -/
theorem pairwise_standing (selector : RuleId → String) (edits : List Edit) :
    (standing selector edits).Pairwise fun p q => ∃ after after',
      Lasts selector edits p after ∧ Lasts selector edits q after' ∧
        after'.length < after.length := by
  induction edits with
  | nil => exact .nil
  | cons e edits ih =>
      have htail : (standing selector edits).Pairwise fun p q => ∃ after after',
          Lasts selector (e :: edits) p after ∧ Lasts selector (e :: edits) q after' ∧
            after'.length < after.length := by
        refine ih.imp ?_
        rintro p q ⟨after, after', hp, hq, hlength⟩
        exact ⟨after, after', hp.cons e, hq.cons e, hlength⟩
      cases e with
      | remove id => exact htail
      | append id path =>
          rw [standing]
          split
          · exact htail
          · next houst =>
              refine List.pairwise_cons.mpr ⟨fun q hq => ?_, htail⟩
              obtain ⟨after', hlasts⟩ := mem_standing_iff.mp hq
              have hfirst : Lasts selector (append id path :: edits) ⟨id, path⟩ edits :=
                ⟨List.suffix_rfl, fun e he hoe => houst ⟨e, he, hoe⟩⟩
              exact ⟨edits, after', hfirst, hlasts.cons _, hlasts.appended.length_le⟩

end Edit

namespace Stylesheet

variable {s : Stylesheet} {id : RuleId} {p : Placed}

def edit (s : Stylesheet) : Edit → Stylesheet
  | .append id path => s.append id path
  | .remove id => s.remove id

/-- The sheet after one edit after the other. -/
def editAll (s : Stylesheet) (edits : List Edit) : Stylesheet := edits.foldl edit s

/-! ### One edit -/

theorem rules_edit (s : Stylesheet) (e : Edit) : (s.edit e).rules = s.rules := by
  cases e with
  | append id path => rfl
  | remove id => exact s.rules_remove id

theorem selectorOf_edit (s : Stylesheet) (e : Edit) : (s.edit e).selectorOf = s.selectorOf := by
  cases e with
  | append id path => rfl
  | remove id => exact s.selectorOf_remove id

/-- An edit takes out what it ousts, and what it places comes last. -/
theorem entries_edit (h : s.Keyed) (e : Edit) : (s.edit e).placed.entries =
    s.placed.entries.filter (fun x => ¬ e.Ousts s.selectorOf x.2.rule) ++
      e.places s.selectorOf := by
  cases e with
  | append id path =>
      have hsame : ∀ x ∈ s.placed.entries, (x.1 != s.selectorOf id) =
          decide (¬ (Edit.append id path).Ousts s.selectorOf x.2.rule) := by
        intro x hx
        rw [h x hx, Bool.eq_iff_iff, bne_iff_ne, decide_eq_true_eq]
        exact ne_comm
      calc (s.edit (.append id path)).placed.entries
          = s.placed.entries.filter (fun x => x.1 != s.selectorOf id) ++
              [(s.selectorOf id, (⟨id, path⟩ : Placed))] :=
            OrdMap.entries_insert_erase s.placed (s.selectorOf id) ⟨id, path⟩
        _ = _ := by rw [List.filter_congr hsame, Edit.places]
  | remove id =>
      rw [Edit.places, List.append_nil, edit, remove]
      split
      · next hstands =>
          -- the selector of the rule is that of no other rule in the sheet
          obtain ⟨p, hp⟩ := Option.isSome_iff_exists.mp hstands
          obtain ⟨hget, hrule⟩ := Option.filter_eq_some_iff.mp hp
          refine List.filter_congr fun x hx => ?_
          rw [Bool.eq_iff_iff, bne_iff_ne, decide_eq_true_eq, not_iff_not]
          constructor
          · intro hkey
            have hhere : s.placed.get? (s.rule id).selector = some x.2 :=
              hkey ▸ OrdMap.mem_entries_iff.mp hx
            obtain rfl := Option.some.inj (hget.symm.trans hhere)
            exact (beq_iff_eq.mp hrule).symm
          · rintro (rfl : id = x.2.rule)
            exact h x hx
      · next hgone =>
          refine (List.filter_eq_self.mpr fun x hx => ?_).symm
          rw [decide_eq_true_eq]
          rintro (rfl : id = x.2.rule)
          refine hgone (Option.isSome_iff_exists.mpr ⟨x.2, ?_⟩)
          rw [place?, Option.filter_eq_some_iff, ← selectorOf, ← h x hx]
          exact ⟨OrdMap.mem_entries_iff.mp hx, beq_self_eq_true _⟩

theorem Keyed.edit (h : s.Keyed) (e : Edit) : (s.edit e).Keyed := by
  cases e with
  | append id path => exact h.append id path
  | remove id => exact h.remove id

/-! ### Histories -/

theorem rules_editAll (s : Stylesheet) (edits : List Edit) : (s.editAll edits).rules = s.rules := by
  induction edits generalizing s with
  | nil => rfl
  | cons e edits ih =>
      rw [editAll, List.foldl_cons, ← editAll, ih, rules_edit]

/-- A history leaves of a sheet what it does not oust, and adds the appends that last. -/
theorem entries_editAll (h : s.Keyed) (edits : List Edit) : (s.editAll edits).placed.entries =
    s.placed.entries.filter (fun x => ∀ e ∈ edits, ¬ e.Ousts s.selectorOf x.2.rule) ++
      (Edit.standing s.selectorOf edits).map fun p => (s.selectorOf p.rule, p) := by
  induction edits generalizing s with
  | nil => simp [editAll, Edit.standing]
  | cons e edits ih =>
      have hrest := ih (h.edit e)
      rw [selectorOf_edit, entries_edit h, List.filter_append, List.filter_filter] at hrest
      have hkept : s.placed.entries.filter (fun x =>
            decide (∀ e ∈ edits, ¬ e.Ousts s.selectorOf x.2.rule) &&
              decide (¬ e.Ousts s.selectorOf x.2.rule)) =
          s.placed.entries.filter fun x => ∀ e' ∈ e :: edits, ¬ e'.Ousts s.selectorOf x.2.rule := by
        refine List.filter_congr fun x _ => ?_
        rw [← Bool.decide_and]
        simp only [List.forall_mem_cons, and_comm]
      rw [editAll, List.foldl_cons, ← editAll, hrest, hkept, List.append_assoc]
      rw [Edit.map_standing_cons]

/-! ### Rules in a sheet -/

namespace Keyed

/-- A rule has a place exactly if it is the rule of its selector. -/
theorem place?_iff_mem (h : s.Keyed) :
    s.place? id = some p ↔ p ∈ s.placed.values ∧ p.rule = id := by
  rw [place?_eq_some_iff, OrdMap.mem_values_iff]
  apply and_congr_left
  rintro rfl
  constructor
  · intro hget
    exact ⟨_, hget⟩
  · rintro ⟨key, hget⟩
    rwa [h.selectorOf_eq hget]

theorem find?_eq_some_iff (h : s.Keyed) {selector : String} :
    s.find? selector = some id ↔ id ∈ s.order ∧ s.selectorOf id = selector := by
  rw [find?, Option.map_eq_some_iff, order, List.mem_map]
  constructor
  · rintro ⟨p, hget, rfl⟩
    exact ⟨⟨p, OrdMap.mem_values_iff.mpr ⟨selector, hget⟩, rfl⟩, h.selectorOf_eq hget⟩
  · rintro ⟨⟨p, hp, rfl⟩, rfl⟩
    obtain ⟨key, hget⟩ := OrdMap.mem_values_iff.mp hp
    exact ⟨p, (h.selectorOf_eq hget).symm ▸ hget, rfl⟩

theorem path_eq_ok_iff (h : s.Keyed) {path : List RuleId} :
    s.path id = .ok path ↔ ⟨id, path⟩ ∈ s.placed.values := by
  have hplace : s.path id = .ok path ↔ ∃ p, s.place? id = some p ∧ p.path = path := by
    rw [Stylesheet.path]
    cases s.place? id <;> simp
  rw [hplace]
  simp only [h.place?_iff_mem]
  constructor
  · rintro ⟨p, ⟨hp, rfl⟩, rfl⟩
    exact hp
  · intro hp
    exact ⟨_, ⟨hp, rfl⟩, rfl⟩

theorem place?_eq_none (h : s.Keyed) (hid : id ∉ s.order) : s.place? id = none := by
  rw [Option.eq_none_iff_forall_ne_some]
  intro p hp
  obtain ⟨hmem, hrule⟩ := h.place?_iff_mem.mp hp
  exact hid (hrule ▸ List.mem_map_of_mem hmem)

end Keyed

end Stylesheet

/-! ### Histories of a ledger -/

namespace Ledger

variable {l : Ledger} {s : Stylesheet} {id : RuleId} {edits : List Edit}

def edit (l : Ledger) : Edit → Ledger
  | .append id path => l.append id path
  | .remove id => l.remove id

/-- The ledger after one edit after the other. -/
def editAll (l : Ledger) (edits : List Edit) : Ledger := edits.foldl edit l

/-- The selector of each rule. -/
def selectorOf (l : Ledger) (id : RuleId) : String := (l.rule id).selector

theorem Agrees.selectorOf_eq (h : l.Agrees s) : l.selectorOf = s.selectorOf := by
  funext id
  rw [selectorOf, h.rule_eq]
  rfl

theorem Agrees.edit (h : l.Agrees s) (e : Edit) : (l.edit e).Agrees (s.edit e) := by
  cases e with
  | append id path => exact h.append id path
  | remove id => exact h.remove id

theorem Agrees.editAll (h : l.Agrees s) (edits : List Edit) :
    (l.editAll edits).Agrees (s.editAll edits) := by
  induction edits generalizing l s with
  | nil => exact h
  | cons e edits ih => exact ih (h.edit e)

/-- What neither table knows is taken out without effect. -/
theorem remove_eq_self (hpath : l.paths.lookup id = none)
    (hholder : l.find? (l.selectorOf id) ≠ some id) : l.remove id = l := by
  have hpaths : l.paths.filter (fun e => e.1 != id) = l.paths := by
    refine List.filter_eq_self.mpr fun e he => ?_
    have hother := List.lookup_eq_none_iff.mp hpath e he
    rwa [bne_iff_ne, ne_comm, ← bne_iff_ne]
  rw [remove, forget, hpaths, ← selectorOf, if_neg hholder]

/-- Both tables have the rules whose last append in a history lasts. -/
structure Records (l : Ledger) (edits : List Edit) : Prop where
  distinct : (l.order.map l.selectorOf).Nodup
  find_iff : ∀ selector id, l.find? selector = some id ↔ id ∈ l.order ∧ l.selectorOf id = selector
  path_iff : ∀ id path,
    l.path id = .ok path ↔ ∃ after, Edit.Lasts l.selectorOf edits ⟨id, path⟩ after
  stored_iff : ∀ id, id ∈ l.order ↔ ∃ path, l.path id = .ok path
  /-- A rule that was replaced or removed has no path, and removing it changes neither table. -/
  absent : ∀ id, id ∉ l.order → l.remove id = l ∧
    l.path id = .error (.missingKey (.text s!"No path for rule with selector: {l.selectorOf id}"))
  /-- The rules stand in the order of their last appends. -/
  order : l.order.Pairwise fun id id' => ∃ path path' after after',
    Edit.Lasts l.selectorOf edits ⟨id, path⟩ after ∧
      Edit.Lasts l.selectorOf edits ⟨id', path'⟩ after' ∧ after'.length < after.length

theorem Agrees.records (h : l.Agrees s)
    (hvalues : s.placed.values = Edit.standing s.selectorOf edits) : l.Records edits where
  distinct := by
    rw [h.order_eq, h.selectorOf_eq, ← h.keyed.keys_eq]
    exact s.placed.nodup
  find_iff selector id := by
    rw [h.find?_eq, h.order_eq, h.selectorOf_eq]
    exact h.keyed.find?_eq_some_iff
  path_iff id path := by
    rw [h.path_eq, h.selectorOf_eq, h.keyed.path_eq_ok_iff, hvalues, Edit.mem_standing_iff]
  stored_iff id := by
    simp only [h.order_eq, h.path_eq, h.keyed.path_eq_ok_iff, Stylesheet.order, List.mem_map]
    constructor
    · rintro ⟨p, hp, rfl⟩
      exact ⟨p.path, hp⟩
    · rintro ⟨path, hp⟩
      exact ⟨_, hp, rfl⟩
  absent id hid := by
    rw [h.order_eq] at hid
    have hnone := h.keyed.place?_eq_none hid
    constructor
    · refine remove_eq_self (by rw [h.paths, hnone, Option.map_none]) ?_
      rw [h.find?_eq, h.selectorOf_eq]
      intro hfound
      have hstands := Stylesheet.isSome_place?_iff.mpr hfound
      rw [hnone] at hstands
      cases hstands
    · rw [h.path_eq, h.selectorOf_eq, Stylesheet.path, hnone]
      rfl
  order := by
    rw [h.order_eq, h.selectorOf_eq, Stylesheet.order, hvalues, List.pairwise_map]
    refine (Edit.pairwise_standing s.selectorOf edits).imp ?_
    rintro p q ⟨after, after', hp, hq, hlength⟩
    exact ⟨p.path, q.path, after, after', hp, hq, hlength⟩

/-- After any history of appends and removals, the rules with a selector have distinct ones and each
is found under its own; a rule has a path exactly if it has its selector, namely that of its last
append; and the rules stand in the order of these appends. -/
theorem records_editAll (rules : List Rule) (edits : List Edit) :
    (editAll { rules } edits).rules = rules ∧ (editAll { rules } edits).Records edits := by
  have hagrees := (Agrees.start rules).editAll edits
  have hrules := Stylesheet.rules_editAll { rules } edits
  have hentries := Stylesheet.entries_editAll (Agrees.start rules).keyed edits
  have hselector : (Stylesheet.editAll { rules } edits).selectorOf =
      Stylesheet.selectorOf { rules } := by
    funext id
    rw [Stylesheet.selectorOf, Stylesheet.rule, hrules]
    rfl
  refine ⟨hagrees.rules.trans hrules, hagrees.records ?_⟩
  rw [OrdMap.values, hentries, hselector]
  simp [OrdMap.empty, Function.comp_def]

/-- The third rule replaces the first, which is then removed without effect; the second is appended
again and so comes last. -/
example : (editAll { rules := [{ selector := ".a" }, { selector := ".b" }, { selector := ".a" }] }
    [.append 0 [], .append 1 [0], .append 2 [], .remove 0, .append 1 [2]]).order = [2, 1] := by
  decide

end Ledger

end DesignTokens
