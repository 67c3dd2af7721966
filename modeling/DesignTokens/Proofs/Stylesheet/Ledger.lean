import DesignTokens.Proofs.Stylesheet.Basic
import DesignTokens.Stylesheet.Ledger
import DesignTokens.Stylesheet.Minimal
import Mathlib.Data.List.Nodup

/-!
A sheet stands for two tables. They agree with it if each selector has the same rule in both, and the
recorded paths are those of the rules in the sheet and no others. Every change of a sheet keeps this
if it is made to the tables as well, and then the tables answer as the sheet does. So what is proved
of sheets that are built, put together and made minimal is true of two tables that were changed in
the same way.
-/

namespace DesignTokens

/-! ### Rules at their selectors -/

namespace Stylesheet

variable {s : Stylesheet} {r : Rule} {id k : RuleId} {p : Placed} {path : List RuleId}
  {selector : String}

/-- The selector of each rule. -/
def selectorOf (s : Stylesheet) (id : RuleId) : String := (s.rule id).selector

/-- Rules stand at their selectors. -/
def Keyed (s : Stylesheet) : Prop := ∀ e ∈ s.placed.entries, e.1 = s.selectorOf e.2.rule

theorem Keyed.selectorOf_eq (h : s.Keyed) (hp : s.placed.get? selector = some p) :
    s.selectorOf p.rule = selector :=
  (h (selector, p) (OrdMap.mem_entries_iff.mpr hp)).symm

theorem keyed_iff : s.Keyed ↔
    ∀ selector p, s.placed.get? selector = some p → s.selectorOf p.rule = selector := by
  constructor
  · intro h selector p hp
    exact h.selectorOf_eq hp
  · intro h e he
    exact (h e.1 e.2 (OrdMap.mem_entries_iff.mp he)).symm

theorem place?_eq_some_iff :
    s.place? id = some p ↔ s.placed.get? (s.selectorOf id) = some p ∧ p.rule = id := by
  rw [place?, Option.filter_eq_some_iff, beq_iff_eq, selectorOf]

@[simp] theorem selectorOf_remove (s : Stylesheet) (id : RuleId) :
    (s.remove id).selectorOf = s.selectorOf := by
  funext k
  rw [selectorOf, rule_remove]
  rfl

theorem selectorOf_setRule (h : r.selector = s.selectorOf id) :
    (s.setRule id r).selectorOf = s.selectorOf := by
  funext k
  by_cases hid : id < s.rules.length
  · rw [selectorOf, rule_setRule s r hid]
    split
    · next heq => rw [h, heq]
    · rfl
  · rw [setRule, List.set_eq_of_length_le (Nat.not_lt.mp hid)]

theorem selectorOf_make (hk : k < s.rules.length) : (s.make r).1.selectorOf k = s.selectorOf k := by
  rw [selectorOf, rule_make, if_neg (Nat.ne_of_lt hk)]
  rfl

theorem place?_append (s : Stylesheet) (id : RuleId) (path : List RuleId) (k : RuleId) :
    (s.append id path).place? k =
      if k = id then some ⟨id, path⟩
      else if s.selectorOf k = s.selectorOf id then none else s.place? k := by
  rw [place?, rule_append, get?_placed_append]
  by_cases hk : k = id
  · subst hk
    simp
  · rw [if_neg hk, ← selectorOf, ← selectorOf]
    split
    · simp [Ne.symm hk]
    · rfl

theorem place?_setRule (hr : r.selector = s.selectorOf id) (k : RuleId) :
    (s.setRule id r).place? k = s.place? k := by
  rw [place?, ← selectorOf, selectorOf_setRule hr]
  rfl

/-- A rule stands in the sheet exactly if it is found under its selector. -/
theorem isSome_place?_iff : (s.place? id).isSome ↔ s.find? (s.selectorOf id) = some id := by
  rw [find?, Option.map_eq_some_iff, Option.isSome_iff_exists]
  simp only [place?_eq_some_iff]

theorem place?_remove (s : Stylesheet) (id k : RuleId) :
    (s.remove id).place? k = if k = id then none else s.place? k := by
  rw [remove]
  split
  · next hstands =>
      obtain ⟨p, hp⟩ := Option.isSome_iff_exists.mp hstands
      obtain ⟨hget, rfl⟩ := place?_eq_some_iff.mp hp
      refine Option.ext fun q => ?_
      by_cases hk : k = p.rule
      · subst hk
        simp [place?, OrdMap.get?_erase, rule]
      · rw [if_neg hk, place?_eq_some_iff, place?_eq_some_iff, OrdMap.get?_erase]
        apply and_congr_left
        rintro rfl
        -- the selector of the rule that goes has no other rule
        split
        · next hsame =>
            have hother : s.placed.get? (s.selectorOf q.rule) ≠ some q := by
              intro hq
              have hsame : s.selectorOf q.rule = s.selectorOf p.rule := hsame
              rw [hsame, hget] at hq
              exact hk (congrArg Placed.rule (Option.some.inj hq).symm)
            exact iff_of_false (Option.some_ne_none q).symm hother
        · rfl
  · next hgone =>
      split
      · next hk => rw [hk, Option.not_isSome_iff_eq_none.mp hgone]
      · rfl

namespace Keyed

theorem keys_eq (h : s.Keyed) : s.placed.keys = s.order.map s.selectorOf := by
  rw [OrdMap.keys, order, OrdMap.values, List.map_map, List.map_map]
  exact List.map_congr_left h

theorem nodup_order (h : s.Keyed) : s.order.Nodup :=
  List.Nodup.of_map s.selectorOf (h.keys_eq ▸ s.placed.nodup)

theorem place?_rule (h : s.Keyed) (hp : s.placed.get? selector = some p) :
    s.place? p.rule = some p :=
  place?_eq_some_iff.mpr ⟨(h.selectorOf_eq hp).symm ▸ hp, rfl⟩

theorem append (h : s.Keyed) (id : RuleId) (path : List RuleId) : (s.append id path).Keyed := by
  rw [keyed_iff]
  intro selector p hp
  rw [get?_placed_append] at hp
  split at hp
  · next heq =>
      obtain rfl := Option.some.inj hp
      exact heq.symm
  · exact h.selectorOf_eq hp

theorem remove (h : s.Keyed) (id : RuleId) : (s.remove id).Keyed := by
  rw [keyed_iff, selectorOf_remove]
  intro selector p hp
  rw [Stylesheet.remove] at hp
  split at hp
  · rw [OrdMap.get?_erase] at hp
    split at hp
    · cases hp
    · exact h.selectorOf_eq hp
  · exact h.selectorOf_eq hp

theorem setRule (h : s.Keyed) (hr : r.selector = s.selectorOf id) : (s.setRule id r).Keyed := by
  rw [Keyed, selectorOf_setRule hr]
  exact h

end Keyed

/-- The rules in the sheet have been made. -/
def Made (s : Stylesheet) : Prop := ∀ id ∈ s.order, id < s.rules.length

theorem made_iff :
    s.Made ↔ ∀ selector p, s.placed.get? selector = some p → p.rule < s.rules.length := by
  simp only [Made, order, List.mem_map, OrdMap.mem_values_iff]
  grind

theorem Made.append (h : s.Made) (hid : id < s.rules.length) (path : List RuleId) :
    (s.append id path).Made := by
  rw [made_iff] at h ⊢
  intro selector p hp
  rw [get?_placed_append] at hp
  split at hp
  · obtain rfl := Option.some.inj hp
    exact hid
  · exact h selector p hp

theorem Made.remove (h : s.Made) (id : RuleId) : (s.remove id).Made := by
  rw [made_iff] at h ⊢
  intro selector p hp
  rw [rules_remove]
  rw [Stylesheet.remove] at hp
  split at hp
  · rw [OrdMap.get?_erase] at hp
    split at hp
    · cases hp
    · exact h selector p hp
  · exact h selector p hp

theorem Made.make (h : s.Made) (r : Rule) : (s.make r).1.Made := by
  intro id hid
  rw [Stylesheet.make, List.length_append]
  exact Nat.lt_add_right _ (h id hid)

theorem Made.setRule (h : s.Made) (id : RuleId) (r : Rule) : (s.setRule id r).Made := by
  rw [Made, length_rules_setRule]
  exact h

theorem Keyed.make (h : s.Keyed) (hmade : s.Made) (r : Rule) : (s.make r).1.Keyed := by
  rw [keyed_iff]
  intro selector p hp
  rw [selectorOf_make (made_iff.mp hmade selector p hp)]
  exact h.selectorOf_eq hp

theorem place?_make (hmade : s.Made) (r : Rule) (id : RuleId) :
    (s.make r).1.place? id = s.place? id := by
  refine Option.ext fun p => ?_
  rw [place?_eq_some_iff, place?_eq_some_iff]
  apply and_congr_left
  rintro rfl
  by_cases hp : p.rule < s.rules.length
  · rw [selectorOf_make hp]
    rfl
  · have hnone : ∀ selector, s.placed.get? selector ≠ some p :=
      fun selector hget => hp (made_iff.mp hmade selector p hget)
    exact iff_of_false (hnone _) (hnone _)

end Stylesheet

/-! ### Agreement -/

namespace Ledger

variable {l : Ledger} {s : Stylesheet} {r : Rule} {id : RuleId}

/-- The tables are those of a sheet: a selector has the rule that stands at it, and a rule has the
path with which it stands in the sheet. -/
structure Agrees (l : Ledger) (s : Stylesheet) : Prop where
  rules : l.rules = s.rules
  keyed : s.Keyed
  holders : l.holders = s.placed.map Placed.rule
  paths : ∀ id, l.paths.lookup id = (s.place? id).map Placed.path

/-- The tables show a sheet and answer as it does. -/
structure Shows (l : Ledger) (s : Stylesheet) : Prop where
  sheet : l.sheet = s
  order : l.order = s.order
  find? : l.find? = s.find?
  present? : l.present? = s.present?
  path : l.path = s.path

namespace Agrees

theorem start (rules : List Rule) : Agrees { rules } { rules } where
  rules := rfl
  keyed := by simp [Stylesheet.Keyed, OrdMap.empty]
  holders := rfl
  paths _ := rfl

theorem rule_eq (h : l.Agrees s) (id : RuleId) : l.rule id = s.rule id := by
  rw [Ledger.rule, h.rules]
  rfl

theorem find?_eq (h : l.Agrees s) (selector : String) : l.find? selector = s.find? selector := by
  rw [find?, h.holders, OrdMap.get?_map]
  rfl

theorem order_eq (h : l.Agrees s) : l.order = s.order := by
  rw [order, h.holders]
  simp [OrdMap.values, OrdMap.map, OrdMap.mapWith, Stylesheet.order]

theorem present?_eq (h : l.Agrees s) (id : RuleId) : l.present? id = s.present? id := by
  rw [present?, h.find?_eq, h.rule_eq, Stylesheet.find?, Option.filter_map]
  rfl

theorem path_eq (h : l.Agrees s) (id : RuleId) : l.path id = s.path id := by
  rw [Ledger.path, h.paths, h.rule_eq, Stylesheet.path]
  cases s.place? id <;> rfl

theorem sheet_eq (h : l.Agrees s) : l.sheet = s := by
  have hplaced : l.sheet.placed = s.placed := by
    refine OrdMap.ext_get? ?_ fun selector => ?_
    · rw [sheet, OrdMap.keys_map, h.holders, OrdMap.keys_map]
    · rw [sheet, OrdMap.get?_map, h.holders, OrdMap.get?_map]
      cases hp : s.placed.get? selector with
      | none => rfl
      | some p => simp [h.paths, h.keyed.place?_rule hp]
  cases s
  exact congrArg₂ Stylesheet.mk h.rules hplaced

theorem shows (h : l.Agrees s) : l.Shows s where
  sheet := h.sheet_eq
  order := h.order_eq
  find? := funext h.find?_eq
  present? := funext h.present?_eq
  path := funext h.path_eq

/-! A change of the sheet is followed by the tables. -/

theorem append (h : l.Agrees s) (id : RuleId) (path : List RuleId) :
    (l.append id path).Agrees (s.append id path) where
  rules := (l.rules_append id path).trans h.rules
  keyed := h.keyed.append id path
  holders := by
    rw [Ledger.append, h.rule_eq, h.holders, OrdMap.map_erase]
    exact OrdMap.map_insert Placed.rule _ _ ⟨id, path⟩
  paths k := by
    rw [lookup_paths_append, Stylesheet.place?_append, h.rule_eq, h.paths, ← Stylesheet.selectorOf]
    by_cases hk : k = id
    · rw [if_pos hk, if_pos hk]
      rfl
    · rw [if_neg hk, if_neg hk]
      -- the rule that loses its path is the only one at the selector
      by_cases hsame : s.selectorOf k = s.selectorOf id
      · rw [if_pos hsame, ← hsame, h.find?_eq]
        split
        · rfl
        · next hnot =>
            rw [← Stylesheet.isSome_place?_iff, Option.not_isSome_iff_eq_none] at hnot
            rw [hnot, Option.map_none]
      · rw [if_neg hsame, if_neg]
        intro hfound
        rw [h.find?_eq, Stylesheet.find?, Option.map_eq_some_iff] at hfound
        obtain ⟨p, hp, rfl⟩ := hfound
        exact hsame (h.keyed.selectorOf_eq hp)

theorem remove (h : l.Agrees s) (id : RuleId) : (l.remove id).Agrees (s.remove id) where
  rules := h.rules.trans (s.rules_remove id).symm
  keyed := h.keyed.remove id
  holders := by
    have hstands : s.find? (s.rule id).selector = some id ↔ (s.place? id).isSome :=
      Stylesheet.isSome_place?_iff.symm
    simp only [Ledger.remove, Stylesheet.remove, h.rule_eq, h.find?_eq, h.holders, hstands]
    split
    · exact OrdMap.map_erase Placed.rule s.placed _
    · rfl
  paths k := by
    rw [lookup_paths_remove, Stylesheet.place?_remove, h.paths]
    split <;> rfl

theorem make (h : l.Agrees s) (hmade : s.Made) (r : Rule) : (l.make r).1.Agrees (s.make r).1 where
  rules := congrArg (· ++ [r]) h.rules
  keyed := h.keyed.make hmade r
  holders := h.holders
  paths k := by
    rw [Stylesheet.place?_make hmade]
    exact h.paths k

theorem setRule (h : l.Agrees s) (hr : r.selector = s.selectorOf id) :
    (l.setRule id r).Agrees (s.setRule id r) where
  rules := congrArg (·.set id r) h.rules
  keyed := h.keyed.setRule hr
  holders := h.holders
  paths k := by
    rw [Stylesheet.place?_setRule hr]
    exact h.paths k

end Agrees

/-- A ledger and a sheet that were made by the same changes. A rule that is changed keeps its
selector. -/
inductive Tracks : Ledger → Stylesheet → Prop
  | start : Tracks {} {}
  | make {l : Ledger} {s : Stylesheet} (h : Tracks l s) (r : Rule) :
      Tracks (l.make r).1 (s.make r).1
  | setRule {l : Ledger} {s : Stylesheet} {id : RuleId} {r : Rule} (h : Tracks l s)
      (hr : r.selector = s.selectorOf id) : Tracks (l.setRule id r) (s.setRule id r)
  | append {l : Ledger} {s : Stylesheet} {id : RuleId} (h : Tracks l s)
      (hid : id < s.rules.length) (path : List RuleId) :
      Tracks (l.append id path) (s.append id path)
  | remove {l : Ledger} {s : Stylesheet} (h : Tracks l s) (id : RuleId) :
      Tracks (l.remove id) (s.remove id)

namespace Tracks

theorem made (h : Tracks l s) : s.Made := by
  induction h with
  | start => simp [Stylesheet.Made, Stylesheet.order, OrdMap.values, OrdMap.empty]
  | make _ r ih => exact ih.make r
  | setRule _ _ ih => exact ih.setRule _ _
  | append _ hid path ih => exact ih.append hid path
  | remove _ id ih => exact ih.remove id

/-- Two tables agree with a sheet that was changed in the same way. -/
theorem agrees (h : Tracks l s) : l.Agrees s := by
  induction h with
  | start => exact .start []
  | make h r ih => exact ih.make h.made r
  | setRule _ hr ih => exact ih.setRule hr
  | append _ _ path ih => exact ih.append _ path
  | remove _ id ih => exact ih.remove id

/-- Two tables answer as a sheet does that was changed in the same way. -/
theorem shows (h : Tracks l s) : l.Shows s := h.agrees.shows

end Tracks

end Ledger

/-! ### Sheets that were made by changes -/

/-- The sheet was made by changes that can be made to two tables. -/
def Stylesheet.Tracked (s : Stylesheet) : Prop := ∃ l, Ledger.Tracks l s

namespace Stylesheet.Tracked

variable {s s' : Stylesheet} {id : RuleId}

theorem start : Tracked {} := ⟨{}, .start⟩

theorem made : s.Tracked → s.Made
  | ⟨_, h⟩ => h.made

theorem make (r : Rule) : s.Tracked → (s.make r).1.Tracked
  | ⟨_, h⟩ => ⟨_, h.make r⟩

theorem append (hid : id < s.rules.length) (path : List RuleId) :
    s.Tracked → (s.append id path).Tracked
  | ⟨_, h⟩ => ⟨_, h.append hid path⟩

/-- What every step keeps holds of a run. -/
theorem foldlM (h : s.Tracked) {α : Type} {f : Stylesheet → α → Except Fault Stylesheet}
    {xs : List α} (hstep : ∀ x s s', s.Tracked → f s x = .ok s' → s'.Tracked)
    (hs' : xs.foldlM f s = .ok s') : s'.Tracked :=
  Outcome.foldlM_induction (fun _ s => s.Tracked) h
    (fun _ x _ u u' _ hu hu' => hstep x u u' hu hu') hs'

/-- Reducing a rule changes it and perhaps takes it out. -/
theorem reduceRule (h : s.Tracked) (hs' : s.reduceRule id = .ok s') : s'.Tracked := by
  rw [Stylesheet.reduceRule, Outcome.bind_eq_ok] at hs'
  obtain ⟨path, -, hs'⟩ := hs'
  split at hs'
  · obtain rfl := Outcome.pure_eq_ok.mp hs'
    exact h
  · obtain ⟨kept, -, hs'⟩ := Outcome.bind_eq_ok.mp hs'
    obtain rfl := Outcome.pure_eq_ok.mp hs'
    obtain ⟨l, hl⟩ := h
    have hset : Ledger.Tracks _ (s.setRule id { s.rule id with declarations := kept }) :=
      hl.setRule rfl
    split
    · exact ⟨_, hset.remove id⟩
    · exact ⟨_, hset⟩

theorem minimal (h : s.Tracked) (hs' : s.minimal = .ok s') : s'.Tracked :=
  h.foldlM (fun _ _ _ hu hu' => hu.reduceRule hu') hs'

end Stylesheet.Tracked

/-- A sheet whose rules stand at their selectors is that of its tables. -/
theorem Stylesheet.Keyed.agrees_ledger {s : Stylesheet} (h : s.Keyed) : s.ledger.Agrees s where
  rules := rfl
  keyed := h
  holders := rfl
  paths id := by
    have hids : ((s.placed.values.map fun p => (p.rule, p.path)).map Prod.fst).Nodup := by
      rw [List.map_map]
      exact h.nodup_order
    refine Option.ext fun path => ?_
    rw [ledger, Entries.lookup_eq_some_iff hids, Option.map_eq_some_iff]
    simp only [List.mem_map, OrdMap.mem_values_iff]
    constructor
    · rintro ⟨p, ⟨selector, hp⟩, heq⟩
      obtain ⟨rfl, rfl⟩ := Prod.mk.inj heq
      exact ⟨p, h.place?_rule hp, rfl⟩
    · rintro ⟨p, hp, rfl⟩
      obtain ⟨hget, rfl⟩ := place?_eq_some_iff.mp hp
      exact ⟨p, ⟨_, hget⟩, rfl⟩

end DesignTokens
