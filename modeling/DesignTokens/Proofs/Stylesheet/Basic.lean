import DesignTokens.Proofs.OrdMap
import DesignTokens.Stylesheet.Minimal

/-!
Stylesheets step by step: what making, placing, changing and removing a rule does to the rules and
to their places. Declarations written over one another are read from the last that has a property.
-/

namespace DesignTokens

/-! ### Overlays -/

namespace Declarations

variable {ds es : List Declarations} {d : Declarations} {property : String} {v : Value}

/-- Declarations written over one another, later ones winning. -/
def overlay (ds : List Declarations) : Declarations := ds.foldl OrdMap.union .empty

@[simp] theorem overlay_nil : overlay [] = .empty := rfl

theorem overlay_singleton (d : Declarations) : overlay [d] = d :=
  OrdMap.ext (OrdMap.entries_foldl_insert d.entries .empty d.nodup)

theorem get?_foldl_union (ds : List Declarations) (d : Declarations) (property : String) :
    (ds.foldl OrdMap.union d).get? property =
      ((overlay ds).get? property).or (d.get? property) := by
  induction ds generalizing d with
  | nil => simp
  | cons e ds ih =>
      rw [overlay, List.foldl_cons, List.foldl_cons, ih, ih (OrdMap.union .empty e),
        OrdMap.get?_union, OrdMap.get?_union, OrdMap.get?_empty, Option.or_none, Option.or_assoc]

theorem get?_overlay_append (ds es : List Declarations) (property : String) :
    (overlay (ds ++ es)).get? property =
      ((overlay es).get? property).or ((overlay ds).get? property) := by
  rw [overlay, List.foldl_append, get?_foldl_union]
  rfl

theorem get?_overlay_cons (d : Declarations) (ds : List Declarations) (property : String) :
    (overlay (d :: ds)).get? property =
      ((overlay ds).get? property).or (d.get? property) := by
  rw [overlay, List.foldl_cons, get?_foldl_union, OrdMap.get?_union, OrdMap.get?_empty,
    Option.or_none]

theorem get?_overlay_eq_none_iff :
    (overlay ds).get? property = none ↔ ∀ d ∈ ds, d.get? property = none := by
  induction ds with
  | nil => simp
  | cons d ds ih =>
      rw [get?_overlay_cons, Option.or_eq_none_iff, ih, List.forall_mem_cons, and_comm]

/-- A value of an overlay is that of one of its parts. -/
theorem exists_of_get?_overlay (h : (overlay ds).get? property = some v) :
    ∃ d ∈ ds, d.get? property = some v := by
  induction ds with
  | nil => cases h
  | cons d ds ih =>
      rw [get?_overlay_cons, Option.or_eq_some_iff] at h
      obtain h | ⟨-, h⟩ := h
      · obtain ⟨e, he, hv⟩ := ih h
        exact ⟨e, List.mem_cons_of_mem d he, hv⟩
      · exact ⟨d, List.mem_cons_self, h⟩

/-- Where one part alone has a property, it gives the value. -/
theorem get?_overlay_of_unique {α : Type} (f : α → Declarations) {xs : List α} {x : α}
    (hx : x ∈ xs) (h : ∀ y ∈ xs, y ≠ x → (f y).get? property = none) :
    (overlay (xs.map f)).get? property = (f x).get? property := by
  cases hv : (overlay (xs.map f)).get? property with
  | none => exact (get?_overlay_eq_none_iff.mp hv _ (List.mem_map_of_mem hx)).symm
  | some v =>
      obtain ⟨d, hd, hdv⟩ := exists_of_get?_overlay hv
      obtain ⟨y, hy, rfl⟩ := List.mem_map.mp hd
      by_cases hyx : y = x
      · rw [← hyx, hdv]
      · rw [h y hy hyx] at hdv
        cases hdv

/-- Of each part only its value for the property counts. -/
theorem get?_overlay_congr {α : Type} {f g : α → Declarations} {xs : List α}
    (h : ∀ x ∈ xs, (f x).get? property = (g x).get? property) :
    (overlay (xs.map f)).get? property = (overlay (xs.map g)).get? property := by
  induction xs with
  | nil => rfl
  | cons x xs ih =>
      rw [List.map_cons, List.map_cons, get?_overlay_cons, get?_overlay_cons,
        ih fun y hy => h y (List.mem_cons_of_mem x hy), h x List.mem_cons_self]

/-- Parts without a property do not matter for it. -/
theorem get?_overlay_filter {α : Type} (f : α → Declarations) (p : α → Bool) {xs : List α}
    (h : ∀ x ∈ xs, p x = false → (f x).get? property = none) :
    (overlay ((xs.filter p).map f)).get? property = (overlay (xs.map f)).get? property := by
  induction xs with
  | nil => rfl
  | cons x xs ih =>
      have htail := ih fun y hy => h y (List.mem_cons_of_mem x hy)
      cases hp : p x with
      | true =>
          rw [List.filter_cons_of_pos hp, List.map_cons, List.map_cons, get?_overlay_cons,
            get?_overlay_cons, htail]
      | false =>
          rw [List.filter_cons_of_neg (by simp [hp]), List.map_cons, get?_overlay_cons, htail,
            h x List.mem_cons_self hp, Option.or_none]

/-- Nor do parts that are missing. -/
theorem overlay_filterMap {α β : Type} (f : α → Option β) (g : β → Declarations) (xs : List α) :
    overlay ((xs.filterMap f).map g) = overlay (xs.map fun x => ((f x).map g).getD .empty) := by
  have hunion : ∀ d : Declarations, d.union .empty = d := fun _ => rfl
  suffices H : ∀ start : Declarations, ((xs.filterMap f).map g).foldl OrdMap.union start =
      (xs.map fun x => ((f x).map g).getD .empty).foldl OrdMap.union start from H .empty
  intro start
  induction xs generalizing start with
  | nil => rfl
  | cons x xs ih =>
      cases hx : f x with
      | none => simp [hx, ih, hunion]
      | some y => simp [hx, ih]

end Declarations

/-! ### Steps -/

namespace Stylesheet

variable {s : Stylesheet} {r : Rule} {id k : RuleId}

theorem inherited_eq_overlay (s : Stylesheet) (path : List RuleId) :
    s.inherited path = .overlay (path.map fun id => (s.rule id).declarations) := by
  rw [inherited, Declarations.overlay, List.foldl_map]

theorem rule_setRule (s : Stylesheet) {id : RuleId} (r : Rule) (hid : id < s.rules.length)
    (k : RuleId) : (s.setRule id r).rule k = if k = id then r else s.rule k := by
  simp only [rule, setRule]
  by_cases hk : k = id
  · subst hk
    simp [hid]
  · simp [hk, List.getElem?_set_ne (Ne.symm hk)]

@[simp] theorem placed_setRule (s : Stylesheet) (id : RuleId) (r : Rule) :
    (s.setRule id r).placed = s.placed := rfl

@[simp] theorem length_rules_setRule (s : Stylesheet) (id : RuleId) (r : Rule) :
    (s.setRule id r).rules.length = s.rules.length := List.length_set

theorem rules_remove (s : Stylesheet) (id : RuleId) : (s.remove id).rules = s.rules := by
  unfold remove
  split <;> rfl

theorem rule_remove (s : Stylesheet) (id k : RuleId) : (s.remove id).rule k = s.rule k := by
  rw [rule, rules_remove]
  rfl

theorem rule_make (s : Stylesheet) (r : Rule) (k : RuleId) :
    (s.make r).1.rule k = if k = s.rules.length then r else s.rule k := by
  simp only [rule, make]
  by_cases hk : k = s.rules.length
  · simp [hk]
  · obtain hlt | hgt := Nat.lt_or_gt_of_ne hk
    · simp [hk, List.getElem?_append_left hlt]
    · have hnone : s.rules[k]? = none := List.getElem?_eq_none_iff.mpr (Nat.le_of_lt hgt)
      have hnone' : (s.rules ++ [r])[k]? = none := by
        rw [List.getElem?_eq_none_iff, List.length_append, List.length_singleton]
        exact hgt
      simp [hk, hnone, hnone']

@[simp] theorem rule_append (s : Stylesheet) (id : RuleId) (path : List RuleId) (k : RuleId) :
    (s.append id path).rule k = s.rule k := rfl

theorem keys_placed_append (s : Stylesheet) (id : RuleId) (path : List RuleId) :
    (s.append id path).placed.keys =
      s.placed.keys.filter (· != (s.rule id).selector) ++ [(s.rule id).selector] := by
  simp only [append, OrdMap.keys]
  rw [OrdMap.entries_insert_erase, List.map_append, List.filter_map]
  rfl

theorem get?_placed_append (s : Stylesheet) (id : RuleId) (path : List RuleId) (selector : String) :
    (s.append id path).placed.get? selector =
      if selector = (s.rule id).selector then some ⟨id, path⟩ else s.placed.get? selector := by
  simp only [append, OrdMap.get?_insert, OrdMap.get?_erase]
  split <;> rfl

end Stylesheet

end DesignTokens
