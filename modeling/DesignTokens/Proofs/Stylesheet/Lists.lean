import DesignTokens.Build.Rule
import DesignTokens.Proofs.Stylesheet.Settled
import Mathlib.Data.List.Perm.Subperm

/-!
Sheets that list planned rules. A plan has the rules of a sheet together with the selectors of the
rules that each inherits from; some of these may have no rule. A sheet that lists a plan has its
rules in order, without the empty ones, and on the path of each those of the named rules that are in
the sheet.

In a plan with layers a rule comes after those it inherits from, and it inherits from whatever they
inherit from. Then paths are sound, and the equation for the minimal form can be read off the plan.
-/

namespace DesignTokens

/-! ### Plans -/

/-- A rule with the selectors of the rules that it inherits from, the farthest first. -/
structure Planned where
  rule : Rule
  parents : List String

namespace Planned

abbrev selector (e : Planned) : String := e.rule.selector

abbrev declarations (e : Planned) : Declarations := e.rule.declarations

/-- What a rule stands for in the layers of a plan. -/
def outline (e : Planned) : String × List String := (e.selector, e.parents)

end Planned

/-- Distinct items in order, each with those that it is below. Whatever one of these is below, the
item is below as well; none comes after the item. -/
structure Layered {α : Type} (frame : List (α × List α)) : Prop where
  distinct : (frame.map Prod.fst).Nodup
  nodup : ∀ e ∈ frame, e.2.Nodup
  closed : ∀ e ∈ frame, ∀ e' ∈ frame, e'.1 ∈ e.2 → e'.2 ⊆ e.2
  irrefl : ∀ e ∈ frame, e.1 ∉ e.2
  earlier : frame.Pairwise fun e e' => e'.1 ∉ e.2

namespace Layered

variable {α β : Type} {frame frame' : List (α × List α)}

/-- Names that tell the items apart have the same layers. -/
theorem map (h : Layered frame) {f : α → β} {items : α → Prop}
    (hitems : ∀ e ∈ frame, items e.1 ∧ ∀ a ∈ e.2, items a)
    (hf : ∀ a b, items a → items b → f a = f b → a = b) :
    Layered (frame.map fun e => (f e.1, e.2.map f)) := by
  have hmem : ∀ e ∈ frame, ∀ a, items a → f a ∈ e.2.map f → a ∈ e.2 := by
    intro e he a ha hmem
    obtain ⟨b, hb, heq⟩ := List.mem_map.mp hmem
    rwa [← hf b a ((hitems e he).2 b hb) ha heq]
  refine ⟨?_, ?_, ?_, ?_, ?_⟩
  · rw [List.map_map]
    have hinj : ∀ a ∈ frame.map Prod.fst, ∀ b ∈ frame.map Prod.fst, f a = f b → a = b := by
      intro a ha b hb heq
      obtain ⟨e, he, rfl⟩ := List.mem_map.mp ha
      obtain ⟨e', he', rfl⟩ := List.mem_map.mp hb
      exact hf _ _ (hitems e he).1 (hitems e' he').1 heq
    simpa [Function.comp_def] using h.distinct.map_on hinj
  · intro item hitem
    obtain ⟨e, he, rfl⟩ := List.mem_map.mp hitem
    exact (h.nodup e he).map_on fun a ha b hb =>
      hf a b ((hitems e he).2 a ha) ((hitems e he).2 b hb)
  · intro item hitem item' hitem' hbelow
    obtain ⟨e, he, rfl⟩ := List.mem_map.mp hitem
    obtain ⟨e', he', rfl⟩ := List.mem_map.mp hitem'
    exact List.map_subset f (h.closed e he e' he' (hmem e he _ (hitems e' he').1 hbelow))
  · intro item hitem hself
    obtain ⟨e, he, rfl⟩ := List.mem_map.mp hitem
    exact h.irrefl e he (hmem e he _ (hitems e he).1 hself)
  · rw [List.pairwise_map]
    refine h.earlier.imp_of_mem fun {e e'} he he' hnot hbelow => ?_
    exact hnot (hmem e he _ (hitems e' he').1 hbelow)

theorem sublist (h : Layered frame) (hsub : frame'.Sublist frame) : Layered frame' where
  distinct := h.distinct.sublist (hsub.map Prod.fst)
  nodup e he := h.nodup e (hsub.subset he)
  closed e he e' he' := h.closed e (hsub.subset he) e' (hsub.subset he')
  irrefl e he := h.irrefl e (hsub.subset he)
  earlier := h.earlier.sublist hsub

end Layered

namespace Stylesheet

variable {s m : Stylesheet} {plan : List Planned} {e : Planned} {selector : String}

/-! ### Declarations by selector -/

/-- What the rule of a selector declares; nothing if there is none in the sheet. -/
def declared (s : Stylesheet) (selector : String) : Declarations :=
  match s.placed.get? selector with
  | some p => (s.rule p.rule).declarations
  | none => .empty

/-- The rules of a sheet in order. -/
def listing (s : Stylesheet) : List Rule := s.order.map s.rule

/-! ### Adding planned rules -/

theorem find?_add_of_ne (s : Stylesheet) {r : Rule} (path : List (Option RuleId))
    (h : selector ≠ r.selector) : (s.add r path).1.find? selector = s.find? selector := by
  unfold Stylesheet.add
  split
  · rfl
  · have hnew : (s.make r).1.rule (s.make r).2 = r := by
      rw [rule_make]
      exact if_pos rfl
    have hne : selector ≠ ((s.make r).1.rule (s.make r).2).selector := by rwa [hnew]
    simp only [find?]
    rw [get?_placed_append, if_neg hne]
    rfl

/-- The rule that was added is found, unless it is empty. -/
theorem find?_add_self (s : Stylesheet) {r : Rule} (path : List (Option RuleId))
    (h : s.find? r.selector = none) : (s.add r path).1.find? r.selector = (s.add r path).2 := by
  unfold Stylesheet.add
  split
  · exact h
  · have hnew : (s.make r).1.rule (s.make r).2 = r := by
      rw [rule_make]
      exact if_pos rfl
    simp only [find?]
    rw [get?_placed_append, hnew, if_pos rfl]
    rfl

/-- A rule with declarations is found where it was added, whatever was there before. -/
theorem exists_find?_add (s : Stylesheet) {r : Rule} (path : List (Option RuleId))
    (h : r.isEmpty = false) :
    ∃ id, (s.add r path).1.rule id = r ∧ (s.add r path).1.find? r.selector = some id := by
  have hnew : (s.make r).1.rule (s.make r).2 = r := by
    rw [rule_make]
    exact if_pos rfl
  refine ⟨(s.make r).2, ?_⟩
  rw [Stylesheet.add, if_neg (by simp [h])]
  refine ⟨hnew, ?_⟩
  rw [find?, get?_placed_append, hnew, if_pos rfl]
  rfl

/-- Adds a planned rule below the rules that its parents have in the sheet. -/
def put (s : Stylesheet) (e : Planned) : Stylesheet := (s.add e.rule (e.parents.map s.find?)).1

theorem find?_put_of_ne (s : Stylesheet) (h : selector ≠ e.selector) :
    (s.put e).find? selector = s.find? selector :=
  find?_add_of_ne s _ h

/-- A sheet that has the rules of a plan. -/
structure Lists (s : Stylesheet) (plan : List Planned) : Prop where
  order : s.placed.keys = (plan.filter fun e => !e.rule.isEmpty).map Planned.selector
  place : ∀ e ∈ plan, e.rule.isEmpty = false → ∃ id, id < s.rules.length ∧ s.rule id = e.rule ∧
    s.placed.get? e.selector = some ⟨id, e.parents.filterMap s.find?⟩

namespace Lists

theorem start : Lists {} [] := ⟨rfl, by simp⟩

theorem mem_keys_iff (h : s.Lists plan) :
    selector ∈ s.placed.keys ↔ ∃ e ∈ plan, e.rule.isEmpty = false ∧ e.selector = selector := by
  rw [h.order]
  simp [and_assoc]

theorem find?_eq_none (h : s.Lists plan) (hselector : selector ∉ plan.map Planned.selector) :
    s.find? selector = none := by
  rw [find?, Option.map_eq_none_iff, OrdMap.get?_eq_none_iff, h.mem_keys_iff]
  rintro ⟨e, he, -, rfl⟩
  exact hselector (List.mem_map_of_mem he)

/-- A rule added to a sheet takes the place of the one with its selector, at the end. -/
theorem replace {plan' : List Planned} (h : s.Lists plan')
    (hrest : plan'.filter (fun e' => e'.selector != e.selector) = plan)
    (hfilled : e.rule.isEmpty = false) (hlater : ∀ e' ∈ plan ++ [e], e.selector ∉ e'.parents) :
    (s.put e).Lists (plan ++ [e]) := by
  have hadd : s.put e =
      (s.make e.rule).1.append s.rules.length (e.parents.filterMap s.find?) := by
    simp [put, add, hfilled, make, List.filterMap_map]
  have hnew : (s.make e.rule).1.rule s.rules.length = e.rule := by simp [rule_make]
  -- only the selector of the rule is looked up anew
  have hget : ∀ k, (s.put e).placed.get? k =
      if k = e.selector then some ⟨s.rules.length, e.parents.filterMap s.find?⟩
      else s.placed.get? k := by
    intro k
    rw [hadd, get?_placed_append, hnew]
    rfl
  have hfind : ∀ e' ∈ plan ++ [e],
      e'.parents.filterMap (s.put e).find? = e'.parents.filterMap s.find? := by
    intro e' he'
    refine List.filterMap_congr fun k hk => find?_put_of_ne s ?_
    rintro rfl
    exact hlater e' he' hk
  refine ⟨?_, ?_⟩
  · rw [hadd, keys_placed_append, hnew]
    simp only [make, h.order, ← hrest, List.filter_map, List.filter_append, List.map_append,
      List.filter_filter, List.filter_cons, hfilled, Bool.not_false, if_true, List.filter_nil,
      List.map_cons, List.map_nil]
    congr 2
    refine List.filter_congr fun e' _ => ?_
    exact Bool.and_comm _ _
  · intro e' he' hfilled'
    rw [hfind e' he']
    obtain he' | rfl := List.mem_append.mp he' |>.imp_right List.mem_singleton.mp
    · obtain ⟨hmem, hne⟩ := List.mem_filter.mp (hrest ▸ he' : e' ∈ plan'.filter _)
      obtain ⟨id, hid, hrule, hplace⟩ := h.place e' hmem hfilled'
      have hne' : id ≠ s.rules.length := Nat.ne_of_lt hid
      refine ⟨id, ?_, ?_, ?_⟩
      · rw [hadd]
        simp only [append, make, List.length_append, List.length_singleton]
        omega
      · rw [hadd, rule_append, rule_make, if_neg hne', hrule]
      · rw [hget, if_neg (by simpa using hne), hplace]
    · refine ⟨s.rules.length, ?_, ?_, ?_⟩
      · rw [hadd]
        simp [append, make]
      · rw [hadd, rule_append, hnew]
      · rw [hget, if_pos rfl]

theorem put_of_isEmpty (s : Stylesheet) (hempty : e.rule.isEmpty = true) : s.put e = s := by
  simp [Stylesheet.put, Stylesheet.add, hempty]

/-- The next rule of a plan is added. -/
theorem put (h : s.Lists plan) (hfresh : e.selector ∉ plan.map Planned.selector)
    (hlater : ∀ e' ∈ plan ++ [e], e.selector ∉ e'.parents) : (s.put e).Lists (plan ++ [e]) := by
  cases hempty : e.rule.isEmpty with
  | true =>
      rw [put_of_isEmpty s hempty]
      refine ⟨by simp [h.order, hempty], fun e' he' hfilled => ?_⟩
      obtain he' | rfl := List.mem_append.mp he' |>.imp_right List.mem_singleton.mp
      · exact h.place e' he' hfilled
      · simp [hempty] at hfilled
  | false =>
      refine h.replace ?_ hempty hlater
      refine List.filter_eq_self.mpr fun e' he' => bne_iff_ne.mpr fun heq => hfresh ?_
      rw [← heq]
      exact List.mem_map_of_mem he'

/-- A rule that is added twice stands in the sheet once. -/
theorem put_twice (h : s.Lists plan) (hfresh : e.selector ∉ plan.map Planned.selector)
    (hlater : ∀ e' ∈ plan ++ [e], e.selector ∉ e'.parents) :
    ((s.put e).put e).Lists (plan ++ [e]) := by
  have honce := h.put hfresh hlater
  cases hempty : e.rule.isEmpty with
  | true => rwa [put_of_isEmpty _ hempty]
  | false =>
      refine honce.replace ?_ hempty hlater
      rw [List.filter_append, List.filter_eq_self.mpr]
      · simp
      · intro e' he'
        refine bne_iff_ne.mpr fun heq => hfresh ?_
        rw [← heq]
        exact List.mem_map_of_mem he'

/-- The rules of a plan are added one after another. -/
theorem foldl_put {more : List Planned} (h : s.Lists plan)
    (hlayers : Layered ((plan ++ more).map Planned.outline)) :
    (more.foldl Stylesheet.put s).Lists (plan ++ more) := by
  induction more generalizing s plan with
  | nil => simpa using h
  | cons e more ih =>
      rw [List.append_cons] at hlayers ⊢
      have hprefix : Layered ((plan ++ [e]).map Planned.outline) := by
        exact hlayers.sublist ((List.sublist_append_left _ more).map Planned.outline)
      refine ih (h.put ?_ ?_) hlayers
      · have hdistinct := hprefix.distinct
        rw [List.map_map, List.map_append, List.nodup_append] at hdistinct
        exact fun hmem => hdistinct.2.2 e.selector hmem e.selector (by simp [Planned.outline]) rfl
      · intro e' he'
        obtain he' | rfl := List.mem_append.mp he' |>.imp_right List.mem_singleton.mp
        · have hearlier := hprefix.earlier
          rw [List.pairwise_map, List.pairwise_append] at hearlier
          exact hearlier.2.2 e' he' e (by simp)
        · exact hprefix.irrefl _ (List.mem_map_of_mem (by simp))

/-! ### Rules of a listed plan -/

theorem get?_placed_of_empty (h : s.Lists plan) (hplan : (plan.map Planned.selector).Nodup)
    (he : e ∈ plan) (hempty : e.rule.isEmpty = true) : s.placed.get? e.selector = none := by
  rw [OrdMap.get?_eq_none_iff, h.mem_keys_iff]
  rintro ⟨e', he', hfilled, hselector⟩
  obtain rfl := List.inj_on_of_nodup_map hplan he' he hselector
  simp [hempty] at hfilled

theorem declared_eq (h : s.Lists plan) (hplan : (plan.map Planned.selector).Nodup)
    (he : e ∈ plan) : s.declared e.selector = e.declarations := by
  cases hempty : e.rule.isEmpty with
  | true =>
      rw [declared, h.get?_placed_of_empty hplan he hempty]
      exact (OrdMap.eq_empty_of_isEmpty hempty).symm
  | false =>
      obtain ⟨id, -, hrule, hplace⟩ := h.place e he hempty
      rw [declared, hplace]
      simp only [hrule]

theorem exists_of_get?_placed (h : s.Lists plan) {p : Placed}
    (hget : s.placed.get? selector = some p) :
    ∃ e ∈ plan, e.rule.isEmpty = false ∧ e.selector = selector ∧ p.rule < s.rules.length ∧
      s.rule p.rule = e.rule ∧ p.path = e.parents.filterMap s.find? := by
  obtain ⟨e, he, hfilled, rfl⟩ := h.mem_keys_iff.mp (OrdMap.mem_keys_of_get? hget)
  obtain ⟨id, hid, hrule, hplace⟩ := h.place e he hfilled
  obtain rfl := Option.some.inj (hplace.symm.trans hget)
  exact ⟨e, he, hfilled, rfl, hid, hrule, rfl⟩

theorem mem_values (h : s.Lists plan) {p : Placed} (hp : p ∈ s.placed.values) :
    ∃ e ∈ plan, e.rule.isEmpty = false ∧ p.rule < s.rules.length ∧ s.rule p.rule = e.rule ∧
      s.placed.get? e.selector = some p ∧ p.path = e.parents.filterMap s.find? := by
  obtain ⟨selector, hget⟩ := OrdMap.mem_values_iff.mp hp
  obtain ⟨e, he, hfilled, rfl, hid, hrule, hpath⟩ := h.exists_of_get?_placed hget
  exact ⟨e, he, hfilled, hid, hrule, hget, hpath⟩

/-- The rule that is found for a selector has it. -/
theorem selector_of_find? (h : s.Lists plan) {id : RuleId} (hfind : s.find? selector = some id) :
    (s.rule id).selector = selector := by
  obtain ⟨p, hp, rfl⟩ := Option.map_eq_some_iff.mp hfind
  obtain ⟨e, -, -, rfl, -, hrule, -⟩ := h.exists_of_get?_placed hp
  rw [hrule]

end Lists

/-! ### Sound paths -/

/-- On the path of each rule are distinct rules of the sheet that were appended before it. What such
an ancestor inherits from is on the path too, and the ancestor is not among it; so ancestors have
shorter paths. -/
def SoundPaths (s : Stylesheet) : Prop :=
  ∀ before p after, s.placed.values = before ++ p :: after →
    p.path.Nodup ∧ ∀ id ∈ p.path, ∃ q ∈ before, q.rule = id ∧
      (∀ k ∈ q.path, k ∈ p.path ∧ k ≠ id) ∧ q.path.length < p.path.length

namespace Lists

theorem nodup_path (h : s.Lists plan) {parents : List String} (hparents : parents.Nodup) :
    (parents.filterMap s.find?).Nodup := by
  refine hparents.filterMap fun k k' id hk hk' => ?_
  rw [← h.selector_of_find? hk, ← h.selector_of_find? hk']

variable (hlayers : Layered (plan.map Planned.outline))

include hlayers

theorem nodup_selectors_of_layered : (plan.map Planned.selector).Nodup := by
  have hdistinct := hlayers.distinct
  rwa [List.map_map] at hdistinct

/-- What is on the path of a rule stands for a parent, and inherits less than the rule. -/
theorem ancestor (h : s.Lists plan) (he : e ∈ plan) {id : RuleId}
    (hid : id ∈ e.parents.filterMap s.find?) :
    ∃ e' ∈ plan, e'.rule.isEmpty = false ∧ e'.selector ∈ e.parents ∧
      s.placed.get? e'.selector = some ⟨id, e'.parents.filterMap s.find?⟩ ∧
      (∀ k ∈ e'.parents.filterMap s.find?, k ∈ e.parents.filterMap s.find? ∧ k ≠ id) ∧
      (e'.parents.filterMap s.find?).length < (e.parents.filterMap s.find?).length := by
  obtain ⟨selector, hparent, hfind⟩ := List.mem_filterMap.mp hid
  obtain ⟨⟨id', path⟩, hget, rfl⟩ := Option.map_eq_some_iff.mp hfind
  obtain ⟨e', he', hfilled, rfl, -, -, hpath⟩ := h.exists_of_get?_placed hget
  simp only at hpath
  subst hpath
  have hclosed : e'.parents ⊆ e.parents := hlayers.closed _ (List.mem_map_of_mem he) _
    (List.mem_map_of_mem he') hparent
  have hbelow : ∀ k ∈ e'.parents.filterMap s.find?, k ∈ e.parents.filterMap s.find? ∧ k ≠ id' := by
    intro k hk
    obtain ⟨selector, hselector, hk⟩ := List.mem_filterMap.mp hk
    refine ⟨List.mem_filterMap.mpr ⟨selector, hclosed hselector, hk⟩, ?_⟩
    rintro rfl
    -- a rule has one selector, so the ancestor would be a parent of itself
    obtain rfl := (h.selector_of_find? hk).symm.trans (h.selector_of_find? hfind)
    exact hlayers.irrefl _ (List.mem_map_of_mem he') hselector
  refine ⟨e', he', hfilled, hparent, hget, hbelow, ?_⟩
  have hnodup : (id' :: e'.parents.filterMap s.find?).Nodup := by
    refine List.nodup_cons.mpr ⟨fun hmem => (hbelow id' hmem).2 rfl, ?_⟩
    exact h.nodup_path (hlayers.nodup _ (List.mem_map_of_mem he'))
  have hsub : id' :: e'.parents.filterMap s.find? ⊆ e.parents.filterMap s.find? :=
    List.cons_subset.mpr ⟨hid, fun k hk => (hbelow k hk).1⟩
  exact (hnodup.subperm hsub).length_le

theorem rooted (h : s.Lists plan) : s.Rooted := by
  refine ⟨?_, ?_, ?_⟩
  · intro selector p hget
    obtain ⟨e, -, -, rfl, -, hrule, -⟩ := h.exists_of_get?_placed hget
    rw [hrule]
  · intro p hp
    obtain ⟨e, -, -, hid, -⟩ := h.mem_values hp
    exact hid
  · intro p hp id hid
    obtain ⟨e, he, -, -, -, -, hpath⟩ := h.mem_values hp
    rw [hpath] at hid ⊢
    obtain ⟨e', -, -, -, hget, -, hshort⟩ := h.ancestor hlayers he hid
    exact ⟨_, OrdMap.mem_values_iff.mpr ⟨_, hget⟩, rfl, hshort⟩

/-- A rule that comes later is not on the path. -/
theorem notMem_parents_of_after (h : s.Lists plan) {before after : List Placed} {p q : Placed}
    (hvalues : s.placed.values = before ++ p :: after) (hq : q ∈ after) {e e' : Planned}
    (he : e ∈ plan) (hp : s.placed.get? e.selector = some p)
    (hq' : s.placed.get? e'.selector = some q) : e'.selector ∉ e.parents := by
  have hrooted := h.rooted hlayers
  -- the selectors stand in the sheet as the places do, and in the plan as in the sheet
  have hselectors : ((plan.filter fun e => !e.rule.isEmpty).map Planned.selector) =
      (before ++ p :: after).map fun p => (s.rule p.rule).selector := by
    rw [← h.order, ← hvalues, OrdMap.values, OrdMap.keys, List.map_map]
    refine List.map_congr_left fun entry hentry => ?_
    exact (hrooted.selector _ _ (OrdMap.mem_entries_iff.mp hentry)).symm
  rw [List.map_append, List.map_cons, List.map_eq_append_iff] at hselectors
  obtain ⟨plan₁, plan₂, hsplit, -, htail⟩ := hselectors
  rw [List.map_eq_cons_iff] at htail
  obtain ⟨e₁, plan₃, rfl, heq, hafter⟩ := htail
  have hsub : (plan₁ ++ e₁ :: plan₃).Sublist plan := hsplit ▸ List.filter_sublist
  have hdistinct := nodup_selectors_of_layered hlayers
  rw [hrooted.selector _ _ hp] at heq
  obtain rfl := List.inj_on_of_nodup_map hdistinct (hsub.subset (by simp)) he heq
  have hlater : e'.selector ∈ plan₃.map Planned.selector := by
    rw [hafter, ← hrooted.selector _ _ hq']
    exact List.mem_map_of_mem hq
  obtain ⟨e₂, he₂, heq₂⟩ := List.mem_map.mp hlater
  have hearlier := hlayers.earlier
  rw [List.pairwise_map] at hearlier
  have hpair := hearlier.sublist hsub
  rw [List.pairwise_append, List.pairwise_cons] at hpair
  rw [← heq₂]
  exact hpair.2.1.1 e₂ he₂

theorem soundPaths (h : s.Lists plan) : s.SoundPaths := by
  intro before p after hvalues
  have hp : p ∈ s.placed.values := by simp [hvalues]
  obtain ⟨e, he, -, -, -, hget, hpath⟩ := h.mem_values hp
  rw [hpath]
  refine ⟨h.nodup_path (hlayers.nodup _ (List.mem_map_of_mem he)), fun id hid => ?_⟩
  obtain ⟨e', he', -, hparent, hget', hbelow, hshort⟩ := h.ancestor hlayers he hid
  have hq : (⟨id, e'.parents.filterMap s.find?⟩ : Placed) ∈ s.placed.values :=
    OrdMap.mem_values_iff.mpr ⟨_, hget'⟩
  refine ⟨⟨id, e'.parents.filterMap s.find?⟩, ?_, rfl, hbelow, hshort⟩
  rw [hvalues, List.mem_append, List.mem_cons] at hq
  obtain hbefore | rfl | hafter := hq
  · exact hbefore
  · have hsame : e'.parents.filterMap s.find? = e.parents.filterMap s.find? := hpath
    rw [hsame] at hshort
    exact absurd hshort (Nat.lt_irrefl _)
  · exact absurd hparent (h.notMem_parents_of_after hlayers hvalues hafter he hget hget')

end Lists

/-! ### The minimal form of a listed plan -/

/-- A plan has a rule with declarations at a selector. -/
def IsFilled (plan : List Planned) (selector : String) : Bool :=
  plan.any fun e => !e.rule.isEmpty && e.selector == selector

/-- Every rule of a plan keeps what it keeps below what its parents keep. -/
def Settles (plan : List Planned) (kept : String → Declarations) : Prop :=
  ∀ e ∈ plan, e.rule.settled ((e.parents.filter (IsFilled plan)).map kept) = .ok (kept e.selector)

theorem settled_of_isEmpty {r : Rule} (hempty : r.isEmpty = true) (above : List Declarations) :
    r.settled above = .ok .empty := by
  have hown : r.declarations = .empty := OrdMap.eq_empty_of_isEmpty hempty
  cases above with
  | nil => rw [Rule.settled, hown]
  | cons d ds =>
      rw [Rule.settled, hown]
      rfl

namespace Lists

theorem isFilled_eq (h : s.Lists plan) (selector : String) :
    IsFilled plan selector = (s.find? selector).isSome := by
  rw [Bool.eq_iff_iff, find?, Option.isSome_map, ← OrdMap.contains_eq_isSome, OrdMap.contains_iff,
    h.mem_keys_iff]
  simp [IsFilled]

/-- What parents in the sheet have, taken by number, is what filled parents have. -/
theorem map_path {α : Type} (h : s.Lists plan) {f : RuleId → α} {g : String → α}
    (hfg : ∀ k id, s.find? k = some id → f id = g k) (parents : List String) :
    (parents.filterMap s.find?).map f = (parents.filter (IsFilled plan)).map g := by
  induction parents with
  | nil => rfl
  | cons k parents ih =>
      cases hk : s.find? k with
      | none => simp [hk, h.isFilled_eq, ih]
      | some id => simp [hk, h.isFilled_eq, ih, hfg k id hk]

/-- What is left of a rule is what its selector still declares. -/
theorem declarations_eq_declared (hm : m.IsSettledOf s) {id : RuleId}
    (hfind : s.find? selector = some id) : (m.rule id).declarations = m.declared selector := by
  obtain ⟨p, hp, rfl⟩ := Option.map_eq_some_iff.mp hfind
  rw [declared, hm.placed, OrdMap.get?_filter, hp]
  cases hkept : p.path.isEmpty || !(m.rule p.rule).isEmpty with
  | true => simp [hkept, Option.filter]
  | false =>
      simp only [Bool.or_eq_false_iff, Bool.not_eq_false'] at hkept
      simp only [Option.filter, hkept]
      exact OrdMap.eq_empty_of_isEmpty hkept.2

theorem declared_of_not_find? (hm : m.IsSettledOf s) (hfind : s.find? selector = none) :
    m.declared selector = .empty := by
  rw [find?, Option.map_eq_none_iff] at hfind
  rw [declared, hm.placed, OrdMap.get?_filter, hfind]
  rfl

theorem find?_of_empty (h : s.Lists plan) (hplan : (plan.map Planned.selector).Nodup)
    (he : e ∈ plan) (hempty : e.rule.isEmpty = true) : s.find? e.selector = none := by
  rw [find?, h.get?_placed_of_empty hplan he hempty]
  rfl

variable (hlayers : Layered (plan.map Planned.outline))

include hlayers

/-- The minimal form solves the equation of the plan. -/
theorem settles (h : s.Lists plan) (hm : m.IsSettledOf s) : Settles plan m.declared := by
  intro e he
  cases hempty : e.rule.isEmpty with
  | true =>
      have hnone := h.find?_of_empty (nodup_selectors_of_layered hlayers) he hempty
      rw [settled_of_isEmpty hempty, declared_of_not_find? hm hnone]
  | false =>
      obtain ⟨id, -, hrule, hplace⟩ := h.place e he hempty
      obtain ⟨d, hd, hleft⟩ := hm.settled _ (OrdMap.mem_values_iff.mpr ⟨_, hplace⟩)
      have hfind : s.find? e.selector = some id := by rw [find?, hplace]; rfl
      have hkept : d = m.declared e.selector := by
        rw [← declarations_eq_declared hm hfind, hleft]
      rw [← hkept, ← hd, settledIn, hrule,
        h.map_path fun k id hk => declarations_eq_declared hm hk]

/-- A solution of the equation is what the minimal form declares. -/
theorem exists_minimal_of_settles (h : s.Lists plan) {kept : String → Declarations}
    (hkept : Settles plan kept) :
    ∃ m, s.minimal = .ok m ∧ m.IsSettledOf s ∧
      ∀ e ∈ plan, m.declared e.selector = kept e.selector := by
  -- the same solution, by the numbers of rules
  let keptBy : RuleId → Declarations := fun id => kept (s.rule id).selector
  have hsolution : ∀ p ∈ s.placed.values,
      (s.rule p.rule).settled (p.path.map keptBy) = .ok (keptBy p.rule) := by
    intro p hp
    obtain ⟨e, he, -, -, hrule, -, hpath⟩ := h.mem_values hp
    have habove : ∀ k id, s.find? k = some id → keptBy id = kept k :=
      fun k id hk => by rw [← h.selector_of_find? hk]
    rw [hpath, h.map_path habove]
    simp only [keptBy, hrule]
    exact hkept e he
  obtain ⟨m, hm, hsettled, hrules⟩ := (h.rooted hlayers).exists_minimal_of_solution hsolution
  refine ⟨m, hm, hsettled, fun e he => ?_⟩
  cases hempty : e.rule.isEmpty with
  | true =>
      have hnone := h.find?_of_empty (nodup_selectors_of_layered hlayers) he hempty
      have hown := hkept e he
      rw [settled_of_isEmpty hempty] at hown
      rw [declared_of_not_find? hsettled hnone]
      exact Except.ok.inj hown
  | false =>
      obtain ⟨id, -, hrule, hplace⟩ := h.place e he hempty
      have hfind : s.find? e.selector = some id := by rw [find?, hplace]; rfl
      rw [← declarations_eq_declared hsettled hfind,
        hrules _ (OrdMap.mem_values_iff.mpr ⟨_, hplace⟩)]
      simp only [keptBy, hrule]

/-- A rule is left just if it keeps something. -/
theorem contains_minimal (h : s.Lists plan) (hm : m.IsSettledOf s) (he : e ∈ plan) :
    (!e.rule.isEmpty && m.placed.contains e.selector) = !(m.declared e.selector).isEmpty := by
  cases hempty : e.rule.isEmpty with
  | true =>
      have hnone := h.find?_of_empty (nodup_selectors_of_layered hlayers) he hempty
      rw [declared_of_not_find? hm hnone]
      rfl
  | false =>
      obtain ⟨id, -, hsame, hplace⟩ := h.place e he hempty
      have hfind : s.find? e.selector = some id := by rw [find?, hplace]; rfl
      rw [OrdMap.contains_eq_isSome, hm.placed, OrdMap.get?_filter, hplace,
        ← declarations_eq_declared hm hfind]
      cases hpath : e.parents.filterMap s.find? with
      | cons first rest =>
          cases hgone : (m.rule id).declarations.isEmpty <;>
            simp [Option.filter, Rule.isEmpty, hgone]
      | nil =>
          -- a rule that inherits nothing keeps all it has, and it has something
          obtain ⟨d, hd, hrule⟩ := hm.settled _ (OrdMap.mem_values_iff.mpr ⟨_, hplace⟩)
          rw [settledIn, hpath] at hd
          obtain rfl : (s.rule id).declarations = d := Except.ok.inj hd
          simp only at hrule
          have hown : e.rule.declarations.isEmpty = false := hempty
          rw [hrule, hsame]
          simp [Option.filter, hown]

omit hlayers in
/-- A rule that is left has what it keeps, and is otherwise what it was. -/
theorem rule_minimal (h : s.Lists plan) (hm : m.IsSettledOf s) (he : e ∈ plan)
    (hfilled : e.rule.isEmpty = false) {p : Placed} (hp : m.placed.get? e.selector = some p) :
    m.rule p.rule = { e.rule with declarations := m.declared e.selector } := by
  obtain ⟨id, -, hsame, hplace⟩ := h.place e he hfilled
  have hfind : s.find? e.selector = some id := by rw [find?, hplace]; rfl
  have hp' : s.placed.get? e.selector = some p := by
    rw [hm.placed, OrdMap.get?_filter, Option.filter_eq_some_iff] at hp
    exact hp.1
  obtain rfl := Option.some.inj (hplace.symm.trans hp')
  obtain ⟨d, -, hleft⟩ := hm.settled _ (OrdMap.mem_values_iff.mpr ⟨_, hplace⟩)
  simp only at hleft
  have hkept : d = m.declared e.selector := by
    rw [← declarations_eq_declared hm hfind, hleft]
  rw [hleft, hsame, hkept]

/-- The selectors left are those of the rules that keep something, in order. -/
theorem keys_minimal (h : s.Lists plan) (hm : m.IsSettledOf s) : m.placed.keys =
    (plan.filter fun e => !(m.declared e.selector).isEmpty).map Planned.selector := by
  have hfilter := OrdMap.keys_filter
    (fun _ p => p.path.isEmpty || !(m.rule p.rule).isEmpty) s.placed
  rw [← hm.placed, h.order] at hfilter
  rw [hfilter, List.filter_map, List.filter_filter]
  congr 1
  refine List.filter_congr fun e he => ?_
  rw [← h.contains_minimal hlayers hm he, Bool.and_comm]
  rfl

/-- The minimal form has the rules of the plan with what they keep, in order, but for the empty
ones. -/
theorem listing_minimal (h : s.Lists plan) (hm : m.IsSettledOf s) :
    m.listing = (plan.map fun e => { e.rule with declarations := m.declared e.selector }).filter
      fun r => !r.isEmpty := by
  -- the rule at a selector
  let ruleAt : String → Rule := fun k => ((m.find? k).map m.rule).getD { selector := "" }
  have hlisting : m.listing = m.placed.keys.map ruleAt := by
    have hentries : m.placed.entries.map (fun entry => m.rule entry.2.rule) =
        m.placed.entries.map fun entry => ruleAt entry.1 := by
      refine List.map_congr_left fun entry hentry => ?_
      simp [ruleAt, find?, OrdMap.mem_entries_iff.mp hentry]
    rw [listing, Stylesheet.order, OrdMap.values, OrdMap.keys, List.map_map, List.map_map,
      List.map_map]
    exact hentries
  have hfilled : plan.filter ((fun r : Rule => !r.isEmpty) ∘ fun e =>
      { e.rule with declarations := m.declared e.selector }) =
      plan.filter fun e => !(m.declared e.selector).isEmpty := rfl
  rw [hlisting, h.keys_minimal hlayers hm, List.map_map, List.filter_map, hfilled]
  refine List.map_congr_left fun e he => ?_
  obtain ⟨hmem, hkeeps⟩ := List.mem_filter.mp he
  rw [← h.contains_minimal hlayers hm hmem, Bool.and_eq_true, Bool.not_eq_true'] at hkeeps
  obtain ⟨p, hp⟩ := OrdMap.mem_keys_iff.mp (OrdMap.contains_iff.mp hkeeps.2)
  have hfind : m.find? e.selector = some p.rule := by rw [find?, hp]; rfl
  have hrule := h.rule_minimal hm hmem hkeeps.1 hp
  simp only [Function.comp_apply, ruleAt, hfind, Option.map_some, Option.getD_some, hrule]

end Lists

end Stylesheet

end DesignTokens
