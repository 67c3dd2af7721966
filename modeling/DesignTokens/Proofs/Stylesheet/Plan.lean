import DesignTokens.Proofs.Stylesheet.Lists
import DesignTokens.Proofs.Stylesheet.Minimal

/-!
Stylesheets as planned. A sheet that follows a plan of texts lists it, and all parents in the plan
have rules there. Nothing else counts about such a sheet: not the numbers of rules, nor rules that
were replaced. What its minimal form declares is an equation on the plan, and so is what a set of
rules gives an element that all of them apply to.
-/

namespace DesignTokens

namespace Stylesheet

variable {s m : Stylesheet} {selector : String}

/-! ### Declarations by selector -/

/-- What the rules of some selectors declare together on an element, in the order of the sheet. -/
def cascade (s : Stylesheet) (selectors : List String) : Declarations :=
  s.inherited (s.order.filter fun id => selectors.contains (s.rule id).selector)

theorem cascade_eq (h : ∀ selector p, s.placed.get? selector = some p →
    (s.rule p.rule).selector = selector) (selectors : List String) :
    s.cascade selectors =
      .overlay ((s.placed.keys.filter selectors.contains).map s.declared) := by
  have hentry : ∀ e ∈ s.placed.entries, (s.rule e.2.rule).selector = e.1 :=
    fun e he => h e.1 e.2 (OrdMap.mem_entries_iff.mp he)
  rw [cascade, inherited_eq_overlay]
  congr 1
  simp only [order, OrdMap.values, OrdMap.keys, List.map_map, List.filter_map]
  have hfilter : ∀ e ∈ s.placed.entries,
      ((fun id => selectors.contains (s.rule id).selector) ∘ Placed.rule ∘ Prod.snd) e =
        (selectors.contains ∘ Prod.fst) e := by
    intro e he
    simp only [Function.comp_apply, hentry e he]
  rw [List.filter_congr hfilter]
  refine List.map_congr_left fun e he => ?_
  have hget := OrdMap.mem_entries_iff.mp (List.mem_of_mem_filter he)
  simp [declared, hget]

/-- What a minimal form declares for a selector is what its rule there keeps; a rule taken out keeps
nothing. -/
theorem IsMinimalOf.declared_eq (h : m.IsMinimalOf s) (selector : String) :
    m.declared selector =
      ((s.find? selector).map fun id => (m.rule id).declarations).getD .empty := by
  rw [declared, find?, h.placed, OrdMap.get?_filter]
  cases hget : s.placed.get? selector with
  | none => rfl
  | some p =>
      have hrule := h.rule p (OrdMap.mem_values_iff.mpr ⟨_, hget⟩)
      cases hkept : p.path.isEmpty || !(s.reducedIn m p).isEmpty with
      | true => simp [hkept, Option.filter]
      | false =>
          simp only [Bool.or_eq_false_iff, Bool.not_eq_false'] at hkept
          have hempty : s.reducedIn m p = .empty := OrdMap.eq_empty_of_isEmpty hkept.2
          have hdropped : (some p).filter (fun p => p.path.isEmpty || !(s.reducedIn m p).isEmpty) =
              none := by
            simp only [Option.filter_some, hkept.1, hkept.2]
            rfl
          simp only [hdropped, Option.map_some, Option.getD_some, hrule, hempty]

end Stylesheet

/-! ### Plans -/

/-- Rules of different selectors, each below rules that inherit less. What is below others declares
texts. -/
structure IsPlan (plan : List Planned) : Prop where
  distinct : (plan.map Planned.selector).Nodup
  parents : ∀ e ∈ plan, ∀ selector ∈ e.parents,
    ∃ e' ∈ plan, e'.selector = selector ∧ (e'.parents ++ [selector]).Sublist e.parents
  textual : ∀ e ∈ plan, e.parents ≠ [] → e.declarations.Textual

namespace Stylesheet

variable {s m : Stylesheet} {plan : List Planned} {e : Planned}

/-- A sheet that follows a plan. -/
structure Follows (s : Stylesheet) (plan : List Planned) : Prop where
  closed : ∀ e ∈ plan, ∀ selector ∈ e.parents, selector ∈ plan.map Planned.selector
  order : s.placed.keys = (plan.filter fun e => !e.rule.isEmpty).map Planned.selector
  place : ∀ e ∈ plan, e.rule.isEmpty = false → ∃ id, id < s.rules.length ∧ s.rule id = e.rule ∧
    s.placed.get? e.selector = some ⟨id, e.parents.filterMap s.find?⟩

namespace Follows

theorem start : Follows {} [] := ⟨by simp, rfl, by simp⟩

theorem lists (h : s.Follows plan) : s.Lists plan := ⟨h.order, h.place⟩

/-- With a new rule below planned ones all parents are still in the plan, and the new rule is none
of them. -/
theorem closed_append (h : s.Follows plan) (hfresh : e.selector ∉ plan.map Planned.selector)
    (hparents : ∀ selector ∈ e.parents, selector ∈ plan.map Planned.selector) :
    (∀ e' ∈ plan ++ [e], ∀ selector ∈ e'.parents,
      selector ∈ (plan ++ [e]).map Planned.selector) ∧
      ∀ e' ∈ plan ++ [e], e.selector ∉ e'.parents := by
  have hclosed : ∀ e' ∈ plan ++ [e], ∀ selector ∈ e'.parents,
      selector ∈ plan.map Planned.selector := by
    intro e' he'
    obtain he' | rfl := List.mem_append.mp he' |>.imp_right List.mem_singleton.mp
    · exact h.closed e' he'
    · exact hparents
  refine ⟨fun e' he' selector hselector => ?_, fun e' he' hmem => hfresh (hclosed e' he' _ hmem)⟩
  rw [List.map_append]
  exact List.mem_append_left _ (hclosed e' he' selector hselector)

/-- The next rule of a plan is added. -/
theorem add (h : s.Follows plan) (hfresh : e.selector ∉ plan.map Planned.selector)
    (hparents : ∀ selector ∈ e.parents, selector ∈ plan.map Planned.selector) :
    (s.add e.rule (e.parents.map s.find?)).1.Follows (plan ++ [e]) := by
  obtain ⟨hclosed, hlater⟩ := h.closed_append hfresh hparents
  obtain ⟨horder, hplace⟩ := h.lists.put hfresh hlater
  exact ⟨hclosed, horder, hplace⟩

/-- A rule that is added twice stands in the sheet once. -/
theorem add_twice (h : s.Follows plan) (hfresh : e.selector ∉ plan.map Planned.selector)
    (hparents : ∀ selector ∈ e.parents, selector ∈ plan.map Planned.selector) :
    ((s.add e.rule (e.parents.map s.find?)).1.add e.rule
      (e.parents.map (s.add e.rule (e.parents.map s.find?)).1.find?)).1.Follows (plan ++ [e]) := by
  obtain ⟨hclosed, hlater⟩ := h.closed_append hfresh hparents
  obtain ⟨horder, hplace⟩ := h.lists.put_twice hfresh hlater
  exact ⟨hclosed, horder, hplace⟩

/-- A planned sheet is grounded: what is on the path of a rule inherits less than the rule. -/
theorem grounded (h : s.Follows plan) (hplan : IsPlan plan) : s.Grounded := by
  refine ⟨?_, ?_, ?_, ?_⟩
  · intro selector p hget
    obtain ⟨e, -, -, -, hrule, hget', -⟩ := h.lists.mem_values (OrdMap.mem_values_iff.mpr ⟨_, hget⟩)
    obtain ⟨e', he', hfilled', rfl⟩ := h.lists.mem_keys_iff.mp (OrdMap.mem_keys_of_get? hget)
    obtain ⟨id, -, hrule', hplace⟩ := h.place e' he' hfilled'
    obtain rfl := Option.some.inj (hplace.symm.trans hget)
    rw [hrule']
  · intro p hp
    obtain ⟨e, -, -, hid, -⟩ := h.lists.mem_values hp
    exact hid
  · intro p hp id hid
    obtain ⟨e, he, -, -, -, -, hpath⟩ := h.lists.mem_values hp
    rw [hpath, List.mem_filterMap] at hid
    obtain ⟨selector, hselector, hfind⟩ := hid
    obtain ⟨e', he', rfl, hsub⟩ := hplan.parents e he selector hselector
    obtain ⟨q, hq, rfl⟩ := Option.map_eq_some_iff.mp hfind
    have hmem : q ∈ s.placed.values := OrdMap.mem_values_iff.mpr ⟨_, hq⟩
    refine ⟨q, hmem, rfl, ?_⟩
    -- the path of the parent is that of the rule without the parent itself
    have hfilled' : e'.rule.isEmpty = false := by
      cases hempty : e'.rule.isEmpty with
      | true => rw [h.lists.get?_placed_of_empty hplan.distinct he' hempty] at hq; cases hq
      | false => rfl
    obtain ⟨id', -, -, hplace⟩ := h.place e' he' hfilled'
    obtain rfl := Option.some.inj (hplace.symm.trans hq)
    have hlength := (hsub.filterMap s.find?).length_le
    rw [List.filterMap_append, ← hpath, List.length_append] at hlength
    simp only [List.filterMap_cons, hfind, List.filterMap_nil, List.length_singleton] at hlength
    exact hlength
  · intro p hp hbelow
    obtain ⟨e, he, -, -, hrule, -, hpath⟩ := h.lists.mem_values hp
    rw [hrule]
    refine hplan.textual e he fun hnil => hbelow ?_
    rw [hpath, hnil, List.filterMap_nil]

/-! ### The minimal form of a planned sheet -/

/-- The minimal form keeps a rule that inherits nothing. -/
theorem declared_minimal_top (h : s.Follows plan) (hplan : IsPlan plan) (hm : m.IsMinimalOf s)
    (he : e ∈ plan) (htop : e.parents = []) : m.declared e.selector = e.declarations := by
  cases hempty : e.rule.isEmpty with
  | true =>
      rw [hm.declared_eq, find?, h.lists.get?_placed_of_empty hplan.distinct he hempty]
      exact (OrdMap.eq_empty_of_isEmpty hempty).symm
  | false =>
      obtain ⟨id, -, hrule, hplace⟩ := h.place e he hempty
      rw [hm.declared_eq, find?, hplace]
      simp only [Option.map_some, Option.getD_some]
      rw [hm.rule _ (OrdMap.mem_values_iff.mpr ⟨_, hplace⟩)]
      simp [reducedIn, hrule, htop]

/-- It keeps of any other rule what is neither given by its parents there nor refers to something
the rule changes. -/
theorem declared_minimal (h : s.Follows plan) (hplan : IsPlan plan) (hm : m.IsMinimalOf s)
    (he : e ∈ plan) (hbelow : e.parents ≠ []) :
    m.declared e.selector = e.declarations.filter fun property v =>
      Declarations.keeps e.declarations (.overlay (e.parents.map m.declared))
        (comparesByValue e.rule) property v := by
  cases hempty : e.rule.isEmpty with
  | true =>
      have hdeclared : m.declared e.selector = .empty := by
        rw [hm.declared_eq, find?, h.lists.get?_placed_of_empty hplan.distinct he hempty]
        rfl
      have hown : e.declarations = .empty := OrdMap.eq_empty_of_isEmpty hempty
      rw [hdeclared, hown]
      rfl
  | false =>
      obtain ⟨id, -, hrule, hplace⟩ := h.place e he hempty
      have hparents : Declarations.overlay (e.parents.map m.declared) =
          m.inherited (e.parents.filterMap s.find?) := by
        rw [inherited_eq_overlay, Declarations.overlay_filterMap]
        congr 1
        exact List.map_congr_left fun selector _ => hm.declared_eq selector
      rw [hm.declared_eq, find?, hplace, hparents]
      simp only [Option.map_some, Option.getD_some]
      rw [hm.rule _ (OrdMap.mem_values_iff.mpr ⟨_, hplace⟩)]
      simp only [reducedIn, hrule]
      split
      · next hnil =>
          -- where no parent is in the sheet nothing is inherited, so everything is kept
          rw [hnil]
          exact (Declarations.filter_keeps_empty (hplan.textual e he hbelow) _).symm
      · rfl

/-- What selected rules of the minimal form declare together, told by the plan. -/
theorem get?_cascade_of_minimal (h : s.Follows plan) (hplan : IsPlan plan) (hm : m.IsMinimalOf s)
    (selectors : List String) (property : String) :
    (m.cascade selectors).get? property =
      (Declarations.overlay (((plan.map Planned.selector).filter selectors.contains).map
        m.declared)).get? property := by
  have hground := h.grounded hplan
  have hsub : ∀ selector p, m.placed.get? selector = some p → s.placed.get? selector = some p := by
    intro selector p hget
    rw [hm.placed, OrdMap.get?_filter, Option.filter_eq_some_iff] at hget
    exact hget.1
  have hselector : ∀ selector p, m.placed.get? selector = some p →
      (m.rule p.rule).selector = selector := by
    intro selector p hget
    have hget' := hsub selector p hget
    rw [hm.rule p (OrdMap.mem_values_iff.mpr ⟨_, hget'⟩)]
    exact hground.selector selector p hget'
  -- what is left in the minimal form has the order of the plan
  have hkeys : m.placed.keys = (plan.map Planned.selector).filter m.placed.contains := by
    have hfilter := OrdMap.keys_filter (fun _ p => p.path.isEmpty || !(s.reducedIn m p).isEmpty)
      s.placed
    rw [← hm.placed, h.order] at hfilter
    rw [hfilter, List.filter_map, List.filter_map, List.filter_filter]
    congr 1
    refine List.filter_congr fun e he => ?_
    rw [Bool.and_eq_left_iff_imp]
    intro hcontains
    cases hempty : e.rule.isEmpty with
    | false => rfl
    | true =>
        obtain ⟨p, hp⟩ := OrdMap.mem_keys_iff.mp (OrdMap.contains_iff.mp hcontains)
        have hget := hsub _ p hp
        rw [h.lists.get?_placed_of_empty hplan.distinct he hempty] at hget
        cases hget
  rw [cascade_eq hselector, hkeys, List.filter_comm]
  refine Declarations.get?_overlay_filter _ _ fun selector _ hnot => ?_
  have hnone : m.placed.get? selector = none := by
    rw [OrdMap.get?_eq_none_iff, ← OrdMap.contains_iff]
    simpa using hnot
  rw [declared, hnone]
  rfl

end Follows

/-! ### Listed texts -/

namespace Lists

variable (hlayers : Layered (plan.map Planned.outline))
  (htextual : ∀ e ∈ plan, e.declarations.Textual)

include hlayers htextual

/-- A sheet that lists texts has a minimal form. -/
theorem exists_minimal_of_textual (h : s.Lists plan) :
    ∃ m, s.minimal = .ok m ∧ m.IsSettledOf s := by
  obtain ⟨hselector, hknown, hpath⟩ := h.rooted hlayers
  have hgrounded : s.Grounded := by
    refine ⟨hselector, hknown, hpath, fun p hp _ => ?_⟩
    obtain ⟨e, he, -, -, hrule, -⟩ := h.mem_values hp
    rw [hrule]
    exact htextual e he
  obtain ⟨m, hm, -⟩ := hgrounded.exists_minimal
  exact ⟨m, hm, ((h.rooted hlayers).settling_of_minimal hm).isSettledOf⟩

/-- Every rule keeps what is neither given by its parents there nor refers to something the rule
changes. -/
theorem declared_minimal (h : s.Lists plan) (hm : m.IsSettledOf s) (he : e ∈ plan) :
    m.declared e.selector = e.declarations.filter fun property v =>
      Declarations.keeps e.declarations (.overlay (e.parents.map m.declared))
        (comparesByValue e.rule) property v := by
  have hown := htextual e he
  -- parents without a rule give nothing
  have habove : Declarations.overlay ((e.parents.filter (IsFilled plan)).map m.declared) =
      .overlay (e.parents.map m.declared) := by
    have hpath := h.map_path (fun k id hk => declarations_eq_declared hm hk) e.parents
    rw [← hpath, Declarations.overlay_filterMap]
    congr 1
    refine List.map_congr_left fun k _ => ?_
    cases hk : s.find? k with
    | none => exact (declared_of_not_find? hm hk).symm
    | some id => exact declarations_eq_declared hm hk
  have hsettles := h.settles hlayers hm e he
  rw [← habove]
  cases hfilled : (e.parents.filter (IsFilled plan)).map m.declared with
  | cons d ds =>
      rw [hfilled, Rule.settled, Declarations.reduced_eq hown] at hsettles
      exact (Except.ok.inj hsettles).symm
  | nil =>
      rw [hfilled, Rule.settled] at hsettles
      rw [← Except.ok.inj hsettles]
      exact (Declarations.filter_keeps_empty hown _).symm

end Lists

end Stylesheet

end DesignTokens
