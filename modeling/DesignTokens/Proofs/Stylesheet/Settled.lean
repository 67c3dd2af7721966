import DesignTokens.Proofs.Stylesheet.Basic
import Mathlib.Data.List.Nodup

/-!
Reducing a sheet, whatever it declares. Ancestors have shorter paths, so they are final when a rule
is compared with them. Therefore a run either fails or ends with every rule settled: it keeps what
it keeps below the final declarations of its path. That is an equation for all rules at once, which
has at most one solution; a run succeeds exactly if there is one.
-/

namespace DesignTokens

/-- What a rule keeps of its declarations below others, the farthest first; below none it keeps
all. -/
def Rule.settled (r : Rule) : List Declarations → Except Fault Declarations
  | [] => .ok r.declarations
  | d :: ds => r.declarations.reduced (.overlay (d :: ds)) (Stylesheet.comparesByValue r)

namespace Stylesheet

variable {s m : Stylesheet}

/-- Every rule in the sheet stands at its selector and below rules of the sheet with shorter
paths. -/
structure Rooted (s : Stylesheet) : Prop where
  selector : ∀ selector p, s.placed.get? selector = some p → (s.rule p.rule).selector = selector
  known : ∀ p ∈ s.placed.values, p.rule < s.rules.length
  path : ∀ p ∈ s.placed.values, ∀ id ∈ p.path,
    ∃ q ∈ s.placed.values, q.rule = id ∧ q.path.length < p.path.length

namespace Rooted

theorem nodup_rules (h : s.Rooted) : (s.placed.values.map Placed.rule).Nodup := by
  have hkeys : (s.placed.values.map Placed.rule).map (fun id => (s.rule id).selector) =
      s.placed.keys := by
    rw [List.map_map, OrdMap.values, List.map_map, OrdMap.keys]
    refine List.map_congr_left fun e he => ?_
    exact h.selector e.1 e.2 (OrdMap.mem_entries_iff.mp he)
  refine List.Nodup.of_map (fun id => (s.rule id).selector) ?_
  rw [hkeys]
  exact s.placed.nodup

theorem eq_of_rule_eq (h : s.Rooted) {p q : Placed} (hp : p ∈ s.placed.values)
    (hq : q ∈ s.placed.values) (heq : p.rule = q.rule) : p = q :=
  List.inj_on_of_nodup_map h.nodup_rules hp hq heq

theorem get?_selector (h : s.Rooted) {p : Placed} (hp : p ∈ s.placed.values) :
    s.placed.get? (s.rule p.rule).selector = some p := by
  obtain ⟨key, hkey⟩ := OrdMap.mem_values_iff.mp hp
  rwa [h.selector key p hkey]

end Rooted

/-! ### One rule -/

/-- What a rule keeps below the declarations that a sheet has for its path. -/
def settledIn (s b : Stylesheet) (p : Placed) : Except Fault Declarations :=
  (s.rule p.rule).settled (p.path.map fun id => (b.rule id).declarations)

/-- The sheet after a rule was left with some of its declarations; a rule that inherits nothing is
not touched. -/
def settle (b : Stylesheet) (p : Placed) (kept : Declarations) : Stylesheet :=
  if p.path = [] then b
  else
    let changed := b.setRule p.rule { b.rule p.rule with declarations := kept }
    if kept.isEmpty then changed.remove p.rule else changed

/-- A sheet in which some rules are settled already, and taken out if they are empty. What these
rules inherit from is settled as well. -/
structure Settling (s : Stylesheet) (done : List Placed) (b : Stylesheet) : Prop where
  length : b.rules.length = s.rules.length
  rule : ∀ id, (∀ q ∈ done, q.rule ≠ id) → b.rule id = s.rule id
  closed : ∀ q ∈ done, ∀ id ∈ q.path, ∃ q' ∈ done, q'.rule = id
  settled : ∀ q ∈ done, ∃ d, s.settledIn b q = .ok d ∧
    b.rule q.rule = { s.rule q.rule with declarations := d }
  placed : b.placed = s.placed.filter fun _ q =>
    !(decide (q ∈ done) && !q.path.isEmpty && (b.rule q.rule).isEmpty)

namespace Settling

variable {done : List Placed} {b c : Stylesheet} {p : Placed}

theorem start (s : Stylesheet) : Settling s [] s := by
  refine ⟨rfl, fun _ _ => rfl, by simp, by simp, ?_⟩
  simp [OrdMap.filter]

theorem get?_placed (h : Settling s done b) (hp : p ∉ done) {selector : String}
    (hget : s.placed.get? selector = some p) : b.placed.get? selector = some p := by
  rw [h.placed, OrdMap.get?_filter, hget]
  simp [hp, Option.filter]

theorem place?_eq (h : Settling s done b) (hs : s.Rooted) (hp : p ∈ s.placed.values)
    (hnew : ∀ q ∈ done, q.rule ≠ p.rule) : b.place? p.rule = some p := by
  have hget : b.placed.get? (s.rule p.rule).selector = some p :=
    h.get?_placed (fun hmem => hnew p hmem rfl) (hs.get?_selector hp)
  simp [place?, h.rule p.rule hnew, hget, Option.filter]

/-- Reducing one more rule is settling it. -/
theorem reduceRule_eq_ok (h : Settling s done b) (hs : s.Rooted) (hp : p ∈ s.placed.values)
    (hnew : ∀ q ∈ done, q.rule ≠ p.rule) :
    b.reduceRule p.rule = .ok c ↔ ∃ d, s.settledIn b p = .ok d ∧ c = b.settle p d := by
  have hrule : b.rule p.rule = s.rule p.rule := h.rule p.rule hnew
  have hpath : b.path p.rule = .ok p.path := by
    simp [path, h.place?_eq hs hp hnew]
  rw [reduceRule, hpath, settledIn]
  simp only [settle, hrule]
  cases hcase : p.path with
  | nil => simp [Rule.settled, bind, Except.bind, pure, Except.pure, eq_comm]
  | cons first rest =>
      have hinherited : Declarations.overlay ((b.rule first).declarations ::
          rest.map fun id => (b.rule id).declarations) = b.inherited (first :: rest) := by
        rw [inherited_eq_overlay, List.map_cons]
      rw [List.map_cons, Rule.settled, hinherited]
      simp only [Outcome.bind_eq_ok, Except.ok.injEq, exists_eq_left', Outcome.pure_eq_ok,
        reduceCtorEq, if_false]
      exact exists_congr fun d => and_congr_right fun _ => eq_comm

/-- Settling changes that rule alone. -/
theorem rule_settle (h : Settling s done b) (hs : s.Rooted) (hp : p ∈ s.placed.values)
    (hnew : ∀ q ∈ done, q.rule ≠ p.rule) {d : Declarations} (hd : s.settledIn b p = .ok d)
    (k : RuleId) : (b.settle p d).rule k =
      if k = p.rule then { s.rule p.rule with declarations := d } else b.rule k := by
  have hrule : b.rule p.rule = s.rule p.rule := h.rule p.rule hnew
  rw [settle, hrule]
  by_cases hpath : p.path = []
  · rw [settledIn, hpath] at hd
    obtain rfl : (s.rule p.rule).declarations = d := Except.ok.inj hd
    rw [if_pos hpath]
    split
    · next hk => rw [hk, hrule]
    · rfl
  · have hset := b.rule_setRule { s.rule p.rule with declarations := d }
      (h.length ▸ hs.known p hp : p.rule < b.rules.length) k
    rw [if_neg hpath]
    simp only
    split
    · rw [rule_remove, hset]
    · exact hset

theorem length_settle (b : Stylesheet) (p : Placed) (d : Declarations) :
    (b.settle p d).rules.length = b.rules.length := by
  unfold settle
  split
  · rfl
  · simp only
    split
    · rw [rules_remove, length_rules_setRule]
    · rw [length_rules_setRule]

theorem placed_settle (h : Settling s done b) (hs : s.Rooted) (hp : p ∈ s.placed.values)
    (hnew : ∀ q ∈ done, q.rule ≠ p.rule) (d : Declarations) :
    (b.settle p d).placed = if !p.path.isEmpty && d.isEmpty then
      b.placed.erase (s.rule p.rule).selector else b.placed := by
  have hrule : b.rule p.rule = s.rule p.rule := h.rule p.rule hnew
  have hknown : p.rule < b.rules.length := h.length ▸ hs.known p hp
  have hplace := h.place?_eq hs hp hnew
  rw [settle, hrule]
  by_cases hpath : p.path = []
  · simp [hpath]
  · have hget : b.placed.get? (s.rule p.rule).selector = some p :=
      h.get?_placed (fun hmem => hnew p hmem rfl) (hs.get?_selector hp)
    have hpresent : ((b.setRule p.rule { s.rule p.rule with declarations := d }).place?
        p.rule).isSome := by
      simp [place?, b.rule_setRule _ hknown, hget, Option.filter]
    rw [if_neg hpath]
    cases hempty : d.isEmpty with
    | true => simp [remove, hpresent, b.rule_setRule _ hknown, hpath]
    | false => simp

theorem rule_settle_of_ne (h : Settling s done b) (hs : s.Rooted) (hp : p ∈ s.placed.values)
    (hnew : ∀ q ∈ done, q.rule ≠ p.rule) {d : Declarations} (hd : s.settledIn b p = .ok d)
    {k : RuleId} (hk : k ≠ p.rule) : (b.settle p d).rule k = b.rule k := by
  rw [h.rule_settle hs hp hnew hd, if_neg hk]

/-- With one more rule settled the sheet is what it was at first without the rules that are settled
and empty. -/
theorem placed_step (h : Settling s done b) (hs : s.Rooted) (hp : p ∈ s.placed.values)
    (hnew : ∀ q ∈ done, q.rule ≠ p.rule) {d : Declarations} (hd : s.settledIn b p = .ok d) :
    (b.settle p d).placed = s.placed.filter fun _ q =>
      !(decide (q ∈ done ++ [p]) && !q.path.isEmpty && ((b.settle p d).rule q.rule).isEmpty) := by
  -- an entry of the sheet is that of the rule's selector just if it is the rule's place
  have hentry : ∀ e ∈ s.placed.entries, e.1 = (s.rule p.rule).selector ↔ e.2 = p := by
    intro e he
    have hget := OrdMap.mem_entries_iff.mp he
    constructor
    · intro hkey
      rw [hkey, hs.get?_selector hp] at hget
      exact (Option.some.inj hget).symm
    · rintro rfl
      exact (hs.selector e.1 e.2 hget).symm
  have hkeep : ∀ q ∈ done, ((b.settle p d).rule q.rule).isEmpty = (b.rule q.rule).isEmpty :=
    fun q hq => by rw [h.rule_settle_of_ne hs hp hnew hd (hnew q hq)]
  have hfresh : p ∉ done := fun hmem => hnew p hmem rfl
  have hempty : ((b.settle p d).rule p.rule).isEmpty = d.isEmpty := by
    rw [h.rule_settle hs hp hnew hd, if_pos rfl]
    rfl
  rw [h.placed_settle hs hp hnew, h.placed, OrdMap.ext_iff]
  split
  · next hcond =>
      simp only [OrdMap.erase, OrdMap.filter, List.filter_filter]
      refine List.filter_congr fun e he => ?_
      by_cases hep : e.2 = p
      · simp [(hentry e he).mpr hep, hep, hempty, hcond]
      · have hkey : e.1 ≠ (s.rule p.rule).selector := fun hk => hep ((hentry e he).mp hk)
        by_cases hed : e.2 ∈ done
        · simp [hkey, hep, hed, hkeep e.2 hed]
        · simp [hkey, hep, hed]
  · next hcond =>
      refine List.filter_congr fun e he => ?_
      by_cases hep : e.2 = p
      · simp [hep, hempty, hcond, hfresh]
      · by_cases hed : e.2 ∈ done
        · simp [hep, hed, hkeep e.2 hed]
        · simp [hep, hed]

/-- Reducing one more rule, one whose path is settled. -/
theorem step (h : Settling s done b) (hs : s.Rooted) (hp : p ∈ s.placed.values)
    (hnew : ∀ q ∈ done, q.rule ≠ p.rule) (hpath : ∀ id ∈ p.path, ∃ q ∈ done, q.rule = id)
    (hc : b.reduceRule p.rule = .ok c) : Settling s (done ++ [p]) c := by
  obtain ⟨d, hd, rfl⟩ := (h.reduceRule_eq_ok hs hp hnew).mp hc
  have hother := fun {k : RuleId} => h.rule_settle_of_ne hs hp hnew hd (k := k)
  -- the rule is on no path of those settled before, nor on its own
  have hsame : ∀ q : Placed, (∀ id ∈ q.path, ∃ q' ∈ done, q'.rule = id) →
      s.settledIn (b.settle p d) q = s.settledIn b q := by
    intro q hq
    rw [settledIn, settledIn]
    congr 1
    refine List.map_congr_left fun id hid => ?_
    obtain ⟨q', hq', rfl⟩ := hq id hid
    rw [hother (hnew q' hq')]
  refine ⟨(length_settle b p d).trans h.length, ?_, ?_, ?_, h.placed_step hs hp hnew hd⟩
  · intro id hid
    have hne : p.rule ≠ id := hid p (by simp)
    rw [hother (Ne.symm hne), h.rule id fun q hq => hid q (by simp [hq])]
  · intro q hq id hid
    obtain ⟨q', hq', heq⟩ : ∃ q' ∈ done, q'.rule = id := by
      obtain hq | rfl := List.mem_append.mp hq |>.imp_right List.mem_singleton.mp
      · exact h.closed q hq id hid
      · exact hpath id hid
    exact ⟨q', List.mem_append_left _ hq', heq⟩
  · intro q hq
    obtain hq | rfl := List.mem_append.mp hq |>.imp_right List.mem_singleton.mp
    · obtain ⟨d', hd', hq'⟩ := h.settled q hq
      exact ⟨d', by rw [hsame q (h.closed q hq), hd'], by rw [hother (hnew q hq), hq']⟩
    · exact ⟨d, by rw [hsame q hpath, hd], by rw [h.rule_settle hs hp hnew hd, if_pos rfl]⟩

/-- Settled rules keep what a solution says. -/
theorem declarations_eq (h : Settling s done b) (hs : s.Rooted)
    (hmem : ∀ q ∈ done, q ∈ s.placed.values) {kept : RuleId → Declarations}
    (hkept : ∀ p ∈ s.placed.values,
      (s.rule p.rule).settled (p.path.map kept) = .ok (kept p.rule)) :
    ∀ q ∈ done, (b.rule q.rule).declarations = kept q.rule := by
  suffices H : ∀ n, ∀ q ∈ done, q.path.length < n → (b.rule q.rule).declarations = kept q.rule from
    fun q hq => H (q.path.length + 1) q hq (Nat.lt_succ_self _)
  intro n
  induction n with
  | zero => exact fun q _ hlt => absurd hlt (Nat.not_lt_zero _)
  | succ n ih =>
      intro q hq hlt
      have hsame : s.settledIn b q = .ok (kept q.rule) := by
        rw [settledIn, ← hkept q (hmem q hq)]
        congr 1
        refine List.map_congr_left fun id hid => ?_
        obtain ⟨q', hq', rfl⟩ := h.closed q hq id hid
        obtain ⟨q'', hq'', heq, hshort⟩ := hs.path q (hmem q hq) q'.rule hid
        obtain rfl := hs.eq_of_rule_eq hq'' (hmem q' hq') heq
        exact ih q'' hq' (Nat.lt_of_lt_of_le hshort (Nat.le_of_lt_succ hlt))
      obtain ⟨d, hd, hrule⟩ := h.settled q hq
      rw [hrule]
      exact Except.ok.inj (hd.symm.trans hsame)

end Settling

/-! ### All rules -/

/-- The rules in the order in which they are reduced. -/
def depthOrder (s : Stylesheet) : List Placed :=
  s.placed.values.mergeSort fun p q => p.path.length ≤ q.path.length

@[simp] theorem mem_depthOrder {p : Placed} : p ∈ s.depthOrder ↔ p ∈ s.placed.values :=
  List.mem_mergeSort

theorem byDepth_eq (s : Stylesheet) : s.byDepth = s.depthOrder.map Placed.rule :=
  congrArg (List.map Placed.rule)
    (sorted_eq_mergeSort_key (fun p : Placed => p.path.length) s.placed.values)

theorem minimal_eq (s : Stylesheet) :
    s.minimal = s.depthOrder.foldlM (fun b p => b.reduceRule p.rule) s := by
  rw [minimal, byDepth_eq, List.foldlM_map]

theorem pairwise_depthOrder (s : Stylesheet) :
    s.depthOrder.Pairwise fun p q => p.path.length ≤ q.path.length := by
  refine (List.pairwise_mergeSort ?_ ?_ s.placed.values).imp ?_
  · intro p q r hpq hqr
    simp only [decide_eq_true_eq] at hpq hqr ⊢
    omega
  · intro p q
    simp only [Bool.or_eq_true, decide_eq_true_eq]
    omega
  · intro p q hpq
    exact of_decide_eq_true hpq

/-- A rule is visited once, and after the rules of its path. -/
theorem Rooted.visit (hs : s.Rooted) {done rest : List Placed} {p : Placed}
    (hsplit : s.depthOrder = done ++ p :: rest) :
    p ∈ s.placed.values ∧ (∀ q ∈ done, q.rule ≠ p.rule) ∧
      ∀ id ∈ p.path, ∃ q ∈ done, q.rule = id := by
  have hmem : ∀ q, q ∈ done ++ p :: rest → q ∈ s.placed.values := by
    intro q hq
    rwa [← hsplit, mem_depthOrder] at hq
  have hp : p ∈ s.placed.values := hmem p (by simp)
  have hnodup : ((done ++ p :: rest).map Placed.rule).Nodup := by
    rw [← hsplit]
    exact ((List.mergeSort_perm _ _).map Placed.rule).nodup_iff.mpr hs.nodup_rules
  have hsorted := s.pairwise_depthOrder
  rw [hsplit, List.pairwise_append, List.pairwise_cons] at hsorted
  refine ⟨hp, fun q hq heq => ?_, fun id hid => ?_⟩
  · rw [List.map_append, List.nodup_append] at hnodup
    exact hnodup.2.2 q.rule (List.mem_map_of_mem hq) p.rule (by simp) heq
  · obtain ⟨q, hq, heq, hshort⟩ := hs.path p hp id hid
    rw [← mem_depthOrder, hsplit, List.mem_append, List.mem_cons] at hq
    obtain hq | rfl | hq := hq
    · exact ⟨q, hq, heq⟩
    · exact absurd hshort (Nat.lt_irrefl _)
    · exact absurd hshort (Nat.not_lt.mpr (hsorted.2.1.1 q hq))

/-- Every rule is settled, and those left empty are taken out. -/
structure IsSettledOf (m s : Stylesheet) : Prop where
  settled : ∀ p ∈ s.placed.values, ∃ d, s.settledIn m p = .ok d ∧
    m.rule p.rule = { s.rule p.rule with declarations := d }
  placed : m.placed = s.placed.filter fun _ p => p.path.isEmpty || !(m.rule p.rule).isEmpty

theorem Settling.isSettledOf (h : Settling s s.depthOrder m) : m.IsSettledOf s := by
  refine ⟨fun p hp => h.settled p (mem_depthOrder.mpr hp), ?_⟩
  rw [h.placed, OrdMap.ext_iff]
  refine List.filter_congr fun e he => ?_
  have hvalue : e.2 ∈ s.depthOrder := mem_depthOrder.mpr (List.mem_map_of_mem he)
  simp [hvalue]

/-- A run that ends leaves every rule settled. -/
theorem Rooted.settling_of_minimal (hs : s.Rooted) (hm : s.minimal = .ok m) :
    Settling s s.depthOrder m := by
  rw [minimal_eq] at hm
  refine Outcome.foldlM_induction (Settling s) (Settling.start s) ?_ hm
  intro done p rest b c hsplit hb hc
  obtain ⟨hp, hnew, hpath⟩ := hs.visit hsplit
  exact hb.step hs hp hnew hpath hc

/-- A run ends if every rule can be reduced below rules that are settled. -/
theorem Rooted.exists_minimal (hs : s.Rooted)
    (hok : ∀ done b, Settling s done b → (∀ q ∈ done, q ∈ s.placed.values) →
      ∀ p ∈ s.placed.values, (∀ id ∈ p.path, ∃ q ∈ done, q.rule = id) →
        ∃ d, s.settledIn b p = .ok d) :
    ∃ m, s.minimal = .ok m ∧ Settling s s.depthOrder m := by
  rw [minimal_eq]
  refine Outcome.exists_foldlM (Settling s) (Settling.start s) ?_
  intro done p rest b hsplit hb
  obtain ⟨hp, hnew, hpath⟩ := hs.visit hsplit
  have hdone : ∀ q ∈ done, q ∈ s.placed.values := by
    intro q hq
    rw [← mem_depthOrder, hsplit]
    exact List.mem_append_left _ hq
  obtain ⟨d, hd⟩ := hok done b hb hdone p hp hpath
  have hc := (hb.reduceRule_eq_ok hs hp hnew).mpr ⟨d, hd, rfl⟩
  exact ⟨_, hc, hb.step hs hp hnew hpath hc⟩

/-- A solution of the equation is what a run ends with. -/
theorem Rooted.exists_minimal_of_solution (hs : s.Rooted) {kept : RuleId → Declarations}
    (hkept : ∀ p ∈ s.placed.values,
      (s.rule p.rule).settled (p.path.map kept) = .ok (kept p.rule)) :
    ∃ m, s.minimal = .ok m ∧ m.IsSettledOf s ∧
      ∀ p ∈ s.placed.values, (m.rule p.rule).declarations = kept p.rule := by
  obtain ⟨m, hm, hdone⟩ := hs.exists_minimal fun done b hb hmem p hp hpath => by
    refine ⟨kept p.rule, ?_⟩
    rw [settledIn, ← hkept p hp]
    congr 1
    refine List.map_congr_left fun id hid => ?_
    obtain ⟨q, hq, rfl⟩ := hpath id hid
    exact hb.declarations_eq hs hmem hkept q hq
  refine ⟨m, hm, hdone.isSettledOf, fun p hp => ?_⟩
  exact hdone.declarations_eq hs (fun q hq => mem_depthOrder.mp hq) hkept p (mem_depthOrder.mpr hp)

end Stylesheet

end DesignTokens
