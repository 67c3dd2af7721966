import DesignTokens.Proofs.Stylesheet.Parts

/-!
Sheets of which some properties are left out. Where no value refers to a property, what a rule keeps
of a property depends on that property alone. So declarations may be taken out of a sheet before it
is reduced or after, even though rules that are left without declarations are then on no path and
are not visited.
-/

namespace DesignTokens

/-! ### Declarations of some properties -/

namespace Declarations

variable {own parent parent' kept : Declarations} {p : String → Bool} {property : String}
  {v : Value}
  {byValue : Bool}

/-- The declarations of some properties. -/
def only (d : Declarations) (p : String → Bool) : Declarations :=
  d.filter fun property _ => p property

theorem get?_only (d : Declarations) (p : String → Bool) (property : String) :
    (d.only p).get? property = if p property then d.get? property else none := by
  rw [only, OrdMap.get?_filter]
  cases p property <;> cases d.get? property <;> simp [Option.filter]

/-- No value refers to a property. -/
def IsVarFree (d : Declarations) : Prop :=
  ∀ property v, d.get? property = some v → ∀ name, v.firstVar? ≠ .ok (some name)

/-- No value is null. -/
def IsPresent (d : Declarations) : Prop := ∀ property v, d.get? property = some v → v ≠ .null

theorem isInherited_of_none (h : parent.get? property = none) (hv : v ≠ .null) :
    isInherited parent property v = false := by
  cases v with
  | null => exact absurd rfl hv
  | _ => simp [isInherited, h, Value.same, Value.alike, Value.sameLeaf, Value.isNaN,
      Value.wholeNumber?]

/-- A value without reference is searched for one and refers to no change. -/
theorem refersToChange_eq_ok (hv : ∀ name, v.firstVar? ≠ .ok (some name)) {changed : Bool} :
    own.refersToChange parent v = .ok changed ↔ v.firstVar? = .ok none ∧ changed = false := by
  rw [refersToChange, Outcome.bind_eq_ok]
  constructor
  · rintro ⟨name?, hname, h⟩
    cases name? with
    | none => exact ⟨hname, (Outcome.pure_eq_ok.mp h).symm⟩
    | some name => exact absurd hname (hv name)
  · rintro ⟨hname, rfl⟩
    exact ⟨none, hname, rfl⟩

/-- Without references declarations are reduced one by one. -/
theorem reduced_eq_ok (hfree : own.IsVarFree) : own.reduced parent byValue = .ok kept ↔
    (∀ property v, own.get? property = some v → isInherited parent property v = true →
      byValue = false → v.firstVar? = .ok none) ∧
    kept = own.filter fun property v => !isInherited parent property v := by
  rw [reduced, OrdMap.filterMapM_eq_ok]
  constructor
  · rintro ⟨g, hg, rfl⟩
    have hstep : ∀ property v, own.get? property = some v →
        (isInherited parent property v = true → byValue = false → v.firstVar? = .ok none) ∧
          g property v = if !isInherited parent property v then some v else none := by
      intro property v hv
      have hhere := hg property v hv
      cases hin : isInherited parent property v with
      | false =>
          simp only [hin, Bool.not_false, if_true, Outcome.pure_eq_ok] at hhere
          simp [← hhere]
      | true =>
          cases byValue with
          | true =>
              simp only [hin, Bool.not_true, Bool.false_eq_true, if_false, if_true,
                Outcome.pure_eq_ok] at hhere
              simp [← hhere]
          | false =>
              simp only [hin, Bool.not_true, Bool.false_eq_true, if_false, Outcome.bind_eq_ok,
                refersToChange_eq_ok (hfree property v hv), Outcome.pure_eq_ok] at hhere
              obtain ⟨changed, ⟨hname, rfl⟩, hnone⟩ := hhere
              simpa [← hnone] using hname
    exact ⟨fun property v hv => (hstep property v hv).1,
      OrdMap.filterMap_eq_filter fun property v hv => (hstep property v hv).2⟩
  · rintro ⟨hsearch, rfl⟩
    refine ⟨fun property v => if !isInherited parent property v then some v else none, ?_, ?_⟩
    · intro property v hv
      cases hin : isInherited parent property v with
      | false => simp [hin, pure, Except.pure]
      | true =>
          cases byValue with
          | true => simp [hin, pure, Except.pure]
          | false =>
              simp only [hin, Bool.not_true, Bool.false_eq_true, if_false, Outcome.bind_eq_ok,
                refersToChange_eq_ok (hfree property v hv), Outcome.pure_eq_ok]
              exact ⟨false, ⟨hsearch property v hv hin rfl, rfl⟩, rfl⟩
    · exact (OrdMap.filterMap_eq_filter fun _ _ _ => rfl).symm

theorem IsVarFree.only (h : own.IsVarFree) (p : String → Bool) : (own.only p).IsVarFree := by
  intro property v hv
  rw [get?_only] at hv
  split at hv
  · exact h property v hv
  · cases hv

/-- What is kept of some properties depends on what is above of these. -/
theorem reduced_only (hfree : own.IsVarFree) (h : own.reduced parent byValue = .ok kept)
    (hparent : ∀ property, p property = true → parent'.get? property = parent.get? property) :
    (own.only p).reduced parent' byValue = .ok (kept.only p) := by
  have hsame : ∀ property v, p property = true →
      isInherited parent' property v = isInherited parent property v := by
    intro property v hp
    rw [isInherited, isInherited, hparent property hp]
  obtain ⟨hsearch, rfl⟩ := (reduced_eq_ok hfree).mp h
  refine (reduced_eq_ok (hfree.only p)).mpr ⟨fun property v hv hin => ?_, ?_⟩
  · rw [get?_only] at hv
    split at hv
    · next hp => exact hsearch property v hv (hsame property v hp ▸ hin)
    · cases hv
  · rw [OrdMap.ext_iff]
    simp only [only, OrdMap.filter, List.filter_filter]
    refine List.filter_congr fun e _ => ?_
    cases hp : p e.1 with
    | false => simp
    | true => rw [hsame e.1 e.2 hp, Bool.true_and, Bool.and_true]

/-- Of properties that nothing above has everything is kept. -/
theorem only_eq_of_reduced (hfree : own.IsVarFree) (hpresent : own.IsPresent)
    (h : own.reduced parent byValue = .ok kept)
    (hparent : ∀ property, p property = true → parent.get? property = none) :
    kept.only p = own.only p := by
  obtain ⟨-, rfl⟩ := (reduced_eq_ok hfree).mp h
  rw [OrdMap.ext_iff]
  simp only [only, OrdMap.filter, List.filter_filter]
  refine List.filter_congr fun e he => ?_
  cases hp : p e.1 with
  | false => rfl
  | true =>
      have hv := hpresent e.1 e.2 (OrdMap.mem_entries_iff.mp he)
      rw [isInherited_of_none (hparent e.1 hp) hv]
      rfl

end Declarations

/-! ### Rules and plans -/

/-- A rule with its declarations of some properties. -/
def Rule.only (r : Rule) (p : String → Bool) : Rule :=
  { r with declarations := r.declarations.only p }

def Planned.only (e : Planned) (p : String → Bool) : Planned := { e with rule := e.rule.only p }

variable {p : String → Bool} {r : Rule} {above above' : List Declarations} {kept : Declarations}

theorem Rule.isEmpty_only (h : r.isEmpty = true) : (r.only p).isEmpty = true := by
  have hown : r.declarations = .empty := OrdMap.eq_empty_of_isEmpty h
  rw [Rule.isEmpty, only, hown]
  rfl

/-- A rule keeps what is its own. -/
theorem Rule.get?_settled (hfree : r.declarations.IsVarFree) (h : r.settled above = .ok kept)
    {property : String} (hnone : r.declarations.get? property = none) :
    kept.get? property = none := by
  cases above with
  | nil =>
      obtain rfl := Except.ok.inj h
      exact hnone
  | cons d ds =>
      obtain ⟨-, rfl⟩ := (Declarations.reduced_eq_ok hfree).mp h
      rw [OrdMap.get?_filter, hnone]
      rfl

/-- What a rule keeps of some properties depends on what is above of these. -/
theorem Rule.settled_only (hfree : r.declarations.IsVarFree) (hpresent : r.declarations.IsPresent)
    (h : r.settled above = .ok kept) (hnone : above = [] → above' = [])
    (habove : ∀ property, p property = true →
      (Declarations.overlay above').get? property = (Declarations.overlay above).get? property) :
    (r.only p).settled above' = .ok (kept.only p) := by
  cases above with
  | nil =>
      obtain rfl := Except.ok.inj h
      rw [hnone rfl]
      rfl
  | cons d ds =>
      cases above' with
      | nil =>
          have hkept := Declarations.only_eq_of_reduced (p := p) hfree hpresent h
            fun property hp => (habove property hp).symm
          rw [hkept]
          rfl
      | cons d' ds' => exact Declarations.reduced_only hfree h habove

namespace Stylesheet

variable {s t m : Stylesheet} {plan : List Planned}

theorem isFilled_of_only {k : String} (h : IsFilled (plan.map (Planned.only · p)) k = true) :
    IsFilled plan k = true := by
  simp only [IsFilled, List.any_map, List.any_eq_true, Function.comp_apply, Bool.and_eq_true,
    Bool.not_eq_true', beq_iff_eq] at h ⊢
  obtain ⟨e, he, hfilled, hselector⟩ := h
  refine ⟨e, he, Bool.eq_false_iff.mpr fun hempty => ?_, hselector⟩
  have hgone : (e.rule.only p).isEmpty = true := Rule.isEmpty_only hempty
  rw [show (e.rule.only p).isEmpty = false from hfilled] at hgone
  cases hgone

/-- Rules that are left without declarations keep none of the properties. -/
theorem Settles.get?_of_not_filled {kept : String → Declarations} (hkept : Settles plan kept)
    (hfree : ∀ e ∈ plan, e.declarations.IsVarFree) {k : String} (hk : IsFilled plan k = true)
    (hnot : IsFilled (plan.map (Planned.only · p)) k = false) {property : String}
    (hp : p property = true) : (kept k).get? property = none := by
  simp only [IsFilled, List.any_eq_true, Bool.and_eq_true, beq_iff_eq] at hk
  obtain ⟨e, he, -, rfl⟩ := hk
  simp only [IsFilled, List.any_map, List.any_eq_false, Function.comp_apply, Bool.and_eq_true,
    Bool.not_eq_true', beq_iff_eq, not_and] at hnot
  have hempty : (e.declarations.only p).isEmpty = true := by
    by_contra hfilled
    exact hnot e he (Bool.eq_false_iff.mpr hfilled) rfl
  have hnone : (e.declarations.only p).get? property = none := by
    rw [OrdMap.eq_empty_of_isEmpty hempty]
    rfl
  rw [Declarations.get?_only, if_pos hp] at hnone
  exact Rule.get?_settled (hfree e he) (hkept e he) hnone

/-- A solution of the equation for a plan gives one for the plan with some properties only. -/
theorem Settles.only {kept : String → Declarations} (hkept : Settles plan kept)
    (hfree : ∀ e ∈ plan, e.declarations.IsVarFree) (hpresent : ∀ e ∈ plan, e.declarations.IsPresent)
    (p : String → Bool) : Settles (plan.map (Planned.only · p)) fun k => (kept k).only p := by
  intro e' he'
  obtain ⟨e, he, rfl⟩ := List.mem_map.mp he'
  have hparents : e.parents.filter (IsFilled (plan.map (Planned.only · p))) =
      (e.parents.filter (IsFilled plan)).filter (IsFilled (plan.map (Planned.only · p))) := by
    rw [List.filter_filter]
    refine List.filter_congr fun k _ => ?_
    cases hk : IsFilled (plan.map (Planned.only · p)) k with
    | false => rfl
    | true => rw [isFilled_of_only hk]; rfl
  refine Rule.settled_only (hfree e he) (hpresent e he) (hkept e he) ?_ ?_
  · intro hnone
    rw [List.map_eq_nil_iff] at hnone
    change (e.parents.filter _).map _ = []
    rw [hparents, hnone]
    rfl
  · intro property hp
    change (Declarations.overlay ((e.parents.filter _).map _)).get? property = _
    have hsame : ∀ k ∈ e.parents.filter (IsFilled plan),
        ((kept k).only p).get? property = (kept k).get? property :=
      fun k _ => by rw [Declarations.get?_only, if_pos hp]
    rw [hparents, Declarations.get?_overlay_filter, Declarations.get?_overlay_congr hsame]
    intro k hk hnot
    rw [hsame k hk]
    exact hkept.get?_of_not_filled hfree (List.mem_filter.mp hk).2 hnot hp

/-- Of a sheet without references some properties may be taken out before it is reduced or after. -/
theorem Lists.exists_minimal_only (h : s.Lists plan) (hlayers : Layered (plan.map Planned.outline))
    (hfree : ∀ e ∈ plan, e.declarations.IsVarFree) (hpresent : ∀ e ∈ plan, e.declarations.IsPresent)
    (hm : s.minimal = .ok m) (ht : t.Lists (plan.map (Planned.only · p))) :
    ∃ n, t.minimal = .ok n ∧
      n.listing = (m.listing.map (Rule.only · p)).filter fun r => !r.isEmpty := by
  have hlayers' : Layered ((plan.map (Planned.only · p)).map Planned.outline) := by
    rw [List.map_map]
    exact hlayers
  obtain ⟨hsettled, hkept⟩ := h.settles_of_minimal hlayers hm
  obtain ⟨n, hn, hsettled', hdeclared⟩ :=
    ht.exists_minimal_of_settles hlayers' (hkept.only hfree hpresent p)
  have hrules : (plan.map (Planned.only · p)).map (fun e : Planned =>
      { e.rule with declarations := n.declared e.selector }) =
      (plan.map fun e => { e.rule with declarations := m.declared e.selector }).map
        (Rule.only · p) := by
    rw [List.map_map, List.map_map]
    refine List.map_congr_left fun e he => ?_
    simp only [Function.comp_apply, hdeclared _ (List.mem_map_of_mem he)]
    rfl
  refine ⟨n, hn, ?_⟩
  rw [ht.listing_minimal hlayers' hsettled', hrules, h.listing_minimal hlayers hsettled]
  -- what is empty at first is so with fewer properties
  generalize plan.map _ = rules
  rw [List.filter_map, List.filter_map, List.filter_filter]
  congr 1
  refine List.filter_congr fun r _ => ?_
  cases hempty : r.isEmpty with
  | false => simp
  | true => simp [Rule.isEmpty_only hempty]

end Stylesheet

end DesignTokens
