import DesignTokens.Proofs.Stylesheet.Settled

/-!
The minimal form of a stylesheet whose rules below others declare texts. Texts can always be
compared, so there is one: every rule ends as what it keeps of its own declarations below the final
ones of its ancestors, and the sheet as what it was without the rules that end empty.
-/

namespace DesignTokens

/-! ### Reducing declarations -/

namespace Declarations

variable {own parent : Declarations} {property : String} {v : Value} {byValue : Bool}

/-- Every value is a text. -/
def Textual (d : Declarations) : Prop :=
  ∀ property v, d.get? property = some v → ∃ text, v = .text text

theorem textual_of_entries (h : ∀ e ∈ own.entries, e.2.text?.isSome = true) : own.Textual := by
  intro property v hv
  obtain ⟨text, htext⟩ := Option.isSome_iff_exists.mp (h _ (OrdMap.mem_entries_iff.mpr hv))
  exact ⟨text, Value.eq_text_of_text? htext⟩

/-- A declaration that is kept below the given ones. -/
def keeps (own parent : Declarations) (byValue : Bool) (property : String) (v : Value) : Bool :=
  !isInherited parent property v ||
    (!byValue && Outcome.valueOr false (own.refersToChange parent v))

theorem changesAlong_ok (hown : own.Textual) (parent : Declarations) (seen : List String)
    (property : String) : ∃ b, own.changesAlong parent seen property = .ok b := by
  fun_induction changesAlong own parent seen property with
  | case1 => exact ⟨_, rfl⟩
  | case2 => exact ⟨_, rfl⟩
  | case3 => exact ⟨_, rfl⟩
  | case4 seen property hseen v hv hdiffer e he =>
      obtain ⟨text, rfl⟩ := hown property v hv
      cases he
  | case5 => exact ⟨_, rfl⟩
  | case6 seen property hseen v hv hdiffer next hnext ih => exact ih

theorem refersToChange_ok (hown : own.Textual) (parent : Declarations) (text : String) :
    ∃ b, own.refersToChange parent (.text text) = .ok b := by
  cases hvar : firstVar? text with
  | none => exact ⟨false, by simp [refersToChange, Value.firstVar?, hvar]⟩
  | some property =>
      obtain ⟨b, hb⟩ := changesAlong_ok hown parent [] property
      refine ⟨b, ?_⟩
      rw [refersToChange, Outcome.bind_eq_ok]
      exact ⟨some property, by simp [Value.firstVar?, hvar], hb⟩

theorem reduced_eq (hown : own.Textual) (parent : Declarations) (byValue : Bool) :
    own.reduced parent byValue = .ok (own.filter fun property v =>
      keeps own parent byValue property v) := by
  refine OrdMap.filterMapM_eq_ok.mpr ⟨fun property v =>
    if keeps own parent byValue property v then some v else none, ?_, ?_⟩
  · intro property v hv
    obtain ⟨text, rfl⟩ := hown property v hv
    obtain ⟨b, hb⟩ := refersToChange_ok hown parent text
    cases hin : isInherited parent property (.text text) with
    | false => simp [keeps, hin, pure, Except.pure]
    | true => cases byValue <;> cases b <;>
        simp [keeps, hin, hb, Outcome.valueOr, pure, Except.pure, bind, Except.bind]
  · exact (OrdMap.filterMap_eq_filter fun _ _ _ => rfl).symm

theorem isInherited_text_iff {text : String} :
    isInherited parent property (.text text) = true ↔ parent.get? property = some (.text text) := by
  cases h : parent.get? property with
  | none =>
      simp [isInherited, h, Value.same, Value.alike, Value.sameLeaf, Value.isNaN,
        Value.wholeNumber?]
  | some w =>
      cases w <;> simp [isInherited, h, Value.same, Value.alike, Value.sameLeaf, Value.isNaN,
        Value.wholeNumber?]

/-- A declaration that is not kept has the value that it is given anyway. -/
theorem get?_parent_of_dropped (hown : own.Textual) (hv : own.get? property = some v)
    (hdropped : keeps own parent byValue property v = false) : parent.get? property = some v := by
  obtain ⟨text, rfl⟩ := hown property v hv
  simp only [keeps, Bool.or_eq_false_iff, Bool.not_eq_false'] at hdropped
  exact isInherited_text_iff.mp hdropped.1

/-- Below nothing all declarations are kept. -/
theorem filter_keeps_empty (hown : own.Textual) (byValue : Bool) :
    (own.filter fun property v => keeps own .empty byValue property v) = own := by
  rw [OrdMap.ext_iff]
  refine List.filter_eq_self.mpr fun d hd => ?_
  obtain ⟨text, htext⟩ := hown d.1 d.2 (OrdMap.mem_entries_iff.mp hd)
  have hnot : isInherited .empty d.1 d.2 = false := by
    rw [htext, ← Bool.not_eq_true, isInherited_text_iff]
    simp
  simp [keeps, hnot]

end Declarations

/-! ### Reducing a sheet -/

namespace Stylesheet

variable {s : Stylesheet}

/-- Every rule in the sheet stands at its selector and below rules of the sheet with shorter paths.
What is below others declares texts. -/
structure Grounded (s : Stylesheet) : Prop where
  selector : ∀ selector p, s.placed.get? selector = some p → (s.rule p.rule).selector = selector
  known : ∀ p ∈ s.placed.values, p.rule < s.rules.length
  path : ∀ p ∈ s.placed.values, ∀ id ∈ p.path,
    ∃ q ∈ s.placed.values, q.rule = id ∧ q.path.length < p.path.length
  textual : ∀ p ∈ s.placed.values, p.path ≠ [] → (s.rule p.rule).declarations.Textual

/-- What a rule keeps of its declarations below those that a sheet has for its path. -/
def reducedIn (s final : Stylesheet) (p : Placed) : Declarations :=
  let r := s.rule p.rule
  if p.path = [] then r.declarations
  else r.declarations.filter fun property v =>
    Declarations.keeps r.declarations (final.inherited p.path) (comparesByValue r) property v

namespace Grounded

variable {p : Placed}

theorem rooted (h : s.Grounded) : s.Rooted := ⟨h.selector, h.known, h.path⟩

/-- Texts can always be reduced. -/
theorem settledIn_eq (h : s.Grounded) (hp : p ∈ s.placed.values) (b : Stylesheet) :
    s.settledIn b p = .ok (s.reducedIn b p) := by
  have hinherited : Declarations.overlay (p.path.map fun id => (b.rule id).declarations) =
      b.inherited p.path := (inherited_eq_overlay b p.path).symm
  rw [settledIn, reducedIn, ← hinherited]
  by_cases hpath : p.path = []
  · simp only [hpath, List.map_nil, if_true]
    rfl
  · obtain ⟨first, rest, hcase⟩ := List.exists_cons_of_ne_nil hpath
    have hreduced := Declarations.reduced_eq (h.textual p hp hpath)
    simp only [hcase, List.map_cons, Rule.settled, hreduced, reduceCtorEq, if_false]

end Grounded

/-- A sheet that is the minimal form of another. -/
structure IsMinimalOf (m s : Stylesheet) : Prop where
  rule : ∀ p ∈ s.placed.values,
    m.rule p.rule = { s.rule p.rule with declarations := s.reducedIn m p }
  placed : m.placed = s.placed.filter fun _ p =>
    p.path.isEmpty || !(s.reducedIn m p).isEmpty

theorem IsSettledOf.isMinimalOf {m : Stylesheet} (h : m.IsSettledOf s) (hs : s.Grounded) :
    m.IsMinimalOf s := by
  have hrule : ∀ p ∈ s.placed.values,
      m.rule p.rule = { s.rule p.rule with declarations := s.reducedIn m p } := by
    intro p hp
    obtain ⟨d, hd, hrule⟩ := h.settled p hp
    obtain rfl := Except.ok.inj ((hs.settledIn_eq hp m).symm.trans hd)
    exact hrule
  refine ⟨hrule, ?_⟩
  rw [h.placed, OrdMap.ext_iff]
  refine List.filter_congr fun e he => ?_
  simp only [hrule e.2 (List.mem_map_of_mem he)]
  rfl

/-- A grounded sheet has a minimal form, where every rule is reduced below the final rules of its
path. -/
theorem Grounded.exists_minimal (hs : s.Grounded) :
    ∃ m, s.minimal = .ok m ∧ m.IsMinimalOf s := by
  obtain ⟨m, hm, hdone⟩ := hs.rooted.exists_minimal fun _ b _ _ p hp _ =>
    ⟨_, hs.settledIn_eq hp b⟩
  exact ⟨m, hm, hdone.isSettledOf.isMinimalOf hs⟩

end Stylesheet

end DesignTokens
