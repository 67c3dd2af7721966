import DesignTokens.Proofs.Stylesheet.Minimal
import DesignTokens.Proofs.Way

/-!
The search for a change along references. It visits one property after another until it meets one
that has another value than it is given; it finds none exactly if no way along references leads to
such a property. Every declaration on the way is itself kept, the last because it is changed and the
ones before it for the rest of the way. Therefore what is kept for a reference once is kept for it
again when only the kept declarations are left.
-/

namespace DesignTokens

namespace Declarations

variable {own own' parent : Declarations} {property last : String} {path : List String} {v : Value}
  {byValue : Bool}

/-- A property without a change refers to another. -/
def PassesTo (own parent : Declarations) (property target : String) : Prop :=
  own.differAt parent property = false ∧
    ∃ v, own.get? property = some v ∧ v.firstVar? = .ok (some target)

/-- References lead from a property through unchanged ones to a changed one. -/
structure ChangesVia (own parent : Declarations) (property : String) (path : List String)
    (last : String) : Prop where
  way : Way (own.PassesTo parent) property path last
  changed : own.differAt parent last = true

theorem differAt_eq_true_iff : own.differAt parent property = true ↔
    ∃ v w, own.get? property = some v ∧ parent.get? property = some w ∧ v.same w = false := by
  unfold differAt
  cases own.get? property <;> cases parent.get? property <;> simp

theorem passesTo_rightUnique : Relator.RightUnique (own.PassesTo parent) := by
  rintro property target target' ⟨-, v, hv, hvar⟩ ⟨-, v', hv', hvar'⟩
  obtain rfl := Option.some.inj (hv.symm.trans hv')
  exact Option.some.inj (Except.ok.inj (hvar.symm.trans hvar'))

namespace ChangesVia

theorem nodup (h : own.ChangesVia parent property path last) : (path ++ [last]).Nodup := by
  refine h.way.nodup passesTo_rightUnique fun target hpasses => ?_
  have hchanged := h.changed
  rw [hpasses.1] at hchanged
  cases hchanged

/-- Declarations that agree along the way change via the same properties. -/
theorem congr (h : own.ChangesVia parent property path last)
    (hget : ∀ x ∈ path ++ [last], own'.get? x = own.get? x) :
    own'.ChangesVia parent property path last := by
  have hdiffer : ∀ x ∈ path ++ [last], own'.differAt parent x = own.differAt parent x := by
    intro x hx
    simp only [differAt, hget x hx]
  refine ⟨h.way.mono fun x hx y hpasses => ?_, (hdiffer last (by simp)).trans h.changed⟩
  have hx' : x ∈ path ++ [last] := List.mem_append_left _ hx
  rw [PassesTo, hdiffer x hx', hget x hx']
  exact hpasses

end ChangesVia

/-- The search succeeds exactly if references lead to a change past what was visited before. -/
theorem changesAlong_eq_true_iff {seen : List String} :
    own.changesAlong parent seen property = .ok true ↔
      ∃ path last, own.ChangesVia parent property path last ∧
        ∀ x ∈ path ++ [last], x ∉ seen := by
  constructor
  · intro h
    fun_induction changesAlong own parent seen property with
    | case1 => cases h
    | case2 => cases h
    | case3 seen property hseen v hv hdiffer =>
        exact ⟨[], property, ⟨.here property, hdiffer⟩, by simpa using hseen⟩
    | case4 => cases h
    | case5 => cases h
    | case6 seen property hseen v hv hdiffer target hvar ih =>
        obtain ⟨path, last, hvia, hfresh⟩ := ih h
        rw [Bool.not_eq_true] at hdiffer
        refine ⟨property :: path, last, ⟨.step ⟨hdiffer, v, hv, hvar⟩ hvia.way, hvia.changed⟩, ?_⟩
        intro x hx
        rcases List.mem_cons.mp hx with rfl | hx
        · exact hseen
        · exact fun hmem => hfresh x hx (List.mem_append_left _ hmem)
  · rintro ⟨path, last, hvia, hfresh⟩
    have hnodup := hvia.nodup
    obtain ⟨way, hchanged⟩ := hvia
    induction way generalizing seen with
    | here property =>
        have hseen := hfresh property List.mem_cons_self
        obtain ⟨v, w, hv, -, -⟩ := differAt_eq_true_iff.mp hchanged
        unfold changesAlong
        rw [dif_neg hseen]
        split
        · next hnone => simp [hv] at hnone
        · rw [if_pos hchanged]
    | @step property target last path hpasses _ ih =>
        have hseen := hfresh property List.mem_cons_self
        obtain ⟨hsame, v, hv, hvar⟩ := hpasses
        obtain ⟨hnot, hnodup⟩ := List.nodup_cons.mp hnodup
        unfold changesAlong
        rw [dif_neg hseen]
        split
        · next hnone => simp [hv] at hnone
        · next v' hv' =>
            obtain rfl := Option.some.inj (hv.symm.trans hv')
            rw [if_neg (by simp [hsame])]
            simp only [hvar]
            refine ih (fun x hx => ?_) hnodup hchanged
            rw [List.mem_append, List.mem_singleton, not_or]
            refine ⟨hfresh x (List.mem_cons_of_mem property hx), ?_⟩
            rintro rfl
            exact hnot hx

/-- A declaration refers to a change if references lead to one from the first property in it. -/
theorem refersToChange_eq_true_iff :
    own.refersToChange parent v = .ok true ↔
      ∃ target path last, v.firstVar? = .ok (some target) ∧
        own.ChangesVia parent target path last := by
  rw [refersToChange, Outcome.bind_eq_ok]
  constructor
  · rintro ⟨target?, hvar, h⟩
    cases target? with
    | none => cases h
    | some target =>
        obtain ⟨path, last, hvia, -⟩ := changesAlong_eq_true_iff.mp h
        exact ⟨target, path, last, hvar, hvia⟩
  · rintro ⟨target, path, last, hvar, hvia⟩
    exact ⟨some target, hvar, changesAlong_eq_true_iff.mpr ⟨path, last, hvia, by simp⟩⟩

/-! ### Kept declarations -/

theorem keeps_eq_true_iff : keeps own parent byValue property v = true ↔
    isInherited parent property v = false ∨
      byValue = false ∧ ∃ target path last, v.firstVar? = .ok (some target) ∧
        own.ChangesVia parent target path last := by
  have hvalue : ∀ x : Except Fault Bool, Outcome.valueOr false x = true ↔ x = .ok true := by
    intro x
    cases x <;> simp [Outcome.valueOr]
  rw [keeps, Bool.or_eq_true, Bool.and_eq_true, hvalue, refersToChange_eq_true_iff,
    Bool.not_eq_true', Bool.not_eq_true']

/-- Every declaration on the way to a change is kept. -/
theorem ChangesVia.keeps (hown : own.Textual) (h : own.ChangesVia parent property path last)
    {x : String} (hx : x ∈ path ++ [last]) :
    ∃ v, own.get? x = some v ∧ own.keeps parent false x v = true := by
  rcases List.mem_append.mp hx with hx | hx
  · obtain ⟨target, rest, ⟨-, v, hv, hvar⟩, way, -⟩ := h.way.exists_next hx
    exact ⟨v, hv, keeps_eq_true_iff.mpr (.inr ⟨rfl, target, rest, last, hvar, way, h.changed⟩)⟩
  · obtain rfl := List.mem_singleton.mp hx
    obtain ⟨v, w, hv, hw, hsame⟩ := differAt_eq_true_iff.mp h.changed
    refine ⟨v, hv, keeps_eq_true_iff.mpr (.inl ?_)⟩
    obtain ⟨text, rfl⟩ := hown x v hv
    rw [← Bool.not_eq_true, isInherited_text_iff, hw]
    rintro heq
    obtain rfl := Option.some.inj heq
    simp at hsame

/-- What is kept is kept again when it is all that is left. -/
theorem keeps_filter (hown : own.Textual)
    (hkeeps : own.keeps parent byValue property v = true) :
    keeps (own.filter fun x w => own.keeps parent byValue x w) parent byValue property v =
      true := by
  rw [keeps_eq_true_iff] at hkeeps ⊢
  refine hkeeps.imp_right ?_
  rintro ⟨rfl, target, path, last, hvar, hvia⟩
  refine ⟨rfl, target, path, last, hvar, hvia.congr fun x hx => ?_⟩
  obtain ⟨w, hw, hkept⟩ := hvia.keeps hown hx
  rw [OrdMap.get?_filter, hw, Option.filter_some, if_pos hkept]

theorem Textual.filter (hown : own.Textual) (p : String → Value → Bool) :
    Textual (own.filter p) := by
  intro property v hv
  rw [OrdMap.get?_filter, Option.filter_eq_some_iff] at hv
  exact hown property v hv.1

/-- Reducing declarations a second time leaves them as they are. -/
theorem reduced_filter_keeps (hown : own.Textual) (parent : Declarations) (byValue : Bool) :
    reduced (own.filter fun x w => own.keeps parent byValue x w) parent byValue =
      .ok (own.filter fun x w => own.keeps parent byValue x w) := by
  rw [reduced_eq (hown.filter _), Except.ok.injEq, OrdMap.ext_iff]
  refine List.filter_eq_self.mpr fun e he => ?_
  exact keeps_filter hown (List.mem_filter.mp he).2

end Declarations

end DesignTokens
