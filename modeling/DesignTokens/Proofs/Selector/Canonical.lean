import DesignTokens.Proofs.Build.Rule
import DesignTokens.Proofs.Selector.Compose
import DesignTokens.Proofs.Stylesheet.Lists

/-!
Fragments in any order. A compound is sorted, and `:root` is left out of it, so a selector does not
tell in which order its fragments were given, nor whether `:root` was among them, as long as any
other fragment was. A fragment that is given twice stands in it twice. So a rule is found again
by the set of its fragments, however it is listed and whatever media query the rule stands in.
-/

namespace DesignTokens.Selector

variable {fragments fragments' outer outer' inner inner' : List String} {f g : Fragments}

/-- The same fragments, up to their order and up to a `:root` beside other fragments. -/
inductive Fragments.Alike : Fragments → Fragments → Prop
  | order {outer outer' inner inner' : List Value} (houter : outer.Perm outer')
      (hinner : inner.Perm inner') : Alike ⟨outer, inner⟩ ⟨outer', inner'⟩
  | root {outer inner : List Value} (hother : (∃ v ∈ outer, v ≠ .text ":root") ∨ inner ≠ []) :
      Alike ⟨.text ":root" :: outer, inner⟩ ⟨outer, inner⟩
  | symm {f g : Fragments} (h : Alike f g) : Alike g f
  | trans {f g h : Fragments} (hfg : Alike f g) (hgh : Alike g h) : Alike f h

/-! ### Texts -/

theorem compound_of_perm (h : fragments.Perm fragments') :
    compound fragments = compound fragments' := by
  have hsorted : ∀ xs : List String,
      (xs.mergeSort Text.precedes).Pairwise fun s t => Text.precedes s t = true :=
    List.pairwise_mergeSort (fun _ _ _ => Text.inOrder_trans)
      fun s t => Text.inOrder_total s.toList t.toList
  have hperm : (fragments.mergeSort Text.precedes).Perm (fragments'.mergeSort Text.precedes) :=
    ((List.mergeSort_perm fragments _).trans h).trans (List.mergeSort_perm fragments' _).symm
  have hsame : fragments.mergeSort Text.precedes = fragments'.mergeSort Text.precedes := by
    refine hperm.eq_of_pairwise (fun s t _ _ hst hts => ?_) (hsorted _) (hsorted _)
    exact String.toList_inj.mp (Text.inOrder_antisymm hst hts)
  rw [compound_eq, hsame, compound_eq]

theorem compose_of_perm (houter : outer.Perm outer') (hinner : inner.Perm inner') :
    compose outer inner = compose outer' inner' := by
  have halone : (outer = [":root"] ∧ inner = []) ↔ outer' = [":root"] ∧ inner' = [] := by
    rw [← List.perm_singleton, ← List.perm_nil, ← List.perm_singleton, ← List.perm_nil]
    exact and_congr ⟨houter.symm.trans, houter.trans⟩ ⟨hinner.symm.trans, hinner.trans⟩
  have hfront := compound_of_perm (houter.filter (· != ":root"))
  simp only [compose, halone, hfront, compound_of_perm hinner, hinner.isEmpty_eq]

/-- Beside other fragments `:root` does not count. -/
theorem compose_cons_root (hother : (∃ s ∈ outer, s ≠ ":root") ∨ inner ≠ []) :
    compose (":root" :: outer) inner = compose outer inner := by
  have hwith : ¬(":root" :: outer = [":root"] ∧ inner = []) := by
    rintro ⟨houter, hinner⟩
    obtain rfl := List.cons.inj houter |>.2
    simp [hinner] at hother
  have hwithout : ¬(outer = [":root"] ∧ inner = []) := by
    rintro ⟨rfl, hinner⟩
    simp [hinner] at hother
  rw [compose, compose, if_neg hwith, if_neg hwithout, List.filter_cons_of_neg (by simp)]

/-! ### Fragments -/

theorem fragmentTexts_eq (values : List Value) : fragmentTexts values =
    if values.all fun v => v.text?.isSome then .ok (values.filterMap Value.text?)
    else .error .wrongKind := by
  induction values with
  | nil => rfl
  | cons v values ih =>
      rw [fragmentTexts] at ih
      rw [fragmentTexts, List.mapM_cons, ih, List.all_cons]
      cases hv : v.text? with
      | none => rfl
      | some text =>
          rw [List.filterMap_cons_some hv, Option.isSome_some, Bool.true_and]
          cases values.all fun v => v.text?.isSome <;> rfl

namespace Fragments

theorem selector_eq (f : Fragments) (customizer : Customizer) : f.selector customizer =
    if (f.outer ++ f.inner).all fun v => v.text?.isSome then
      .ok (customizer (compose (f.outer.filterMap Value.text?) (f.inner.filterMap Value.text?)))
    else .error .wrongKind := by
  rw [selector, fragmentTexts_eq, fragmentTexts_eq, List.all_append]
  cases f.outer.all fun v => v.text?.isSome
  · rfl
  · cases f.inner.all fun v => v.text?.isSome <;> rfl

theorem selector_of_perm {outer outer' inner inner' : List Value} (houter : outer.Perm outer')
    (hinner : inner.Perm inner') (customizer : Customizer) :
    selector ⟨outer, inner⟩ customizer = selector ⟨outer', inner'⟩ customizer := by
  have hcompose := compose_of_perm (houter.filterMap Value.text?) (hinner.filterMap Value.text?)
  have hall := (houter.append hinner).all_eq (f := fun v => v.text?.isSome)
  rw [selector_eq, selector_eq, hall, hcompose]

/-- Among texts every fragment is one. -/
theorem exists_text {values : List Value} {v : Value} (hv : v ∈ values)
    (hall : ∀ v ∈ values, v.text?.isSome = true) :
    ∃ text ∈ values.filterMap Value.text?, v = .text text := by
  obtain ⟨text, htext⟩ := Option.isSome_iff_exists.mp (hall v hv)
  exact ⟨text, List.mem_filterMap.mpr ⟨v, hv, htext⟩, Value.eq_text_of_text? htext⟩

theorem selector_cons_root {outer inner : List Value}
    (hother : (∃ v ∈ outer, v ≠ .text ":root") ∨ inner ≠ []) (customizer : Customizer) :
    selector ⟨.text ":root" :: outer, inner⟩ customizer = selector ⟨outer, inner⟩ customizer := by
  have hsame : ((.text ":root" :: outer) ++ inner).all (fun v => v.text?.isSome) =
      (outer ++ inner).all fun v => v.text?.isSome := rfl
  rw [selector_eq, selector_eq, hsame]
  by_cases hall : ((outer ++ inner).all fun v => v.text?.isSome) = true
  · rw [if_pos hall, if_pos hall]
    rw [List.all_append, Bool.and_eq_true, List.all_eq_true, List.all_eq_true] at hall
    have htexts : (∃ text ∈ outer.filterMap Value.text?, text ≠ ":root") ∨
        inner.filterMap Value.text? ≠ [] := by
      rcases hother with ⟨v, hv, hne⟩ | hne
      · obtain ⟨text, hmem, rfl⟩ := exists_text hv hall.1
        exact .inl ⟨text, hmem, fun heq => hne (congrArg Value.text heq)⟩
      · obtain ⟨v, hv⟩ := List.exists_mem_of_ne_nil inner hne
        obtain ⟨text, hmem, -⟩ := exists_text hv hall.2
        exact .inr (List.ne_nil_of_mem hmem)
    exact congrArg (fun text => Except.ok (customizer text)) (compose_cons_root htexts)
  · rw [if_neg hall, if_neg hall]

/-- Two lists of the same set are alike. -/
theorem Alike.of_nodup {outer outer' inner inner' : List Value} (houter : outer.Nodup)
    (houter' : outer'.Nodup) (hinner : inner.Nodup) (hinner' : inner'.Nodup)
    (hsameOuter : ∀ v, v ∈ outer ↔ v ∈ outer') (hsameInner : ∀ v, v ∈ inner ↔ v ∈ inner') :
    Alike ⟨outer, inner⟩ ⟨outer', inner'⟩ :=
  .order ((List.perm_ext_iff_of_nodup houter houter').mpr hsameOuter)
    ((List.perm_ext_iff_of_nodup hinner hinner').mpr hsameInner)

/-- Alike fragments have one selector. -/
theorem Alike.selector_eq (h : f.Alike g) (customizer : Customizer) :
    f.selector customizer = g.selector customizer := by
  induction h with
  | order houter hinner => exact selector_of_perm houter hinner customizer
  | root hother => exact selector_cons_root hother customizer
  | symm _ ih => exact ih.symm
  | trans _ _ ihfg ihgh => exact ihfg.trans ihgh

/-- Alike fragments have one selector under every customizer. So the rule made of fragments, in
whatever media query, is found by alike ones. -/
theorem Alike.finds (h : f.Alike g) :
    (∀ customizer, f.selector customizer = g.selector customizer) ∧
      ∀ (maker : RuleMaker) (media : Value) (declared : Projected) (r : Rule),
        maker.make f media declared = .ok r →
          (∀ s : Stylesheet, maker.find? s g = .ok (s.find? r.selector)) ∧
          (r.isEmpty = false → ∀ (s : Stylesheet) path, ∃ id, (s.add r path).1.rule id = r ∧
            maker.find? (s.add r path).1 g = .ok (some id)) := by
  refine ⟨h.selector_eq, fun maker media declared r hmake => ?_⟩
  have hselector : g.selector maker.customizer = .ok r.selector := by
    rw [← h.selector_eq]
    exact (RuleMaker.make_selector hmake).1
  have hfind : ∀ s : Stylesheet, maker.find? s g = .ok (s.find? r.selector) := by
    intro s
    rw [RuleMaker.find?, hselector]
    rfl
  refine ⟨hfind, fun hfilled s path => ?_⟩
  obtain ⟨id, hrule, hid⟩ := s.exists_find?_add path hfilled
  exact ⟨id, hrule, by rw [hfind, hid]⟩

/-- Declares the token `ink`, inside of the main element. -/
def inkMaker : RuleMaker where
  customizer selector := "main " ++ selector
  registry := { properties := .ofList [("ink", "--ink")] }

/-- A rule for print, made of fragments in one order. -/
def inkRule : Rule where
  selector := "main .app.dark .card"
  media := "print"
  declarations := .ofList [("--ink", "black")]

theorem make_inkRule : inkMaker.make ⟨[":root", ".dark", ".app"], [".card"]⟩ "print"
    (.ofList [("ink", "black")]) = .ok inkRule := rfl

/-- It is found by the same fragments in another order, without `:root`. -/
theorem Alike.finds_inkRule :
    Alike ⟨[":root", ".dark", ".app"], [".card"]⟩ ⟨[".app", ".dark"], [".card"]⟩ ∧
      inkMaker.make ⟨[":root", ".dark", ".app"], [".card"]⟩ "print"
        (.ofList [("ink", "black")]) = .ok inkRule ∧ inkRule.isEmpty = false ∧
      ∃ id, (Stylesheet.add {} inkRule []).1.rule id = inkRule ∧
        inkMaker.find? (Stylesheet.add {} inkRule []).1 ⟨[".app", ".dark"], [".card"]⟩ =
          .ok (some id) := by
  have halike : Alike ⟨[":root", ".dark", ".app"], [".card"]⟩ ⟨[".app", ".dark"], [".card"]⟩ :=
    .trans (.root (.inr (by simp))) (.of_nodup (by simp) (by simp) (by simp) (by simp)
      (by simp [or_comm]) (by simp))
  refine ⟨halike, make_inkRule, rfl, ?_⟩
  exact (halike.finds.2 inkMaker "print" _ inkRule make_inkRule).2 rfl {} []

end Fragments

end DesignTokens.Selector
