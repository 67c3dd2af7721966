import DesignTokens.Proofs.Stylesheet.Change

/-!
What the minimal form of a grounded sheet declares. Nothing that a rule declared is lost, only moved
to what its path gives it; what is left stands in its old order; and a rule below others declares
nothing that it is given anyway, unless for a reference. Therefore the minimal form is final: it is
its own minimal form, although rules that were taken out still stand on paths.
-/

namespace DesignTokens

namespace Stylesheet

variable {s m : Stylesheet} {p : Placed} {property : String} {v : Value}

/-- What a rule declares in a sheet; a rule that is not there declares nothing. -/
def declaredBy (s : Stylesheet) (id : RuleId) : Declarations :=
  if (s.place? id).isSome then (s.rule id).declarations else .empty

/-- A sheet without what the rules of another are given by their paths anyway. -/
structure Condenses (m s : Stylesheet) : Prop where
  /-- A rule's path and the rule give together what the rule declared. -/
  effective : ∀ p ∈ s.placed.values, ∀ property v,
    (s.rule p.rule).declarations.get? property = some v →
      (Declarations.overlay ((p.path ++ [p.rule]).map m.declaredBy)).get? property = some v
  kept : ∀ p ∈ s.placed.values,
    (m.declaredBy p.rule).entries.Sublist (s.rule p.rule).declarations.entries
  top : ∀ p ∈ s.placed.values, p.path = [] →
    p ∈ m.placed.values ∧ m.rule p.rule = s.rule p.rule
  /-- Rules stay in order, at their selectors and with their paths. -/
  order : m.placed.entries.Sublist s.placed.entries
  head : ∀ p ∈ m.placed.values, (m.rule p.rule).selector = (s.rule p.rule).selector ∧
    (m.rule p.rule).media = (s.rule p.rule).media
  filled : ∀ p ∈ m.placed.values, p.path ≠ [] → (m.rule p.rule).isEmpty = false
  /-- What a rule is given anyway it declares for a reference only, and then it is neither inside a
  media query nor page-wide. -/
  needed : ∀ p ∈ m.placed.values, p.path ≠ [] → ∀ property v,
    (m.rule p.rule).declarations.get? property = some v →
      (Declarations.overlay (p.path.map m.declaredBy)).get? property = some v →
        (∃ text target, v = .text text ∧ firstVar? text = some target) ∧
          (m.rule p.rule).isMedia = false ∧
          Selector.isPageWide (m.rule p.rule).selector = false

theorem setRule_self (s : Stylesheet) (id : RuleId) : s.setRule id (s.rule id) = s := by
  have hset : s.rules.set id (s.rule id) = s.rules := by
    by_cases hid : id < s.rules.length
    · simp [rule, hid]
    · exact List.set_eq_of_length_le (Nat.le_of_not_lt hid)
  rw [setRule, hset]

namespace IsMinimalOf

theorem mem_values_iff (h : m.IsMinimalOf s) :
    p ∈ m.placed.values ↔
      p ∈ s.placed.values ∧ (p.path = [] ∨ (s.reducedIn m p).isEmpty = false) := by
  simp only [OrdMap.mem_values_iff, h.placed, OrdMap.get?_filter, Option.filter_eq_some_iff,
    Bool.or_eq_true, List.isEmpty_iff, Bool.not_eq_true', exists_and_right]

theorem declarations_eq (h : m.IsMinimalOf s) (hp : p ∈ s.placed.values) :
    (m.rule p.rule).declarations = s.reducedIn m p := by
  rw [h.rule p hp]

theorem place?_eq (h : m.IsMinimalOf s) (hs : s.Grounded) (hp : p ∈ m.placed.values) :
    m.place? p.rule = some p := by
  obtain ⟨hmem, hkept⟩ := h.mem_values_iff.mp hp
  have hget : m.placed.get? (s.rule p.rule).selector = some p := by
    rw [h.placed, OrdMap.get?_filter, hs.rooted.get?_selector hmem, Option.filter_eq_some_iff]
    exact ⟨rfl, by simpa using hkept⟩
  simp [place?, h.rule p hmem, hget]

/-- A rule that is taken out has no declarations left either. -/
theorem declaredBy_eq (h : m.IsMinimalOf s) (hs : s.Grounded) (hp : p ∈ s.placed.values) :
    m.declaredBy p.rule = s.reducedIn m p := by
  rw [declaredBy, h.declarations_eq hp]
  split
  · rfl
  · next hnone =>
      refine (OrdMap.eq_empty_of_isEmpty ?_).symm
      by_contra hfilled
      rw [Bool.not_eq_true] at hfilled
      have hplace := h.place?_eq hs (h.mem_values_iff.mpr ⟨hp, .inr hfilled⟩)
      simp [hplace] at hnone

/-- What the path of a rule gives it is what the rule was compared with. -/
theorem overlay_path (h : m.IsMinimalOf s) (hs : s.Grounded) (hp : p ∈ s.placed.values) :
    Declarations.overlay (p.path.map m.declaredBy) = m.inherited p.path := by
  rw [inherited_eq_overlay]
  congr 1
  refine List.map_congr_left fun id hid => ?_
  obtain ⟨q, hq, rfl, -⟩ := hs.path p hp id hid
  rw [h.declaredBy_eq hs hq, h.declarations_eq hq]

theorem get?_effective (h : m.IsMinimalOf s) (hs : s.Grounded) (hp : p ∈ s.placed.values)
    (hv : (s.rule p.rule).declarations.get? property = some v) :
    (Declarations.overlay ((p.path ++ [p.rule]).map m.declaredBy)).get? property = some v := by
  rw [List.map_append, Declarations.get?_overlay_append, h.overlay_path hs hp, List.map_singleton,
    Declarations.get?_overlay_cons, Declarations.overlay_nil, OrdMap.get?_empty, Option.none_or,
    h.declaredBy_eq hs hp, reducedIn]
  by_cases hpath : p.path = []
  · rw [if_pos hpath, hv, Option.some_or]
  · rw [if_neg hpath, OrdMap.get?_filter, hv, Option.filter_some]
    split
    · rfl
    · next hdropped =>
        rw [Bool.not_eq_true] at hdropped
        exact Declarations.get?_parent_of_dropped (hs.textual p hp hpath) hv hdropped

/-- What a rule keeps although it is given the same is kept for a reference. -/
theorem refers_of_given (h : m.IsMinimalOf s) (hs : s.Grounded) (hp : p ∈ s.placed.values)
    (hpath : p.path ≠ []) (hv : (m.rule p.rule).declarations.get? property = some v)
    (hgiven : (m.inherited p.path).get? property = some v) :
    (∃ text target, v = .text text ∧ firstVar? text = some target) ∧
      comparesByValue (s.rule p.rule) = false := by
  rw [h.declarations_eq hp, reducedIn, if_neg hpath, OrdMap.get?_filter,
    Option.filter_eq_some_iff] at hv
  obtain ⟨hown, hkeeps⟩ := hv
  obtain ⟨text, rfl⟩ := hs.textual p hp hpath property v hown
  obtain hdiffers | ⟨hbyValue, target, -, -, hvar, -⟩ := Declarations.keeps_eq_true_iff.mp hkeeps
  · rw [Declarations.isInherited_text_iff.mpr hgiven] at hdiffers
    cases hdiffers
  · exact ⟨⟨text, target, rfl, Except.ok.inj hvar⟩, hbyValue⟩

theorem condenses (h : m.IsMinimalOf s) (hs : s.Grounded) : m.Condenses s where
  effective p hp property v hv := h.get?_effective hs hp hv
  kept p hp := by
    rw [h.declaredBy_eq hs hp, reducedIn]
    by_cases hpath : p.path = []
    · rw [if_pos hpath]
    · rw [if_neg hpath]
      exact List.filter_sublist
  top p hp hpath := by
    refine ⟨h.mem_values_iff.mpr ⟨hp, .inl hpath⟩, ?_⟩
    rw [h.rule p hp, reducedIn, if_pos hpath]
  order := by
    rw [h.placed]
    exact List.filter_sublist
  head p hp := by
    rw [h.rule p (h.mem_values_iff.mp hp).1]
    exact ⟨rfl, rfl⟩
  filled p hp hpath := by
    obtain ⟨hmem, hkept⟩ := h.mem_values_iff.mp hp
    rw [Rule.isEmpty, h.declarations_eq hmem]
    exact hkept.resolve_left hpath
  needed p hp hpath property v hv hgiven := by
    have hmem := (h.mem_values_iff.mp hp).1
    rw [h.overlay_path hs hmem] at hgiven
    obtain ⟨hrefers, hbyValue⟩ := h.refers_of_given hs hmem hpath hv hgiven
    rw [comparesByValue, Bool.or_eq_false_iff] at hbyValue
    rw [h.rule p hmem]
    exact ⟨hrefers, hbyValue⟩

/-! ### Reducing again -/

/-- A rule of the minimal form is reduced already. -/
theorem reduceRule_eq_self (h : m.IsMinimalOf s) (hs : s.Grounded) (hp : p ∈ m.placed.values) :
    m.reduceRule p.rule = .ok m := by
  obtain ⟨hmem, hkept⟩ := h.mem_values_iff.mp hp
  have hpath : m.path p.rule = .ok p.path := by
    simp [path, h.place?_eq hs hp]
  rw [reduceRule, hpath]
  cases hcase : p.path with
  | nil => rfl
  | cons first rest =>
      have hbelow : p.path ≠ [] := by simp [hcase]
      have hsame : comparesByValue (m.rule p.rule) = comparesByValue (s.rule p.rule) := by
        rw [h.rule p hmem]
        rfl
      have hreduced : (m.rule p.rule).declarations.reduced (m.inherited (first :: rest))
          (comparesByValue (m.rule p.rule)) = .ok (m.rule p.rule).declarations := by
        rw [h.declarations_eq hmem, hsame, ← hcase, reducedIn, if_neg hbelow]
        exact Declarations.reduced_filter_keeps (hs.textual p hmem hbelow) _ _
      have hfilled : (m.rule p.rule).declarations.isEmpty = false := by
        rw [h.declarations_eq hmem]
        exact hkept.resolve_left hbelow
      have hunchanged : m.setRule p.rule { m.rule p.rule with
          declarations := (m.rule p.rule).declarations } = m := setRule_self m p.rule
      refine Outcome.bind_eq_ok.mpr ⟨_, rfl, Outcome.bind_eq_ok.mpr ⟨_, hreduced, ?_⟩⟩
      simp [hfilled, hunchanged]

end IsMinimalOf

/-- A sheet whose rules stand below rules of the sheet with shorter paths has a minimal form, which
loses nothing that a rule declared and keeps no more than references need. -/
theorem Grounded.exists_condensed (hs : s.Grounded) : ∃ m, s.minimal = .ok m ∧ m.Condenses s := by
  obtain ⟨m, hm, hminimal⟩ := hs.exists_minimal
  exact ⟨m, hm, hminimal.condenses hs⟩

/-- A page that can be switched to dark; `--edge` and `--rim` refer to each other. -/
def page : Stylesheet where
  rules := [
    { selector := ":root", declarations := .ofList [("--ink", "black"), ("--line", "var(--ink)"),
      ("--edge", "var(--rim)"), ("--rim", "var(--edge)")] },
    { selector := ".dark", declarations := .ofList [("--ink", "white"), ("--line", "var(--ink)"),
      ("--edge", "var(--rim)"), ("--rim", "var(--edge)")] },
    { selector := ".nav", declarations := .ofList [("--line", "var(--ink)")] },
    { selector := ".dark .nav", media := "print", declarations := .ofList [("--ink", "navy")] }]
  placed := .ofList [(":root", ⟨0, []⟩), (".dark .nav", ⟨3, [0, 1, 2]⟩), (".dark", ⟨1, [0]⟩),
    (".nav", ⟨2, [0]⟩)]

theorem page_grounded : page.Grounded where
  selector selector p hget := by
    have hall : ∀ e ∈ page.placed.entries, (page.rule e.2.rule).selector = e.1 := by decide
    exact hall _ (OrdMap.mem_entries_iff.mpr hget)
  known := by decide
  path := by decide
  textual p hp _ := by
    have hall : ∀ p ∈ page.placed.values, ∀ e ∈ (page.rule p.rule).declarations.entries,
        e.2.text?.isSome = true := by decide
    exact Declarations.textual_of_entries (hall p hp)

theorem exists_condensed_page :
    page.Grounded ∧ ∃ m, page.minimal = .ok m ∧ m.Condenses page :=
  ⟨page_grounded, page_grounded.exists_condensed⟩

/-- The text of `--line` is kept for the changed `--ink`, and the rule of `.nav` is left empty. -/
example : (page.minimal).map (fun m => m.rules.map fun r => r.declarations.keys) =
    .ok [["--ink", "--line", "--edge", "--rim"], ["--ink", "--line"], [], ["--ink"]] := rfl

/-- The minimal form of such a sheet is its own minimal form. -/
theorem Grounded.minimal_minimal (hs : s.Grounded) :
    ∃ m, s.minimal = .ok m ∧ m.minimal = .ok m := by
  obtain ⟨m, hm, hminimal⟩ := hs.exists_minimal
  refine ⟨m, hm, Outcome.foldlM_eq_self fun id hid => ?_⟩
  obtain ⟨p, hp, rfl⟩ := List.mem_map.mp (m.byDepth_eq ▸ hid)
  exact hminimal.reduceRule_eq_self hs (mem_depthOrder.mp hp)

/-- Here the rule of `.nav` is taken out and still stands on a path. -/
theorem minimal_minimal_page :
    page.Grounded ∧ ∃ m, page.minimal = .ok m ∧ m.minimal = .ok m :=
  ⟨page_grounded, page_grounded.minimal_minimal⟩

end Stylesheet

end DesignTokens
