import DesignTokens.Proofs.Build.Buildable
import DesignTokens.Proofs.Stylesheet.Computed

/-!
Computed values of a built sheet and of its minimal form. A rule styles an element that lies in
those of the rules on its path. Dropping a declaration leaves its value as it is where the element
around gives the same; the minimal form only asks for the same text. Where a context lies in a
state, the text may be declared for the state while the context gives another value to what the text
refers to.
-/

namespace DesignTokens

/-- The nested elements that a rule stands for, the innermost first: its own one and those of the
rules on its path. -/
def Stylesheet.elements (s : Stylesheet) (p : Placed) : List Declarations :=
  (s.rule p.rule).declarations :: p.path.reverse.map fun id => (s.rule id).declarations

/-- All properties of the rules of a sheet have the same values where the rules are those of another
sheet, in which they may have lost declarations. -/
def Stylesheet.SameValues (s m : Stylesheet) : Prop :=
  ∀ p ∈ s.placed.values, ∀ property, (s.rule p.rule).declarations.get? property ≠ none →
    ∀ value, Computes (s.elements p) property value ↔ Computes (m.elements p) property value

/-- The rule of a place and the last one it inherits from are reduced faithfully. -/
def Place.IsFaithful (s m : Stylesheet) (selector : Place → String) (q : Place) : Prop :=
  ∀ rest last, q.parents = rest ++ [last] →
    Faithful (s.declared (selector q)) (m.declared (selector q))
      (s.declared (selector last)) (m.declared (selector last))
      (rest.reverse.map fun a => s.declared (selector a))

/-- Only the rule of a context in a state inherits from more than one rule. -/
theorem Place.rest_of_parents {q last : Place} {rest : List Place}
    (h : q.parents = rest ++ [last]) :
    rest = [] ∨ ∃ x c on, q = .contextState x c on ∧ rest = [.root, .state x] := by
  obtain rfl : q.parents.dropLast = rest := by rw [h, List.dropLast_concat]
  cases q with
  | root => exact .inl rfl
  | state x => exact .inl rfl
  | context c on => exact .inl rfl
  | contextState x c on => exact .inr ⟨x, c, on, rfl, rfl⟩

theorem computes_iff_agree {elements elements' : List Declarations} {property : String} :
    (∀ value, Computes elements property value ↔ Computes elements' property value) ↔
      Agree elements' elements [.reference property] := by
  constructor
  · intro h text
    have htext := h (String.ofList text)
    rw [Computes, Computes, String.toList_ofList] at htext
    exact htext.symm
  · intro h value
    exact (h value.toList).symm

variable {N : Type} [Add N] [Sub N] [Mul N] [Div N] [LE N] [LT N] [DecidableLE N] [DecidableLT N]
  [OfScientific N] {space : ColorSpace N}

namespace SingleBuild.Minimized

variable {b : SingleBuild} {s m : Stylesheet} {q : Place} {property : String} {v w : Value}

/-! ### Elements of places -/

/-- What a rule drops is declared just so by the last rule it inherits from, if that declares it. -/
theorem eq_of_dropped (h : b.Minimized space s m) (hq : q ∈ b.theme.places) {rest : List Place}
    {last : Place} (hparents : q.parents = rest ++ [last])
    (hv : (s.declared (b.selector q)).get? property = some v)
    (hdropped : (m.declared (b.selector q)).get? property = none)
    (hw : (m.declared (b.selector last)).get? property = some w) : w = v := by
  have hne : q ≠ .root := by
    rintro rfl
    simp [Place.parents] at hparents
  have hinherited := h.inherited_of_dropped hq hne hv hdropped
  rw [hparents, List.map_append, List.map_singleton, Declarations.get?_overlay_append,
    Declarations.get?_overlay_cons, Declarations.overlay_nil, OrdMap.get?_empty, Option.none_or,
    hw, Option.some_or] at hinherited
  exact Option.some.inj hinherited

/-- The elements of a place in a sheet. -/
def elementsOf (b : SingleBuild) (s : Stylesheet) (q : Place) : List Declarations :=
  s.declared (b.selector q) :: q.parents.reverse.map fun a => s.declared (b.selector a)

/-- The elements of a placed rule are those of its place; rules that are missing on its path declare
nothing. -/
theorem agree_elements (h : b.Minimized space s m) {p : Placed}
    (hp : s.placed.get? (b.selector q) = some p)
    (hpath : p.path = (q.parents.map b.selector).filterMap s.find?) (pieces : List Piece) :
    Agree (s.elements p) (elementsOf b s q) pieces ∧
      Agree (m.elements p) (elementsOf b m q) pieces := by
  have hreverse : p.path.reverse = q.parents.reverse.filterMap fun a => s.find? (b.selector a) := by
    rw [hpath, List.filterMap_map, List.filterMap_reverse]
    rfl
  have hbefore : ∀ a, s.declared (b.selector a) =
      ((s.find? (b.selector a)).map fun id => (s.rule id).declarations).getD .empty := by
    intro a
    rw [Stylesheet.declared, Stylesheet.find?]
    cases s.placed.get? (b.selector a) <;> rfl
  have hafter : ∀ a, m.declared (b.selector a) =
      ((s.find? (b.selector a)).map fun id => (m.rule id).declarations).getD .empty :=
    fun a => h.minimal.declared_eq (b.selector a)
  have hfind : s.find? (b.selector q) = some p.rule := by rw [Stylesheet.find?, hp]; rfl
  rw [Stylesheet.elements, Stylesheet.elements, elementsOf, elementsOf, hreverse, hbefore q,
    hafter q, hfind]
  simp only [Option.map_some, Option.getD_some]
  refine ⟨Agree.cons (fun property => ?_) _ _, Agree.cons (fun property => ?_) _ _⟩
  · simp only [hbefore]
    exact Agree.filterMap _ _ _ _
  · simp only [hafter]
    exact Agree.filterMap _ _ _ _

/-- The values of a sheet are those at the places of its theme. -/
theorem sameValues_iff (h : b.Minimized space s m) :
    s.SameValues m ↔ ∀ q ∈ b.theme.places, ∀ property,
      (s.declared (b.selector q)).get? property ≠ none →
        Agree (elementsOf b m q) (elementsOf b s q) [.reference property] := by
  obtain ⟨root?, hbuilt⟩ := h.built
  constructor
  · intro hsame q hq property hdeclared
    have hmem := List.mem_map_of_mem (f := b.planned space) hq
    -- a rule that declares something stands in the sheet
    have hfilled : (b.rule space q).isEmpty = false := by
      cases hempty : (b.rule space q).isEmpty with
      | false => rfl
      | true =>
          rw [h.declared_eq hq, OrdMap.eq_empty_of_isEmpty hempty, OrdMap.get?_empty] at hdeclared
          exact absurd rfl hdeclared
    obtain ⟨id, -, hrule, hplace⟩ := hbuilt.follows.place _ hmem hfilled
    rw [Planned.selector, planned, ← selector_eq (hbuilt.made q hq)] at hplace
    obtain ⟨hbefore, hafter⟩ := h.agree_elements hplace rfl [.reference property]
    have hvalues := hsame _ (OrdMap.mem_values_iff.mpr ⟨_, hplace⟩) property (by
      rw [hrule]
      rwa [h.declared_eq hq] at hdeclared)
    exact (hafter.symm.trans (computes_iff_agree.mp hvalues)).trans hbefore
  · intro hplaces p hp property hdeclared
    obtain ⟨e, he, hfilled, -, hrule, hplace, hpath⟩ := hbuilt.follows.lists.mem_values hp
    obtain ⟨q, hq, rfl⟩ := List.mem_map.mp he
    rw [Planned.selector, planned, ← selector_eq (hbuilt.made q hq)] at hplace
    obtain ⟨hbefore, hafter⟩ := h.agree_elements hplace hpath [.reference property]
    rw [computes_iff_agree]
    refine (hafter.trans (hplaces q hq property ?_)).trans hbefore.symm
    rw [h.declared_eq hq]
    rwa [hrule] at hdeclared

/-! ### Faithful places -/

/-- On the element of a state all properties have the values they had, if its own ones have. -/
theorem agree_state (h : b.Minimized space s m) {x : OptionalState}
    (hx : Place.state x ∈ b.theme.places)
    (hown : ∀ property, (s.declared (b.selector (.state x))).get? property ≠ none →
      Agree (elementsOf b m (.state x)) (elementsOf b s (.state x)) [.reference property])
    (property : String) :
    Agree (elementsOf b m (.state x)) (elementsOf b s (.state x)) [.reference property] := by
  cases hbefore : (s.declared (b.selector (.state x))).get? property with
  | some v => exact hown property (by simp [hbefore])
  | none =>
      have hafter : (m.declared (b.selector (.state x))).get? property = none := by
        cases hv : (m.declared (b.selector (.state x))).get? property with
        | none => rfl
        | some v => rw [h.declared_sub hx hv] at hbefore; cases hbefore
      refine (Agree.inherited hafter).trans (Agree.trans ?_ (Agree.inherited hbefore).symm)
      simp only [Place.parents, List.reverse_singleton, List.map_singleton, h.root_eq]
      exact Agree.refl _ _

theorem agree_iff_faithful (h : b.Minimized space s m) (hq : q ∈ b.theme.places) {rest : List Place}
    {last : Place} (hparents : q.parents = rest ++ [last])
    (haround : ∀ property, Agree (rest.reverse.map fun a => m.declared (b.selector a))
      (rest.reverse.map fun a => s.declared (b.selector a)) [.reference property]) :
    (∀ property, (s.declared (b.selector q)).get? property ≠ none →
        Agree (elementsOf b m q) (elementsOf b s q) [.reference property]) ↔
      Faithful (s.declared (b.selector q)) (m.declared (b.selector q))
        (s.declared (b.selector last)) (m.declared (b.selector last))
        (rest.reverse.map fun a => s.declared (b.selector a)) := by
  have hreduced : ∀ property, Agree (elementsOf b m q) (m.declared (b.selector q) ::
      m.declared (b.selector last) :: rest.reverse.map fun a => s.declared (b.selector a))
        [.reference property] := by
    intro property
    simp only [elementsOf, hparents, List.reverse_append, List.reverse_singleton,
      List.singleton_append, List.map_cons]
    refine Agree.cons (fun other => Agree.cons (fun another => ?_) _ _) _ _
    exact haround another
  rw [← DesignTokens.agree_iff_faithful (fun property v => h.declared_sub hq)
    (fun property v w => h.eq_of_dropped hq hparents)]
  have hbefore : elementsOf b s q = s.declared (b.selector q) :: s.declared (b.selector last) ::
      rest.reverse.map fun a => s.declared (b.selector a) := by
    simp [elementsOf, hparents]
  rw [hbefore]
  constructor
  · intro hall property hown
    exact (hreduced property).symm.trans (hall property hown)
  · intro hall property hown
    exact (hreduced property).trans (hall property hown)

/-- Values stay as they are just if all places are faithful. -/
theorem sameValues_iff_faithful (h : b.Minimized space s m) :
    s.SameValues m ↔ ∀ q ∈ b.theme.places, q.IsFaithful s m b.selector := by
  rw [h.sameValues_iff]
  constructor
  · intro hsame q hq rest last hparents
    refine (h.agree_iff_faithful hq hparents fun property => ?_).mp (hsame q hq)
    obtain rfl | ⟨x, c, on, rfl, rfl⟩ := Place.rest_of_parents hparents
    · exact Agree.refl _ _
    · have hx := Theme.state_mem_places.mpr (Theme.contextState_mem_places.mp hq).1
      exact h.agree_state hx (hsame _ hx) property
  · intro hfaithful
    -- the theme's own rule loses nothing, and rules of states and contexts lie only below it
    have hbelow : ∀ q ∈ b.theme.places, ∀ last, q.parents = [last] → ∀ property,
        (s.declared (b.selector q)).get? property ≠ none →
          Agree (elementsOf b m q) (elementsOf b s q) [.reference property] :=
      fun q hq last hparents =>
        (h.agree_iff_faithful hq (hparents.trans (List.nil_append [last]).symm)
          fun _ => Agree.refl _ _).mpr (hfaithful q hq [] last hparents)
    intro q hq
    cases q with
    | root =>
        intro property _
        simp only [elementsOf, Place.parents, List.reverse_nil, List.map_nil, h.root_eq]
        exact Agree.refl _ _
    | state x => exact hbelow _ hq _ rfl
    | context c on => exact hbelow _ hq _ rfl
    | contextState x c on =>
        have hx := Theme.state_mem_places.mpr (Theme.contextState_mem_places.mp hq).1
        have hparents : (Place.contextState x c on).parents =
            [.root, .state x] ++ [.context c on] := rfl
        exact (h.agree_iff_faithful hq hparents (h.agree_state hx (hbelow _ hx _ rfl))).mpr
          (hfaithful _ hq _ _ hparents)

end SingleBuild.Minimized

/-! ### The sheet of `panel` -/

/-- The options that write the properties of `panelMaker` in place of references. -/
def panelOptions : ResolveOptions :=
  { useVars := true, properties := panelMaker.registry.properties }

/-- The sheet of `panel`. -/
def panelSheet : Stylesheet where
  rules := [
    { selector := ".p", declarations := .ofList [("--ink", "black"), ("--line", "gray")] },
    { selector := ".d.p", declarations := .ofList [("--ink", "black"), ("--line", "var(--ink)")] },
    { selector := ".p .c", declarations := .ofList [("--ink", "navy"), ("--line", "gray")] },
    { selector := ".c.p", declarations := .ofList [("--ink", "navy"), ("--line", "gray")] },
    { selector := ".d.p .c",
      declarations := .ofList [("--ink", "navy"), ("--line", "var(--ink)")] },
    { selector := ".c.d.p", declarations := .ofList [("--ink", "navy"), ("--line", "var(--ink)")] }]
  placed := .ofList [(".p", ⟨0, []⟩), (".d.p", ⟨1, [0]⟩), (".p .c", ⟨2, [0]⟩), (".c.p", ⟨3, [0]⟩),
    (".d.p .c", ⟨4, [0, 1, 2]⟩), (".c.d.p", ⟨5, [0, 1, 3]⟩)]

/-- Its minimal form: the rules of the context in the state are left empty. -/
def panelMinimal : Stylesheet where
  rules := [
    { selector := ".p", declarations := .ofList [("--ink", "black"), ("--line", "gray")] },
    { selector := ".d.p", declarations := .ofList [("--line", "var(--ink)")] },
    { selector := ".p .c", declarations := .ofList [("--ink", "navy")] },
    { selector := ".c.p", declarations := .ofList [("--ink", "navy")] },
    { selector := ".d.p .c", declarations := .empty },
    { selector := ".c.d.p", declarations := .empty }]
  placed := .ofList [(".p", ⟨0, []⟩), (".d.p", ⟨1, [0]⟩), (".p .c", ⟨2, [0]⟩), (".c.p", ⟨3, [0]⟩)]

theorem buildSingle_panel :
    buildSingle Cam16.space panelMaker panel none panelOptions = .ok panelSheet := rfl

theorem minimal_panelSheet : panelSheet.minimal = .ok panelMinimal := rfl

/-! ### Values that are kept -/

/-- In the minimal form of a built sheet all properties have their values just if every rule is
faithful. -/
theorem Theme.sameValues_minimal_iff {t : Theme} {maker : RuleMaker} {options : ResolveOptions}
    {s : Stylesheet} (h : t.Declarable maker)
    (hs : buildSingle space maker t none options = .ok s) :
    ∃ m, s.minimal = .ok m ∧
      (s.SameValues m ↔
        ∀ q ∈ t.places, q.IsFaithful s m (Place.selector maker.customizer t)) := by
  obtain ⟨r, m, -, hm, hmin⟩ := h.exists_minimized hs
  exact ⟨m, hm, hmin.sameValues_iff_faithful⟩

theorem Theme.sameValues_minimal_iff_panel :
    panel.Declarable panelMaker ∧
      buildSingle Cam16.space panelMaker panel none panelOptions = .ok panelSheet ∧
      ∃ m, panelSheet.minimal = .ok m ∧
        (panelSheet.SameValues m ↔
          ∀ q ∈ panel.places, q.IsFaithful panelSheet m
            (Place.selector panelMaker.customizer panel)) :=
  ⟨panel_buildable.toDeclarable, buildSingle_panel,
    sameValues_minimal_iff panel_buildable.toDeclarable buildSingle_panel⟩

/-! ### A value that is lost -/

/-- The place of the rule for the context in the state. -/
def darkCard : Placed := ⟨4, [0, 1, 2]⟩

theorem computes_panelSheet : Computes (panelSheet.elements darkCard) "--line" "navy" := by
  have hline : (panelSheet.rule 4).declarations.get? "--line" = some (.text "var(--ink)") := rfl
  have hink : (panelSheet.rule 4).declarations.get? "--ink" = some (.text "navy") := rfl
  rw [Computes, Stylesheet.elements, darkCard, Reads.reference_iff_of_own hline]
  have hpieces : Piece.ofValue (.text "var(--ink)") = [.reference "--ink"] := by decide
  rw [hpieces, Reads.reference_iff_of_own hink]
  exact Reads.chars _ "navy".toList

/-- In the minimal form the line is that of the state, whose ink is the theme's. -/
theorem computes_panelMinimal : Computes (panelMinimal.elements darkCard) "--line" "black" := by
  have hnone : (panelMinimal.rule 4).declarations.get? "--line" = none := rfl
  have hcontext : (panelMinimal.rule 2).declarations.get? "--line" = none := rfl
  have hstate : (panelMinimal.rule 1).declarations.get? "--line" = some (.text "var(--ink)") := rfl
  have hink : (panelMinimal.rule 1).declarations.get? "--ink" = none := rfl
  have hroot : (panelMinimal.rule 0).declarations.get? "--ink" = some (.text "black") := rfl
  rw [Computes, Stylesheet.elements, darkCard, Reads.reference_iff_of_inherited hnone]
  simp only [List.reverse_cons, List.reverse_nil, List.nil_append, List.cons_append, List.map_cons,
    List.map_nil]
  rw [Reads.reference_iff_of_inherited hcontext, Reads.reference_iff_of_own hstate]
  have hpieces : Piece.ofValue (.text "var(--ink)") = [.reference "--ink"] := by decide
  rw [hpieces, Reads.reference_iff_of_inherited hink, Reads.reference_iff_of_own hroot]
  exact Reads.chars _ "black".toList

theorem Theme.minimal_changes_panel :
    panel.Buildable Cam16.space panelMaker {} ∧
      ∃ s m, buildSingle Cam16.space panelMaker panel none panelOptions = .ok s ∧
        s.minimal = .ok m ∧ darkCard ∈ s.placed.values ∧
          (s.rule darkCard.rule).selector = ".d.p .c" ∧
          Computes (s.elements darkCard) "--line" "navy" ∧
          Computes (m.elements darkCard) "--line" "black" ∧ ¬ s.SameValues m := by
  have hmem : darkCard ∈ panelSheet.placed.values := by decide
  refine ⟨panel_buildable, panelSheet, panelMinimal, buildSingle_panel, minimal_panelSheet, hmem,
    rfl, computes_panelSheet, computes_panelMinimal, fun hsame => ?_⟩
  have hdeclared : (panelSheet.rule darkCard.rule).declarations.get? "--line" ≠ none := by
    have hline : (panelSheet.rule darkCard.rule).declarations.get? "--line" =
        some (.text "var(--ink)") := rfl
    simp [hline]
  have hnavy := (hsame darkCard hmem "--line" hdeclared "navy").mp computes_panelSheet
  have hcolours : "navy".toList = "black".toList := Reads.unique hnavy computes_panelMinimal
  exact absurd hcolours (by decide)

end DesignTokens
