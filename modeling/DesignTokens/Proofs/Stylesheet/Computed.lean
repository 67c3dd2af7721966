import DesignTokens.Proofs.Stylesheet.Plan

/-!
Computed values of properties on nested elements. Each element carries declarations. A property that
an element declares has there its text, with every reference replaced by the value that the property
it names has on the same element; any other property has its value on the element around.

A property may have no value: it may be declared nowhere, or refer to itself. Therefore values are
given by a relation, which holds of at most one value.
-/

namespace DesignTokens

/-! ### Texts with references -/

/-- A part of a declared text. -/
inductive Piece where
  | char (c : Char)
  | reference (property : String)
  deriving DecidableEq

namespace Piece

/-- The pieces of a text after some characters that are skipped. -/
def ofChars : (skip : Nat) → List Char → List Piece
  | _, [] => []
  | skip + 1, _ :: cs => ofChars skip cs
  | 0, c :: cs =>
    match varAtFront? (c :: cs) with
    -- the reference goes on up to its closing parenthesis
    | some name => reference (String.ofList name) :: ofChars (name.length + 4) cs
    | none => char c :: ofChars 0 cs

def ofText (text : String) : List Piece := ofChars 0 text.toList

/-- The pieces of a declared value. -/
def ofValue (v : Value) : List Piece := ofText v.display

end Piece

/-! ### Values on nested elements -/

/-- What pieces read as on the first of the given elements; each element lies in the next one. -/
inductive Reads : List Declarations → List Piece → List Char → Prop
  | done {elements : List Declarations} : Reads elements [] []
  | char {elements : List Declarations} {c : Char} {pieces : List Piece} {text : List Char}
      (rest : Reads elements pieces text) : Reads elements (.char c :: pieces) (c :: text)
  | own {d : Declarations} {around : List Declarations} {property : String} {v : Value}
      {pieces : List Piece} {value text : List Char} (h : d.get? property = some v)
      (head : Reads (d :: around) (Piece.ofValue v) value)
      (rest : Reads (d :: around) pieces text) :
      Reads (d :: around) (.reference property :: pieces) (value ++ text)
  | inherited {d : Declarations} {around : List Declarations} {property : String}
      {pieces : List Piece} {value text : List Char} (h : d.get? property = none)
      (head : Reads around [.reference property] value) (rest : Reads (d :: around) pieces text) :
      Reads (d :: around) (.reference property :: pieces) (value ++ text)

/-- A property's value on the first of the given elements. -/
def Computes (elements : List Declarations) (property value : String) : Prop :=
  Reads elements [.reference property] value.toList

namespace Reads

variable {elements around : List Declarations} {d : Declarations} {property : String} {v : Value}
  {pieces : List Piece} {text : List Char}

/-- A text without references reads as it is. -/
theorem chars (elements : List Declarations) (text : List Char) :
    Reads elements (text.map .char) text := by
  induction text with
  | nil => exact done
  | cons c text ih => exact char ih

theorem cons_reference_iff : Reads elements (.reference property :: pieces) text ↔
    ∃ value rest, Reads elements [.reference property] value ∧ Reads elements pieces rest ∧
      text = value ++ rest := by
  constructor
  · intro h
    cases h with
    | @own d around _ v _ value rest hv hhead hrest =>
        exact ⟨value, rest, by simpa using own hv hhead done, hrest, rfl⟩
    | @inherited d around _ _ value rest hv hhead hrest =>
        exact ⟨value, rest, by simpa using inherited hv hhead done, hrest, rfl⟩
  · rintro ⟨value, rest, hvalue, hrest, rfl⟩
    cases hvalue with
    | own hv hhead hdone =>
        cases hdone
        rw [List.append_nil]
        exact own hv hhead hrest
    | inherited hv hhead hdone =>
        cases hdone
        rw [List.append_nil]
        exact inherited hv hhead hrest

theorem reference_iff_of_own (h : d.get? property = some v) :
    Reads (d :: around) [.reference property] text ↔
      Reads (d :: around) (Piece.ofValue v) text := by
  constructor
  · intro hread
    cases hread with
    | own hv hhead hdone =>
        obtain rfl := Option.some.inj (h.symm.trans hv)
        cases hdone
        rwa [List.append_nil]
    | inherited hv _ _ => simp [h] at hv
  · intro hread
    simpa using own h hread done

theorem reference_iff_of_inherited (h : d.get? property = none) :
    Reads (d :: around) [.reference property] text ↔ Reads around [.reference property] text := by
  constructor
  · intro hread
    cases hread with
    | own hv _ _ => simp [h] at hv
    | inherited _ hhead hdone =>
        cases hdone
        rwa [List.append_nil]
  · intro hread
    simpa using inherited h hread done

theorem of_references {elements' : List Declarations} (h : Reads elements pieces text)
    (hrefs : ∀ property, .reference property ∈ pieces → ∀ value,
      Reads elements [.reference property] value → Reads elements' [.reference property] value) :
    Reads elements' pieces text := by
  induction pieces generalizing text with
  | nil =>
      cases h
      exact done
  | cons piece pieces ih =>
      have htail := fun property hmem => hrefs property (List.mem_cons_of_mem piece hmem)
      cases piece with
      | char c =>
          cases h with
          | char hrest => exact char (ih hrest htail)
      | reference property =>
          obtain ⟨value, rest, hvalue, hrest, rfl⟩ := cons_reference_iff.mp h
          exact cons_reference_iff.mpr
            ⟨value, rest, hrefs property List.mem_cons_self value hvalue, ih hrest htail, rfl⟩

theorem of_around {around around' : List Declarations} (h : Reads (d :: around) pieces text)
    (haround : ∀ property value, Reads around [.reference property] value →
      Reads around' [.reference property] value) : Reads (d :: around') pieces text := by
  generalize hall : d :: around = elements at h
  induction h with
  | done => exact done
  | char _ ih => exact char (ih hall)
  | own hv _ _ ihhead ihrest =>
      obtain ⟨rfl, rfl⟩ := List.cons.inj hall
      exact own hv (ihhead rfl) (ihrest rfl)
  | inherited hv hhead _ _ ihrest =>
      obtain ⟨rfl, rfl⟩ := List.cons.inj hall
      exact inherited hv (haround _ _ hhead) (ihrest rfl)

/-- Pieces read as one text at most. -/
theorem unique {text' : List Char} (h : Reads elements pieces text)
    (h' : Reads elements pieces text') : text = text' := by
  induction h generalizing text' with
  | done => cases h'; rfl
  | char _ ih =>
      cases h' with
      | char hrest => rw [ih hrest]
  | own hv _ _ ihhead ihrest =>
      cases h' with
      | own hv' hhead hrest =>
          obtain rfl := Option.some.inj (hv.symm.trans hv')
          rw [ihhead hhead, ihrest hrest]
      | inherited hv' _ _ => simp [hv] at hv'
  | inherited hv _ _ ihhead ihrest =>
      cases h' with
      | own hv' _ _ => simp [hv] at hv'
      | inherited _ hhead hrest => rw [ihhead hhead, ihrest hrest]

end Reads

/-! ### Elements that agree -/

/-- Pieces read alike on two elements: as one text, or as none. -/
def Agree (elements elements' : List Declarations) (pieces : List Piece) : Prop :=
  ∀ text, Reads elements pieces text ↔ Reads elements' pieces text

namespace Agree

variable {elements elements' elements'' around around' : List Declarations} {d : Declarations}
  {property : String} {v : Value} {pieces : List Piece}

theorem refl (elements : List Declarations) (pieces : List Piece) :
    Agree elements elements pieces := fun _ => Iff.rfl

theorem symm (h : Agree elements elements' pieces) : Agree elements' elements pieces :=
  fun text => (h text).symm

theorem trans (h : Agree elements elements' pieces) (h' : Agree elements' elements'' pieces) :
    Agree elements elements'' pieces := fun text => (h text).trans (h' text)

/-- Pieces read alike if the properties they refer to do. -/
theorem of_references (h : ∀ property, .reference property ∈ pieces →
    Agree elements elements' [.reference property]) : Agree elements elements' pieces :=
  fun _ => ⟨fun hread => hread.of_references fun property hmem value => (h property hmem value).mp,
    fun hread => hread.of_references fun property hmem value => (h property hmem value).mpr⟩

/-- Elements around matter by the values of properties there. -/
theorem cons (h : ∀ property, Agree around around' [.reference property]) (d : Declarations)
    (pieces : List Piece) : Agree (d :: around) (d :: around') pieces :=
  fun _ => ⟨fun hread => hread.of_around fun property value => (h property value).mp,
    fun hread => hread.of_around fun property value => (h property value).mpr⟩

theorem inherited (h : d.get? property = none) :
    Agree (d :: around) around [.reference property] :=
  fun _ => Reads.reference_iff_of_inherited h

/-- A property with one text on two elements has one value there if the text reads alike. -/
theorem own_iff {d' : Declarations} (h : d.get? property = some v)
    (h' : d'.get? property = some v) :
    Agree (d :: around) (d' :: around') [.reference property] ↔
      Agree (d :: around) (d' :: around') (Piece.ofValue v) := by
  simp only [Agree, Reads.reference_iff_of_own h, Reads.reference_iff_of_own h']

/-- An element without declarations reads as the one around. -/
theorem empty (around : List Declarations) (pieces : List Piece) :
    Agree (.empty :: around) around pieces :=
  of_references fun property _ => inherited (OrdMap.get?_empty property)

/-- Elements that are missing are elements without declarations. -/
theorem filterMap {α β : Type} (f : α → Option β) (g : β → Declarations) (xs : List α)
    (pieces : List Piece) :
    Agree ((xs.filterMap f).map g) (xs.map fun x => ((f x).map g).getD .empty) pieces := by
  induction xs generalizing pieces with
  | nil => exact refl _ _
  | cons x xs ih =>
      cases hx : f x with
      | none =>
          simp only [List.filterMap_cons, hx, List.map_cons, Option.map_none, Option.getD_none]
          exact (ih pieces).trans (empty _ pieces).symm
      | some y =>
          simp only [List.filterMap_cons, hx, List.map_cons, Option.map_some, Option.getD_some]
          exact cons (fun property => ih [.reference property]) (g y) pieces

end Agree

/-! ### Reducing two elements -/

/-- A rule, the last rule on its path and what both keep, on the elements of the other rules on the
path: what they no longer declare is declared by another one just so, and reads as it did. Only what
neither of the two keeps has to be looked at by its value, and texts that refer to what the rule
itself does not give. -/
structure Faithful (own kept last lastKept : Declarations) (around : List Declarations) : Prop where
  /-- A property that neither keeps has its value from around. -/
  dropped : ∀ property, own.get? property ≠ none → kept.get? property = none →
    lastKept.get? property = none → Agree around (own :: last :: around) [.reference property]
  /-- A text that the rule keeps may refer to a property that it never declared. -/
  keptText : ∀ property v, kept.get? property = some v →
    (∃ other, .reference other ∈ Piece.ofValue v ∧ own.get? other = none) →
      Agree (kept :: lastKept :: around) (own :: last :: around) (Piece.ofValue v)
  /-- A text that only the last rule on the path keeps may refer to such a property too, or to one
  that the rule keeps. -/
  leftText : ∀ property v, own.get? property = some v → kept.get? property = none →
    lastKept.get? property = some v →
      (∃ other, .reference other ∈ Piece.ofValue v ∧
        (own.get? other = none ∨ kept.get? other ≠ none)) →
          Agree (lastKept :: around) (own :: last :: around) (Piece.ofValue v)

namespace Faithful

variable {own kept last lastKept : Declarations} {around : List Declarations}

/-- Before, a rule's own properties have the values they have after. -/
theorem reads_before (h : Faithful own kept last lastKept around)
    (hsub : ∀ property v, kept.get? property = some v → own.get? property = some v)
    (hsame : ∀ property v w, own.get? property = some v → kept.get? property = none →
      lastKept.get? property = some w → w = v) {elements : List Declarations}
    {pieces : List Piece} {text : List Char} (hread : Reads elements pieces text) :
    (elements = kept :: lastKept :: around →
        (∀ other, .reference other ∈ pieces → own.get? other ≠ none) →
          Reads (own :: last :: around) pieces text) ∧
      (elements = lastKept :: around →
        (∀ other, .reference other ∈ pieces → own.get? other ≠ none ∧ kept.get? other = none) →
          Reads (own :: last :: around) pieces text) := by
  -- both elements go along in one induction, as what the rule inherits is read on the other one
  induction hread with
  | done => exact ⟨fun _ _ => .done, fun _ _ => .done⟩
  | char _ ih =>
      refine ⟨fun hall hrefs => .char (ih.1 hall ?_), fun hall hrefs => .char (ih.2 hall ?_)⟩
      · exact fun other hmem => hrefs other (List.mem_cons_of_mem _ hmem)
      · exact fun other hmem => hrefs other (List.mem_cons_of_mem _ hmem)
  | @own d _ property v _ value _ hv hhead _ ihhead ihrest =>
      refine ⟨fun hall hrefs => ?_, fun hall hrefs => ?_⟩
      · obtain ⟨rfl, rfl⟩ := List.cons.inj hall
        have hrest := ihrest.1 rfl fun other hmem => hrefs other (List.mem_cons_of_mem _ hmem)
        by_cases hout : ∃ other, .reference other ∈ Piece.ofValue v ∧ own.get? other = none
        · exact .own (hsub _ _ hv) ((h.keptText _ _ hv hout value).mp hhead) hrest
        · exact .own (hsub _ _ hv)
            (ihhead.1 rfl fun other hmem hnone => hout ⟨other, hmem, hnone⟩) hrest
      · obtain ⟨rfl, rfl⟩ := List.cons.inj hall
        have hrest := ihrest.2 rfl fun other hmem => hrefs other (List.mem_cons_of_mem _ hmem)
        obtain ⟨hown, hnone⟩ := hrefs property List.mem_cons_self
        obtain ⟨w, hw⟩ := Option.ne_none_iff_exists'.mp hown
        obtain rfl := hsame _ _ _ hw hnone hv
        by_cases hout : ∃ other, .reference other ∈ Piece.ofValue v ∧
            (own.get? other = none ∨ kept.get? other ≠ none)
        · exact .own hw ((h.leftText _ _ hw hnone hv hout value).mp hhead) hrest
        · refine .own hw (ihhead.2 rfl fun other hmem => ?_) hrest
          by_contra hother
          exact hout ⟨other, hmem, by tauto⟩
  | @inherited d _ property _ value _ hv hhead _ ihhead ihrest =>
      refine ⟨fun hall hrefs => ?_, fun hall hrefs => ?_⟩
      · obtain ⟨rfl, rfl⟩ := List.cons.inj hall
        have hrest := ihrest.1 rfl fun other hmem => hrefs other (List.mem_cons_of_mem _ hmem)
        have hvalue := ihhead.2 rfl fun other hmem => by
          obtain ⟨rfl⟩ := List.mem_singleton.mp hmem
          exact ⟨hrefs property List.mem_cons_self, hv⟩
        exact Reads.cons_reference_iff.mpr ⟨_, _, hvalue, hrest, rfl⟩
      · obtain ⟨rfl, rfl⟩ := List.cons.inj hall
        have hrest := ihrest.2 rfl fun other hmem => hrefs other (List.mem_cons_of_mem _ hmem)
        obtain ⟨hown, hnone⟩ := hrefs property List.mem_cons_self
        exact Reads.cons_reference_iff.mpr
          ⟨_, _, (h.dropped property hown hnone hv value).mp hhead, hrest, rfl⟩

/-- After, a rule's own properties have the values they had before. -/
theorem reads_after (h : Faithful own kept last lastKept around)
    (hsub : ∀ property v, kept.get? property = some v → own.get? property = some v)
    (hsame : ∀ property v w, own.get? property = some v → kept.get? property = none →
      lastKept.get? property = some w → w = v) {elements : List Declarations}
    {pieces : List Piece} {text : List Char} (hread : Reads elements pieces text)
    (hall : elements = own :: last :: around) :
    ((∀ other, .reference other ∈ pieces → own.get? other ≠ none) →
        Reads (kept :: lastKept :: around) pieces text) ∧
      ((∀ other, .reference other ∈ pieces → own.get? other ≠ none ∧ kept.get? other = none) →
        Reads (lastKept :: around) pieces text) := by
  induction hread with
  | done => exact ⟨fun _ => .done, fun _ => .done⟩
  | char _ ih =>
      refine ⟨fun hrefs => .char ((ih hall).1 ?_), fun hrefs => .char ((ih hall).2 ?_)⟩
      · exact fun other hmem => hrefs other (List.mem_cons_of_mem _ hmem)
      · exact fun other hmem => hrefs other (List.mem_cons_of_mem _ hmem)
  | @own d _ property v _ value _ hv hhead _ ihhead ihrest =>
      obtain ⟨rfl, rfl⟩ := List.cons.inj hall
      -- what the rule drops is found on the last rule of its path, or around
      have habove : kept.get? property = none →
          Reads (lastKept :: around) [.reference property] value := by
        intro hnone
        cases hlast : lastKept.get? property with
        | none =>
            have hvalue := (Reads.reference_iff_of_own hv).mpr hhead
            have hown : d.get? property ≠ none := by simp [hv]
            exact (Reads.reference_iff_of_inherited hlast).mpr
              ((h.dropped property hown hnone hlast value).mpr hvalue)
        | some w =>
            obtain rfl := hsame _ _ _ hv hnone hlast
            rw [Reads.reference_iff_of_own hlast]
            by_cases hout : ∃ other, .reference other ∈ Piece.ofValue w ∧
                (d.get? other = none ∨ kept.get? other ≠ none)
            · exact (h.leftText _ _ hv hnone hlast hout value).mpr hhead
            · refine (ihhead rfl).2 fun other hmem => ?_
              by_contra hother
              exact hout ⟨other, hmem, by tauto⟩
      refine ⟨fun hrefs => ?_, fun hrefs => ?_⟩
      · have hrest := (ihrest rfl).1 fun other hmem => hrefs other (List.mem_cons_of_mem _ hmem)
        cases hkept : kept.get? property with
        | none => exact .inherited hkept (habove hkept) hrest
        | some w =>
            obtain rfl := Option.some.inj (hv.symm.trans (hsub _ _ hkept))
            by_cases hout : ∃ other, .reference other ∈ Piece.ofValue v ∧ d.get? other = none
            · exact .own hkept ((h.keptText _ _ hkept hout value).mpr hhead) hrest
            · exact .own hkept
                ((ihhead rfl).1 fun other hmem hnone => hout ⟨other, hmem, hnone⟩) hrest
      · have hrest := (ihrest rfl).2 fun other hmem => hrefs other (List.mem_cons_of_mem _ hmem)
        obtain ⟨-, hnone⟩ := hrefs property List.mem_cons_self
        exact Reads.cons_reference_iff.mpr ⟨_, _, habove hnone, hrest, rfl⟩
  | @inherited d _ property _ value _ hv hhead _ _ _ =>
      obtain ⟨rfl, rfl⟩ := List.cons.inj hall
      refine ⟨fun hrefs => ?_, fun hrefs => ?_⟩
      · exact absurd hv (hrefs property List.mem_cons_self)
      · exact absurd hv (hrefs property List.mem_cons_self).1

end Faithful

/-- Reducing a rule and the last rule on its path leaves the values of the rule's properties as they
are just if that is faithful. -/
theorem agree_iff_faithful {own kept last lastKept : Declarations} {around : List Declarations}
    (hsub : ∀ property v, kept.get? property = some v → own.get? property = some v)
    (hsame : ∀ property v w, own.get? property = some v → kept.get? property = none →
      lastKept.get? property = some w → w = v) :
    (∀ property, own.get? property ≠ none →
        Agree (kept :: lastKept :: around) (own :: last :: around) [.reference property]) ↔
      Faithful own kept last lastKept around := by
  constructor
  · intro h
    refine ⟨?_, ?_, ?_⟩
    · intro property hown hkept hlast
      exact (((Agree.inherited hkept).trans (Agree.inherited hlast)).symm).trans (h property hown)
    · intro property v hv _
      exact (Agree.own_iff hv (hsub property v hv)).mp (h property (by simp [hsub property v hv]))
    · intro property v hv hkept hlast _
      exact (Agree.own_iff hlast hv).mp
        ((Agree.inherited hkept).symm.trans (h property (by simp [hv])))
  · intro h property hown text
    have hrefs : ∀ other, Piece.reference other ∈ [Piece.reference property] →
        own.get? other ≠ none := by
      intro other hmem
      obtain ⟨rfl⟩ := List.mem_singleton.mp hmem
      exact hown
    exact ⟨fun hread => (h.reads_before hsub hsame hread).1 rfl hrefs,
      fun hread => (h.reads_after hsub hsame hread rfl).1 hrefs⟩

end DesignTokens
