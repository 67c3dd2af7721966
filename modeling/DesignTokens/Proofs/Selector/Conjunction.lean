import DesignTokens.Proofs.Selector.Compose
import DesignTokens.Proofs.Selector.Reading

/-!
What a composed selector means. The fragments of a compound stand in the order of their texts, with
nothing between them. Classes are told apart by their dots, but a type has no mark of its own:
behind a class it goes on with the name of that class. Types that start with a hyphen come before
all classes, the others after them. So a compound is the conjunction of its fragments just where no
class stands beside a type of the latter kind.
-/

namespace DesignTokens.Selector

/-! ### Names -/

/-- Beside the hyphen, a name has digits, letters and the like, and what is not ASCII. -/
theorem code_of_isBare {c : Char} (h : isBare c = true) :
    c = '-' ∨ (48 ≤ c.toNat ∧ c.toNat < 0x80) ∨ (0x80 ≤ c.toNat ∧ Text.isBlank c = false) := by
  simp only [isBare, Bool.or_eq_true, beq_iff_eq, Bool.and_eq_true, decide_eq_true_eq,
    Bool.not_eq_true'] at h
  obtain ((hrange | hhyphen) | hunderscore) | hhigh := h
  · refine .inr (.inl ?_)
    delta Char.isAlphanum Char.isAlpha Char.isUpper Char.isLower Char.isDigit at hrange
    simp only [Bool.or_eq_true, Bool.and_eq_true, decide_eq_true_eq, ge_iff_le,
      UInt32.le_iff_toNat_le] at hrange
    have hval : c.val.toNat = c.toNat := rfl
    have hbounds : 'A'.val.toNat = 65 ∧ 'Z'.val.toNat = 90 ∧ 'a'.val.toNat = 97 ∧
      'z'.val.toNat = 122 ∧ '0'.val.toNat = 48 ∧ '9'.val.toNat = 57 := by decide
    omega
  · exact .inl hhyphen
  · exact .inr (.inl (by rw [hunderscore]; decide))
  · exact .inr (.inr hhigh)

theorem notBlank_of_isBare {c : Char} (h : isBare c = true) : Text.isBlank c = false := by
  obtain rfl | hascii | hhigh := code_of_isBare h
  · decide
  · rw [Bool.eq_false_iff]
    intro hblank
    simp [Text.isBlank, Text.blankRanges, Text.inRanges] at hblank
    omega
  · exact hhigh.2

theorem notBlank_of_units {cs : List Char} (h : areUnits isBare isEscapable cs = true) :
    ∀ c ∈ cs, Text.isBlank c = false := by
  induction cs using areUnits.induct with
  | case1 => simp
  | case2 => cases h
  | case3 c cs ih =>
      simp only [areUnits, Bool.and_eq_true, isEscapable, Bool.not_eq_true'] at h
      simp only [List.forall_mem_cons]
      exact ⟨isBlank_backslash, h.1.1, ih h.2⟩
  | case4 c cs hlone hescape ih =>
      rw [areUnits.eq_4 isBare isEscapable c cs hlone hescape, Bool.and_eq_true] at h
      exact List.forall_mem_cons.mpr ⟨notBlank_of_isBare h.1, ih h.2⟩

theorem startsName_cons {c : Char} (h : c ≠ '-') (cs : List Char) :
    startsName (c :: cs) = !c.isDigit := by
  unfold startsName
  split
  · contradiction
  · next heq => exact absurd (List.cons.inj heq).1 h
  · next heq => exact absurd (List.cons.inj heq).1 h
  · next heq => rw [(List.cons.inj heq).1]

/-- Names go on with names. -/
theorem isIdent_append {name name' : List Char} (h : isIdent name = true)
    (h' : isIdent name' = true) : isIdent (name ++ name') = true := by
  obtain ⟨hstart, hunits⟩ := (Bool.and_eq_true _ _).mp h
  refine (Bool.and_eq_true _ _).mpr ⟨?_, areUnits_append hunits (units_of_isIdent h')⟩
  cases name with
  | nil => cases hstart
  | cons c cs =>
      by_cases hc : c = '-'
      · subst hc
        cases cs with
        | nil => cases hstart
        | cons d ds => exact hstart
      · rw [startsName_cons hc] at hstart
        rw [List.cons_append, startsName_cons hc, hstart]

/-- Of what names start with, only the hyphen comes before the dot. -/
theorem codeOf_dot_lt {c : Char} (hc : isBare c = true ∨ c = '\\') (hne : c ≠ '-') :
    Text.codeOf '.' < Text.codeOf c := by
  have hdot : Text.codeOf '.' = 46 := by decide
  have hcode : 48 ≤ c.toNat := by
    rcases hc with hc | rfl
    · have := (code_of_isBare hc).resolve_left hne
      omega
    · decide
  rw [hdot, Text.codeOf, Text.standInOffset]
  split
  · next hstandIn =>
      simp only [Text.isStandIn, Bool.and_eq_true, decide_eq_true_eq] at hstandIn
      omega
  · omega

/-! ### Fragments -/

namespace Simple

/-- A type or a class. -/
inductive IsFragment : Simple → Prop where
  | type {name : List Char} (ident : isIdent name = true) : IsFragment (.type name)
  | cls {name : List Char} (ident : isIdent name = true) : IsFragment (.cls name)

def text (s : Simple) : String := String.ofList s.spell

@[simp] theorem toList_text (s : Simple) : s.text.toList = s.spell := String.toList_ofList

variable {s : Simple} {name name' : List Char}

theorem IsFragment.isWritten (h : s.IsFragment) : s.IsWritten := by
  cases h with
  | type hname => exact hname
  | cls hname => exact hname

theorem IsFragment.exists_cls (h : s.IsFragment) (htype : s.isType = false) :
    ∃ name, isIdent name = true ∧ s = .cls name := by
  cases h with
  | type => cases htype
  | cls hname => exact ⟨_, hname, rfl⟩

theorem IsFragment.exists_type (h : s.IsFragment) (htype : s.isType = true) :
    ∃ name, isIdent name = true ∧ s = .type name := by
  cases h with
  | type hname => exact ⟨_, hname, rfl⟩
  | cls => cases htype

/-- No fragment has blanks. -/
theorem IsFragment.isSolid (h : s.IsFragment) : IsSolid s.text := by
  have hname : ∀ {name : List Char}, isIdent name = true → ∀ c ∈ name, Text.isBlank c = false :=
    fun hname => notBlank_of_units (units_of_isIdent hname)
  obtain ⟨c, cs, hspell, -⟩ := exists_first h.isWritten
  refine ⟨by simp [hspell], ?_⟩
  rw [toList_text]
  cases h with
  | type h => exact hname h
  | cls h => exact List.forall_mem_cons.mpr ⟨isBlank_dot, hname h⟩

theorem IsFragment.text_ne_root (h : s.IsFragment) : s.text ≠ ":root" := by
  intro heq
  have hspell : s.spell = ":root".toList := by rw [← toList_text, heq]
  cases h with
  | type h =>
      obtain ⟨c, cs, rfl, hc⟩ := exists_of_isIdent h
      obtain ⟨rfl, -⟩ := List.cons.inj hspell
      cases hc
  | cls h => cases hspell

/-! ### The order of fragments -/

def comesBefore (s t : Simple) : Bool := Text.precedes s.text t.text

theorem comesBefore_type_cls (h : isIdent name = true) :
    (comesBefore (.type name) (.cls name') = true ↔ name.head? = some '-') ∧
      (comesBefore (.cls name') (.type name) = true ↔ name.head? ≠ some '-') := by
  obtain ⟨c, cs, rfl, -⟩ := exists_of_isIdent h
  have hunits := units_of_isIdent h
  simp only [comesBefore, Text.precedes, toList_text, spell, Text.inOrder, List.head?_cons,
    Option.some.injEq, Bool.or_eq_true, Bool.and_eq_true, decide_eq_true_eq, beq_iff_eq]
  by_cases hc : c = '-'
  · have hlt : Text.codeOf '-' < Text.codeOf '.' := by decide
    subst hc
    exact ⟨by simp [hlt], by simp [hlt.le, hlt.ne']⟩
  · have hlt : Text.codeOf '.' < Text.codeOf c := by
      refine codeOf_dot_lt ?_ hc
      by_cases hescape : c = '\\'
      · exact .inr hescape
      · rw [areUnits_cons_of_ne hescape, Bool.and_eq_true] at hunits
        exact .inl hunits.1
    exact ⟨by simp [hc, hlt.le, hlt.ne'], by simp [hc, hlt]⟩

end Simple

/-! ### Compounds -/

/-- The fragments of a compound, of which one at most is a type. -/
structure IsPart (part : List Simple) : Prop where
  fragment : ∀ s ∈ part, s.IsFragment
  types : part.countP Simple.isType ≤ 1

/-- A type starts with a hyphen, or stands beside no class. -/
def TypeApart (part : List Simple) : Prop :=
  ∀ s ∈ part, s.isType = true → s.spell.head? = some '-' ∨ ∀ t ∈ part, t.isType = true

/-- Fragments in the order of their texts. -/
def arranged (part : List Simple) : List Simple := part.mergeSort Simple.comesBefore

theorem arranged_perm (part : List Simple) : (arranged part).Perm part := List.mergeSort_perm _ _

theorem pairwise_arranged (part : List Simple) :
    (arranged part).Pairwise fun s t => s.comesBefore t = true := by
  refine List.pairwise_mergeSort (fun s t u => ?_) (fun s t => ?_) part
  · exact Text.inOrder_trans
  · exact Text.inOrder_total _ _

/-- The text of a compound. -/
def compoundOf (part : List Simple) : List Char := (compound (part.map Simple.text)).toList

theorem compoundOf_eq_spell (part : List Simple) :
    compoundOf part = spell ((arranged part).map .simple) := by
  have hsort : (arranged part).map Simple.text =
      (part.map Simple.text).mergeSort Text.precedes :=
    List.map_mergeSort fun _ _ _ _ => rfl
  rw [compoundOf, toList_compound, ← hsort]
  simp [spelled, spell, List.flatMap_map, Token.spell]

theorem isPart_arranged {part : List Simple} (h : IsPart part) : IsPart (arranged part) := by
  have hperm := arranged_perm part
  exact ⟨fun s hs => h.fragment s (hperm.mem_iff.mp hs), hperm.countP_eq _ ▸ h.types⟩

/-- A type that is not at the front stands behind a class. -/
theorem IsPart.exists_of_not_typeFirst {row : List Simple} (h : IsPart row)
    (hfirst : ¬TypeFirst row) : ∃ before name name' behind,
      row = before ++ .cls name :: .type name' :: behind ∧
        ∀ s ∈ before ++ behind, s.isType = false := by
  cases row with
  | nil => exact absurd (fun s hs => by cases hs) hfirst
  | cons s rest =>
      simp only [TypeFirst, List.tail_cons, not_forall, Bool.not_eq_false] at hfirst
      obtain ⟨t, ht, htype⟩ := hfirst
      obtain ⟨front, behind, rfl⟩ := List.append_of_mem ht
      obtain ⟨before, u, hbefore⟩ := List.eq_nil_or_concat (s :: front) |>.resolve_left (by simp)
      rw [← List.cons_append, hbefore, List.concat_append] at h ⊢
      -- one type is all there is
      have htypes := h.types
      rw [List.countP_append, List.countP_cons, List.countP_cons_of_pos htype] at htypes
      have hu : u.isType = false := by
        by_contra hu
        rw [if_pos (by simpa using hu)] at htypes
        omega
      obtain ⟨name, -, rfl⟩ := (h.fragment u (by simp)).exists_cls hu
      obtain ⟨name', -, rfl⟩ := (h.fragment t (by simp)).exists_type htype
      refine ⟨before, name, name', behind, rfl, ?_⟩
      have hnone : (before ++ behind).countP Simple.isType = 0 := by
        rw [List.countP_append]
        omega
      simpa using List.countP_eq_zero.mp hnone

theorem IsPart.typeApart_iff {part : List Simple} (h : IsPart part) :
    TypeApart part ↔ TypeFirst (arranged part) := by
  have hmem : ∀ {s}, s ∈ arranged part ↔ s ∈ part := (arranged_perm part).mem_iff
  have hpairwise := pairwise_arranged part
  refine ⟨fun hapart => ?_, fun hfirst s hs htype => ?_⟩
  · by_contra hfirst
    obtain ⟨before, name, name', behind, hsplit, -⟩ :=
      (isPart_arranged h).exists_of_not_typeFirst hfirst
    have hcls : Simple.cls name ∈ part := hmem.mp (by simp [hsplit])
    have htype : Simple.type name' ∈ part := hmem.mp (by simp [hsplit])
    have hident : isIdent name' = true := (h.fragment _ htype).isWritten
    rw [hsplit] at hpairwise
    have hbefore : Simple.comesBefore (.cls name) (.type name') = true :=
      List.rel_of_pairwise_cons (List.pairwise_append.mp hpairwise).2.1 (by simp)
    rcases hapart _ htype rfl with hhyphen | hall
    · exact (Simple.comesBefore_type_cls hident).2.mp hbefore hhyphen
    · cases hall _ hcls
  · obtain ⟨name, hname, rfl⟩ := (h.fragment s hs).exists_type htype
    have hs' := hmem.mpr hs
    cases hsplit : arranged part with
    | nil => simp [hsplit] at hs'
    | cons t rest =>
        rw [hsplit] at hs' hpairwise hfirst
        rcases List.mem_cons.mp hs' with rfl | hrest
        · cases rest with
          | nil =>
              refine .inr fun t ht => ?_
              obtain rfl : t = .type name := by simpa [hsplit, ← hmem] using ht
              rfl
          | cons u rest =>
              have hu : u ∈ part := hmem.mp (by simp [hsplit])
              obtain ⟨name', -, rfl⟩ := (h.fragment u hu).exists_cls (hfirst u (by simp))
              have hbefore := List.rel_of_pairwise_cons hpairwise List.mem_cons_self
              exact .inl ((Simple.comesBefore_type_cls hname).1.mp hbefore)
        · cases hfirst _ hrest

/-- Simple selectors are read one by one, unless a type stands behind another one. -/
theorem areWritten_row {row : List Simple} (hwritten : ∀ s ∈ row, s.IsWritten)
    (hfirst : TypeFirst row) : AreWritten (row.map .simple) := by
  refine ⟨List.forall_mem_map.mpr hwritten, ?_⟩
  cases row with
  | nil => exact .nil
  | cons s row =>
      refine (List.pairwise_cons.mpr ⟨?_, List.pairwise_of_forall_mem_list ?_⟩).isChain
      · exact List.forall_mem_map.mpr fun t ht _ => hfirst t ht
      · exact fun _ _ => List.forall_mem_map.mpr fun t ht _ => hfirst t ht

/-- What is read as one compound. -/
structure IsRow (row : List Simple) : Prop where
  written : AreWritten (row.map .simple)
  typeFirst : TypeFirst row
  nonempty : row ≠ []

/-- What the compound of a part reads as. -/
structure IsRowOf (row part : List Simple) : Prop extends IsRow row where
  spelled : spell (row.map .simple) = compoundOf part
  perm_iff : row.Perm part ↔ TypeApart part

theorem IsPart.exists_row {part : List Simple} (h : IsPart part) (hne : part ≠ []) :
    ∃ row, IsRowOf row part := by
  have hperm := arranged_perm part
  have hwritten : ∀ s ∈ arranged part, s.IsWritten :=
    fun s hs => ((isPart_arranged h).fragment s hs).isWritten
  by_cases hfirst : TypeFirst (arranged part)
  · have hnonempty : arranged part ≠ [] :=
      fun hnil => hne (List.nil_perm.mp (hnil ▸ hperm))
    exact ⟨arranged part, ⟨areWritten_row hwritten hfirst, hfirst, hnonempty⟩,
      (compoundOf_eq_spell part).symm, iff_of_true hperm (h.typeApart_iff.mpr hfirst)⟩
  · obtain ⟨before, name, name', behind, hsplit, hclasses⟩ :=
      (isPart_arranged h).exists_of_not_typeFirst hfirst
    rw [hsplit] at hwritten
    -- the type goes on with the name of the class before it
    have hjoined : (Simple.cls (name ++ name')).IsWritten :=
      isIdent_append (hwritten (.cls name) (by simp)) (hwritten (.type name') (by simp))
    have hfirst' : TypeFirst (before ++ .cls (name ++ name') :: behind) := by
      intro s hs
      have hs := List.mem_of_mem_tail hs
      simp only [List.mem_append, List.mem_cons] at hs hclasses
      rcases hs with hs | rfl | hs
      · exact hclasses s (.inl hs)
      · rfl
      · exact hclasses s (.inr hs)
    refine ⟨before ++ .cls (name ++ name') :: behind,
      ⟨areWritten_row (fun s hs => ?_) hfirst', hfirst', by simp⟩, ?_,
      iff_of_false (fun hrow => ?_) (mt h.typeApart_iff.mp hfirst)⟩
    · simp only [List.mem_append, List.mem_cons] at hs hwritten
      rcases hs with hs | rfl | hs
      · exact hwritten s (.inl hs)
      · exact hjoined
      · exact hwritten s (.inr (.inr (.inr hs)))
    · rw [compoundOf_eq_spell, hsplit]
      simp [spell, Token.spell, Simple.spell]
    · have hlength := (hrow.trans hperm.symm).length_eq
      rw [hsplit] at hlength
      simp at hlength

/-! ### Composed selectors -/

/-- Rows with blanks between them. -/
def tokensOf (rows : List (List Simple)) : List Token :=
  [.gap ' '].intercalate (rows.map (·.map .simple))

theorem tokensOf_cons_cons (row row' : List Simple) (rows : List (List Simple)) :
    tokensOf (row :: row' :: rows) = row.map .simple ++ .gap ' ' :: tokensOf (row' :: rows) := by
  simp [tokensOf, List.intercalate_cons_cons]

section Rows

variable {rows parts : List (List Simple)}

theorem areWritten_tokensOf (h : ∀ row ∈ rows, AreWritten (row.map .simple)) :
    AreWritten (tokensOf rows) := by
  induction rows with
  | nil => exact ⟨by simp [tokensOf], .nil⟩
  | cons row rows ih =>
      obtain ⟨hrow, hrows⟩ := List.forall_mem_cons.mp h
      cases rows with
      | nil => simpa [tokensOf] using hrow
      | cons row' rows =>
          rw [tokensOf_cons_cons]
          exact areWritten_append_cons hrow (ih hrows) rfl rfl nofun

theorem chainOf_tokensOf (h : ∀ row ∈ rows, row ≠ []) : chainOf (tokensOf rows) = rows := by
  induction rows with
  | nil => rfl
  | cons row rows ih =>
      obtain ⟨hrow, hrows⟩ := List.forall_mem_cons.mp h
      cases rows with
      | nil => simpa [tokensOf] using chainOf_map_simple hrow
      | cons row' rows => rw [tokensOf_cons_cons, chainOf_row_gap hrow, ih hrows]

theorem comma_notMem_tokensOf : .comma ∉ tokensOf rows := by
  induction rows with
  | nil => simp [tokensOf]
  | cons row rows ih =>
      cases rows with
      | nil => simp [tokensOf]
      | cons row' rows => simp [tokensOf_cons_cons, ih]

theorem spell_tokensOf (h : List.Forall₂ IsRowOf rows parts) :
    spell (tokensOf rows) = [' '].intercalate (parts.map compoundOf) := by
  induction h with
  | nil => rfl
  | cons hrow hrows ih =>
      cases hrows with
      | nil => simpa [tokensOf] using hrow.spelled
      | cons hrow' hrows =>
          rw [tokensOf_cons_cons, List.map_cons, List.map_cons, List.intercalate_cons_cons,
            ← List.map_cons, ← ih, ← hrow.spelled]
          simp [spell, Token.spell]

/-- Compounds below one another read as their rows. -/
theorem reads_of_rows (h : List.Forall₂ IsRowOf rows parts) :
    Reads ([' '].intercalate (parts.map compoundOf)) [rows] := by
  have hrow : ∀ row ∈ rows, IsRow row :=
    ((List.forall₂_and_left rows parts).mp (h.imp fun _ _ hr => ⟨hr.toIsRow, hr⟩)).1
  have hchain := chainOf_tokensOf fun row hmem => (hrow row hmem).nonempty
  have hmember : IsMember (tokensOf rows) := by
    refine ⟨areWritten_tokensOf fun row hmem => (hrow row hmem).written, comma_notMem_tokensOf, ?_⟩
    rw [hchain]
    exact fun row hmem => (hrow row hmem).typeFirst
  exact reads_iff.mpr ⟨[tokensOf rows], by simp, List.forall_mem_singleton.mpr hmember,
    by simpa using spell_tokensOf h, by simp [hchain]⟩

end Rows

theorem toList_compose_text {outer inner : List Simple} (houter : ∀ s ∈ outer, s.IsFragment)
    (hinner : ∀ s ∈ inner, s.IsFragment) :
    (compose (outer.map Simple.text) (inner.map Simple.text)).toList =
      [' '].intercalate (([outer, inner].filter (· ≠ [])).map compoundOf) := by
  have hsolid : ∀ {part : List Simple}, (∀ s ∈ part, s.IsFragment) →
      ∀ text ∈ part.map Simple.text, IsSolid text ∧ text ≠ ":root" :=
    fun h => List.forall_mem_map.mpr fun s hs => ⟨(h s hs).isSolid, (h s hs).text_ne_root⟩
  have hfilter : (outer.map Simple.text).filter (· != ":root") = outer.map Simple.text :=
    List.filter_eq_self.mpr fun text ht => by simpa using (hsolid houter text ht).2
  rw [toList_compose_of_isSolid (fun text ht => .inr (hsolid houter text ht).1)
    (fun text ht => (hsolid hinner text ht).1)]
  · have hreading : ∀ part : List Simple, compoundOf part =
        Selector.spelled ((part.map Simple.text).mergeSort Text.precedes) :=
      fun part => toList_compound _
    rw [compounds, hfilter, reading]
    cases outer with
    | nil => cases inner <;> simp [hreading, Selector.spelled]
    | cons s outer => cases inner <;> simp [hreading, List.intercalate_cons_cons]
  · rintro ⟨hroot, -⟩
    exact (hsolid houter ":root" (by simp [hroot])).2 rfl

/-- What composed fragments read as, and when that is the fragments themselves. -/
theorem exists_reads_compose {outer inner : List Simple} (houter : IsPart outer)
    (hinner : IsPart inner) : ∃ chain,
      Reads (compose (outer.map Simple.text) (inner.map Simple.text)).toList [chain] ∧
        (List.Forall₂ List.Perm chain ([outer, inner].filter (· ≠ [])) ↔
          TypeApart outer ∧ TypeApart inner) := by
  have hparts : ∀ part ∈ [outer, inner].filter (· ≠ []), IsPart part ∧ part ≠ [] := by
    intro part hmem
    obtain ⟨hmem, hne⟩ := List.mem_filter.mp hmem
    refine ⟨?_, by simpa using hne⟩
    rcases List.mem_pair.mp hmem with rfl | rfl
    · exact houter
    · exact hinner
  have hrow : ∀ part ∈ [outer, inner].filter (· ≠ []), ∃ row, IsRowOf row part :=
    fun part hmem => (hparts part hmem).1.exists_row (hparts part hmem).2
  choose! rowOf hrowOf using hrow
  obtain ⟨rows, hrows⟩ : ∃ rows, List.Forall₂ IsRowOf rows ([outer, inner].filter (· ≠ [])) :=
    ⟨_, List.forall₂_map_left_iff.mpr (List.forall₂_same.mpr hrowOf)⟩
  refine ⟨rows, ?_, ?_⟩
  · rw [toList_compose_text houter.fragment hinner.fragment]
    exact reads_of_rows hrows
  · have hall : List.Forall₂ List.Perm rows ([outer, inner].filter (· ≠ [])) ↔
        ∀ part ∈ [outer, inner].filter (· ≠ []), TypeApart part := by
      generalize [outer, inner].filter (· ≠ []) = parts at hrows
      induction hrows with
      | nil => simp
      | cons hrow hrows ih => simp [hrow.perm_iff, ih]
    have hempty : ∀ {part : List Simple}, part = [] → TypeApart part := by
      rintro part rfl s hs
      cases hs
    rw [hall]
    refine ⟨fun h => ⟨?_, ?_⟩, fun h part hmem => ?_⟩
    · by_cases hnil : outer = []
      · exact hempty hnil
      · exact h outer (by simp [hnil])
    · by_cases hnil : inner = []
      · exact hempty hnil
      · exact h inner (by simp [hnil])
    · rcases List.mem_pair.mp (List.mem_filter.mp hmem).1 with rfl | rfl
      · exact h.1
      · exact h.2

/-- A composed selector is the conjunction of its fragments, one compound below the other, if and
only if no class stands beside a type that comes behind it. -/
theorem compose_reads_iff {outer inner : List Simple} (houter : IsPart outer)
    (hinner : IsPart inner) : ∃ text : String,
      (∀ customizer, Fragments.selector ⟨outer.map (.text ·.text), inner.map (.text ·.text)⟩
        customizer = .ok (customizer text)) ∧
      ((∃ chain, Reads text.toList [chain] ∧
          List.Forall₂ List.Perm chain ([outer, inner].filter (· ≠ []))) ↔
        TypeApart outer ∧ TypeApart inner) := by
  obtain ⟨rows, hreads, hperm⟩ := exists_reads_compose houter hinner
  refine ⟨compose (outer.map Simple.text) (inner.map Simple.text), fun customizer => ?_, ?_⟩
  · have htexts : ∀ part : List Simple,
        fragmentTexts (part.map (.text ·.text)) = .ok (part.map Simple.text) := by
      intro part
      rw [← fragmentTexts_map_text, List.map_map]
      rfl
    simp only [Fragments.selector, htexts]
    rfl
  · rw [← hperm]
    refine ⟨fun ⟨chain, hchain, hsame⟩ => ?_, fun hsame => ⟨rows, hreads, hsame⟩⟩
    obtain rfl : rows = chain := by simpa using hreads.unique hchain
    exact hsame

/-- A type that starts with a hyphen comes before the classes. -/
theorem compose_reads_iff_hyphened :
    IsPart [.cls "a".toList, .type "-x".toList] ∧ IsPart [.cls "b".toList] ∧
      ∃ text : String, (∀ customizer, Fragments.selector ⟨[.text ".a", .text "-x"], [.text ".b"]⟩
          customizer = .ok (customizer text)) ∧
        ∃ chain, Reads text.toList [chain] ∧ List.Forall₂ List.Perm chain
          [[.cls "a".toList, .type "-x".toList], [.cls "b".toList]] := by
  have houter : IsPart [.cls "a".toList, .type "-x".toList] := by
    refine ⟨?_, by decide⟩
    simp only [List.forall_mem_cons]
    exact ⟨.cls (by decide), .type (by decide), by simp⟩
  have hinner : IsPart [.cls "b".toList] :=
    ⟨List.forall_mem_singleton.mpr (.cls (by decide)), by decide⟩
  obtain ⟨text, htext, hreads⟩ := compose_reads_iff houter hinner
  exact ⟨houter, hinner, text, htext, hreads.mpr ⟨by simp [TypeApart, Simple.isType, Simple.spell],
    by simp [TypeApart, Simple.isType]⟩⟩

/-- Behind a class, a type is part of its name. -/
theorem dark_html_joined : IsPart [.type "html".toList, .cls "dark".toList] ∧
    ∃ text : String, (∀ customizer, Fragments.selector ⟨[.text "html", .text ".dark"], []⟩
        customizer = .ok (customizer text)) ∧
      ¬∃ chain, Reads text.toList [chain] ∧
        List.Forall₂ List.Perm chain [[.type "html".toList, .cls "dark".toList]] := by
  refine ⟨⟨?_, by decide⟩, ".darkhtml", fun customizer => ?_, ?_⟩
  · simp only [List.forall_mem_cons]
    exact ⟨.type (by decide), .cls (by decide), by simp⟩
  · have hcompose : compose ["html", ".dark"] [] = ".darkhtml" := rfl
    rw [← hcompose]
    rfl
  · rintro ⟨chain, hreads, hsame⟩
    have hname : isIdent "darkhtml".toList = true := by decide
    have hone : Reads ".darkhtml".toList [[[.cls "darkhtml".toList]]] :=
      reads_simple (s := .cls "darkhtml".toList) hname
    obtain rfl : chain = [[.cls "darkhtml".toList]] := by simpa using hreads.unique hone
    obtain ⟨hperm, -⟩ := List.forall₂_cons.mp hsame
    exact absurd hperm.length_eq (by decide)

end DesignTokens.Selector
