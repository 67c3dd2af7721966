import DesignTokens.Proofs.Outcome
import DesignTokens.Selector.Compose
import Mathlib.Data.List.Basic

/-!
Composed selectors are read back uniquely. Where every fragment is `:root` or a single class, a
selector tells the classes on the element and those below it: a class ends at the next dot or blank
that is not taken along by a backslash, and the blank parts the two compounds. Only `:root` is not
seen beside other fragments, and what is below it alone reads as if it were on the element.
-/

namespace DesignTokens

/-! ### Blanks at the ends -/

namespace Text

theorem stripBy_eq_self {p : Char → Bool} {cs : List Char} (hhead : ∀ c ∈ cs.head?, p c = false)
    (hlast : ∀ c ∈ cs.getLast?, p c = false) : stripBy p cs = cs := by
  have hkeep : ∀ ds : List Char, (∀ c ∈ ds.head?, p c = false) → ds.dropWhile p = ds := by
    intro ds hds
    cases ds with
    | nil => rfl
    | cons d ds => exact List.dropWhile_cons_of_neg (by simp [hds d rfl])
  rw [stripBy, hkeep cs hhead, hkeep cs.reverse (by simpa using hlast), List.reverse_reverse]

theorem strip_space_append (text : String) : Text.strip (" " ++ text) = Text.strip text := by
  have hblank : Text.isBlank ' ' = true := by decide
  have hdrop : (" ".toList ++ text.toList).dropWhile Text.isBlank =
      text.toList.dropWhile Text.isBlank := List.dropWhile_cons_of_pos hblank
  rw [Text.strip, Text.strip, String.toList_append, Text.stripBy, hdrop]
  rfl

end Text

namespace Selector

/-! ### Classes -/

/-- The characters of a name: no dots and no blanks; a backslash takes the next one along, which may
be a dot. -/
def isName : List Char → Bool
  | [] => true
  | ['\\'] => false
  | '\\' :: c :: cs => !Text.isBlank c && isName cs
  | c :: cs => c != '.' && !Text.isBlank c && isName cs

/-- A single class: a dot and a name. -/
def isClass (fragment : String) : Bool :=
  match fragment.toList with
  | '.' :: name => !name.isEmpty && isName name
  | _ => false

/-- What follows the name at the front. -/
def dropName : List Char → List Char
  | [] => []
  | '\\' :: _ :: cs => dropName cs
  | c :: cs => if c == '.' || Text.isBlank c then c :: cs else dropName cs

/-- No name goes on here. -/
def EndsName (rest : List Char) : Prop := ∀ c ∈ rest.head?, c = '.' ∨ Text.isBlank c = true

theorem isBlank_backslash : Text.isBlank '\\' = false := by decide

theorem isBlank_dot : Text.isBlank '.' = false := by decide

theorem dropName_of_ends {rest : List Char} (h : EndsName rest) : dropName rest = rest := by
  cases rest with
  | nil => rfl
  | cons c rest =>
      have hc : c = '.' ∨ Text.isBlank c = true := h c rfl
      have hescape : c ≠ '\\' := by
        rintro rfl
        simp [isBlank_backslash] at hc
      rw [dropName.eq_3 c rest (fun _ _ heq _ => hescape heq), if_pos (by simpa using hc)]

theorem dropName_append {name rest : List Char} (hname : isName name = true)
    (hrest : EndsName rest) : dropName (name ++ rest) = rest := by
  induction name using isName.induct with
  | case1 => exact dropName_of_ends hrest
  | case2 => cases hname
  | case3 c cs ih =>
      rw [isName, Bool.and_eq_true] at hname
      exact ih hname.2
  | case4 c cs hlone hescape ih =>
      rw [isName.eq_4 c cs hlone hescape] at hname
      simp only [Bool.and_eq_true, bne_iff_ne, Bool.not_eq_true'] at hname
      have hne : c ≠ '\\' := by
        rintro rfl
        cases cs with
        | nil => exact hlone rfl rfl
        | cons d ds => exact hescape d ds rfl rfl
      rw [List.cons_append, dropName.eq_3 c (cs ++ rest) (fun _ _ heq _ => hne heq),
        if_neg (by simp [hname.1.1, hname.1.2])]
      exact ih hname.2

theorem notBlank_of_isName {name : List Char} (h : isName name = true) :
    ∀ c ∈ name, Text.isBlank c = false := by
  induction name using isName.induct with
  | case1 => simp
  | case2 => cases h
  | case3 c cs ih =>
      simp only [isName, Bool.and_eq_true, Bool.not_eq_true'] at h
      simp only [List.forall_mem_cons]
      exact ⟨isBlank_backslash, h.1, ih h.2⟩
  | case4 c cs hlone hescape ih =>
      rw [isName.eq_4 c cs hlone hescape] at h
      simp only [Bool.and_eq_true, Bool.not_eq_true'] at h
      exact List.forall_mem_cons.mpr ⟨h.1.2, ih h.2⟩

theorem exists_name_of_isClass {fragment : String} (h : isClass fragment = true) :
    ∃ name, fragment.toList = '.' :: name ∧ isName name = true := by
  unfold isClass at h
  split at h
  · next name heq => exact ⟨name, heq, (Bool.and_eq_true _ _ ▸ h).2⟩
  · cases h

theorem notBlank_of_isClass {fragment : String} (h : isClass fragment = true) :
    ∀ c ∈ fragment.toList, Text.isBlank c = false := by
  obtain ⟨name, heq, hname⟩ := exists_name_of_isClass h
  rw [heq]
  exact List.forall_mem_cons.mpr ⟨isBlank_dot, notBlank_of_isName hname⟩

theorem isClass_ne_root {fragment : String} (h : isClass fragment = true) : fragment ≠ ":root" := by
  rintro rfl
  revert h
  decide

/-! ### Classes one after another -/

/-- Classes written without anything between them. -/
def spelled (classes : List String) : List Char := classes.flatMap String.toList

/-- Nothing follows, or a blank. -/
def EndsCompound (rest : List Char) : Prop := ∀ c ∈ rest.head?, Text.isBlank c = true

theorem spelled_cons_of_isClass {fragment : String} {name : List Char}
    (h : fragment.toList = '.' :: name) (classes : List String) :
    spelled (fragment :: classes) = '.' :: (name ++ spelled classes) := by
  simp [spelled, h]

theorem endsName_spelled_append {classes : List String} {rest : List Char}
    (hclasses : ∀ s ∈ classes, isClass s = true) (hrest : EndsCompound rest) :
    EndsName (spelled classes ++ rest) := by
  intro c hc
  cases classes with
  | nil => exact .inr (hrest c hc)
  | cons s classes =>
      obtain ⟨name, heq, -⟩ := exists_name_of_isClass (hclasses s List.mem_cons_self)
      rw [spelled_cons_of_isClass heq] at hc
      exact .inl (Option.some.inj hc).symm

/-- A compound of classes, followed by nothing or a blank, is read in one way. -/
theorem spelled_injective {xs ys : List String} {r r' : List Char}
    (hxs : ∀ s ∈ xs, isClass s = true) (hys : ∀ s ∈ ys, isClass s = true)
    (hr : EndsCompound r) (hr' : EndsCompound r') (h : spelled xs ++ r = spelled ys ++ r') :
    xs = ys ∧ r = r' := by
  -- what ends a compound does not start with a class
  have hend : ∀ {s : String} {zs : List String} {rest rest' : List Char}, isClass s = true →
      EndsCompound rest → rest ≠ spelled (s :: zs) ++ rest' := by
    rintro s zs rest rest' hs hrest rfl
    obtain ⟨name, heq, -⟩ := exists_name_of_isClass hs
    have hdot := hrest '.' (by simp [spelled_cons_of_isClass heq])
    simp [isBlank_dot] at hdot
  induction xs generalizing ys with
  | nil =>
      cases ys with
      | nil => exact ⟨rfl, h⟩
      | cons y ys => exact absurd h (hend (hys y List.mem_cons_self) hr)
  | cons x xs ih =>
      obtain ⟨hx, hxs⟩ := List.forall_mem_cons.mp hxs
      cases ys with
      | nil => exact absurd h.symm (hend hx hr')
      | cons y ys =>
          obtain ⟨hy, hys⟩ := List.forall_mem_cons.mp hys
          obtain ⟨name, hname, hisName⟩ := exists_name_of_isClass hx
          obtain ⟨name', hname', hisName'⟩ := exists_name_of_isClass hy
          rw [spelled_cons_of_isClass hname, spelled_cons_of_isClass hname'] at h
          simp only [List.cons_append, List.append_assoc, List.cons.injEq, true_and] at h
          -- what follows the first name is the same on both sides, and so is the name
          have hrest : spelled xs ++ r = spelled ys ++ r' := by
            rw [← dropName_append hisName (endsName_spelled_append hxs hr), h,
              dropName_append hisName' (endsName_spelled_append hys hr')]
          obtain ⟨rfl, rfl⟩ := ih hxs hys hrest
          obtain rfl : name = name' := List.append_cancel_right h
          obtain rfl : x = y := String.toList_inj.mp (hname.trans hname'.symm)
          exact ⟨rfl, rfl⟩

/-! ### Composed selectors -/

theorem fragmentTexts_map_text (texts : List String) :
    fragmentTexts (texts.map Value.text) = .ok texts :=
  Outcome.mapM_eq_ok.mpr ⟨fun v => (v.text?).getD "", by simp [Value.text?],
    by simp [Value.text?, Function.comp_def]⟩

/-- The classes on the element and those below it, as a selector tells them. -/
def compounds (outer inner : List String) : List String × List String :=
  match outer.filter (· != ":root") with
  | [] => (inner, [])
  | front => (front, inner)

/-- At `:root` the two places of a context have one selector. -/
theorem compose_root (text : String) (h : text ≠ ":root") :
    compose [":root"] [text] = compose [":root", text] [] := by
  simp [compose, compound, h, Text.strip_space_append, String.join]

/-- Texts come in an order that tells all of them apart. -/
theorem compound_eq (fragments : List String) :
    compound fragments = String.join (fragments.mergeSort Text.precedes) := by
  rw [compound, sorted_eq_mergeSort]
  · exact fun _ _ _ => Text.inOrder_trans
  · exact fun s t => Text.inOrder_total s.toList t.toList

/-- What is read from a selector that is not `:root` alone. -/
def reading (p : List String × List String) : List Char :=
  spelled (p.1.mergeSort Text.precedes) ++
    if p.2 = [] then [] else ' ' :: spelled (p.2.mergeSort Text.precedes)

theorem toList_compound (fragments : List String) :
    (compound fragments).toList = spelled (fragments.mergeSort Text.precedes) := by
  rw [compound_eq]
  exact String.toList_join

theorem strip_of_ends {text : String} (hhead : ∀ c ∈ text.toList.head?, Text.isBlank c = false)
    (hlast : ∀ c ∈ text.toList.getLast?, Text.isBlank c = false) : Text.strip text = text := by
  rw [Text.strip, Text.stripBy_eq_self hhead hlast, String.ofList_toList]

/-- A text that is not empty and has no blanks. -/
structure IsSolid (text : String) : Prop where
  nonempty : text.toList ≠ []
  notBlank : ∀ c ∈ text.toList, Text.isBlank c = false

theorem isSolid_of_isClass {fragment : String} (h : isClass fragment = true) :
    IsSolid fragment := by
  obtain ⟨name, heq, -⟩ := exists_name_of_isClass h
  exact ⟨heq ▸ List.cons_ne_nil _ _, notBlank_of_isClass h⟩

theorem notBlank_compound {fragments : List String} (h : ∀ s ∈ fragments, IsSolid s) :
    ∀ c ∈ (compound fragments).toList, Text.isBlank c = false := by
  rw [toList_compound]
  intro c hc
  obtain ⟨s, hs, hcs⟩ := List.mem_flatMap.mp hc
  exact (h s (List.mem_mergeSort.mp hs)).notBlank c hcs

theorem compound_ne_nil {fragments : List String} (h : ∀ s ∈ fragments, IsSolid s)
    (hne : fragments ≠ []) : (compound fragments).toList ≠ [] := by
  rw [toList_compound, spelled, Ne, List.flatMap_eq_nil_iff]
  intro hnil
  obtain ⟨s, hs⟩ := List.exists_mem_of_ne_nil fragments hne
  exact (h s hs).nonempty (hnil s (List.mem_mergeSort.mpr hs))

variable {outer inner outer' inner' : List String}

theorem isClass_of_mem_filter (houter : ∀ s ∈ outer, s = ":root" ∨ isClass s = true) :
    ∀ s ∈ outer.filter (· != ":root"), isClass s = true := by
  intro s hs
  obtain ⟨hmem, hne⟩ := List.mem_filter.mp hs
  exact (houter s hmem).resolve_left (by simpa using hne)

theorem toList_compose_of_isSolid (houter : ∀ s ∈ outer, s = ":root" ∨ IsSolid s)
    (hinner : ∀ s ∈ inner, IsSolid s) (hroot : ¬(outer = [":root"] ∧ inner = [])) :
    (compose outer inner).toList = reading (compounds outer inner) := by
  have hfront : ∀ s ∈ outer.filter (· != ":root"), IsSolid s := by
    intro s hs
    obtain ⟨hmem, hne⟩ := List.mem_filter.mp hs
    exact (houter s hmem).resolve_left (by simpa using hne)
  rw [compose, if_neg hroot]
  simp only [compounds]
  generalize outer.filter (· != ":root") = front at hfront
  have hkeep : ∀ {fragments : List String}, (∀ s ∈ fragments, IsSolid s) →
      Text.strip (compound fragments) = compound fragments := by
    intro fragments h
    exact strip_of_ends (fun c hc => notBlank_compound h c (List.mem_of_mem_head? hc))
      fun c hc => notBlank_compound h c (List.mem_of_mem_getLast? hc)
  cases inner with
  | nil =>
      rw [if_pos List.isEmpty_nil, hkeep hfront, toList_compound]
      cases front <;> simp [reading]
  | cons i inner =>
      rw [if_neg (by simp)]
      cases front with
      | nil =>
          have hempty : compound [] = "" := by simp [compound, String.join]
          rw [hempty, String.empty_append, Text.strip_space_append, hkeep hinner, toList_compound]
          simp [reading]
      | cons f front =>
          have hhead := notBlank_compound hfront
          have hlast := notBlank_compound hinner
          have hnonempty := compound_ne_nil hfront (by simp)
          have hnonempty' := compound_ne_nil hinner (by simp)
          have htext : (compound (f :: front) ++ " " ++ compound (i :: inner)).toList =
              (compound (f :: front)).toList ++ ' ' :: (compound (i :: inner)).toList := by
            simp [String.toList_append]
          rw [strip_of_ends, htext, toList_compound, toList_compound]
          · simp [reading]
          · rw [htext, List.head?_append_of_ne_nil _ hnonempty]
            exact fun c hc => hhead c (List.mem_of_mem_head? hc)
          · rw [htext, List.getLast?_append_of_ne_nil _ (List.cons_ne_nil _ _),
              List.getLast?_cons_of_ne_nil hnonempty']
            exact fun c hc => hlast c (List.mem_of_mem_getLast? hc)

theorem toList_compose (houter : ∀ s ∈ outer, s = ":root" ∨ isClass s = true)
    (hinner : ∀ s ∈ inner, isClass s = true) (hroot : ¬(outer = [":root"] ∧ inner = [])) :
    (compose outer inner).toList = reading (compounds outer inner) :=
  toList_compose_of_isSolid (fun s hs => (houter s hs).imp_right isSolid_of_isClass)
    (fun s hs => isSolid_of_isClass (hinner s hs)) hroot

theorem reading_ne_root {p : List String × List String} (h : ∀ s ∈ p.1, isClass s = true) :
    reading p ≠ ":root".toList := by
  intro heq
  have hfirst : (reading p).head? = some ':' := by rw [heq]; rfl
  cases hsorted : p.1.mergeSort Text.precedes with
  | nil =>
      by_cases hinner : p.2 = [] <;> simp [reading, hsorted, hinner, spelled] at hfirst
  | cons s rest =>
      have hs : s ∈ p.1 := List.mem_mergeSort.mp (hsorted ▸ List.mem_cons_self)
      obtain ⟨name, hname, -⟩ := exists_name_of_isClass (h s hs)
      rw [reading, hsorted, spelled_cons_of_isClass hname] at hfirst
      simp at hfirst

theorem isClass_of_mem_compounds (houter : ∀ s ∈ outer, s = ":root" ∨ isClass s = true)
    (hinner : ∀ s ∈ inner, isClass s = true) :
    (∀ s ∈ (compounds outer inner).1, isClass s = true) ∧
      ∀ s ∈ (compounds outer inner).2, isClass s = true := by
  have hfront := isClass_of_mem_filter houter
  simp only [compounds]
  generalize outer.filter (· != ":root") = front at hfront
  cases front with
  | nil => exact ⟨hinner, by simp⟩
  | cons f front => exact ⟨hfront, hinner⟩

theorem reading_injective {p p' : List String × List String}
    (hp : (∀ s ∈ p.1, isClass s = true) ∧ ∀ s ∈ p.2, isClass s = true)
    (hp' : (∀ s ∈ p'.1, isClass s = true) ∧ ∀ s ∈ p'.2, isClass s = true)
    (h : reading p = reading p') : p.1.Perm p'.1 ∧ p.2.Perm p'.2 := by
  have hsorted : ∀ {zs : List String}, (∀ s ∈ zs, isClass s = true) →
      ∀ s ∈ zs.mergeSort Text.precedes, isClass s = true :=
    fun hzs s hs => hzs s (List.mem_mergeSort.mp hs)
  have hblank : ∀ zs : List String, EndsCompound
      (if zs = [] then [] else ' ' :: spelled (zs.mergeSort Text.precedes)) := by
    intro zs c hc
    split at hc
    · cases hc
    · obtain rfl := Option.some.inj hc
      decide
  have hnil : EndsCompound [] := fun c hc => by cases hc
  obtain ⟨hfirst, hsecond⟩ := spelled_injective (hsorted hp.1) (hsorted hp'.1) (hblank p.2)
    (hblank p'.2) h
  refine ⟨?_, ?_⟩
  · exact (List.mergeSort_perm p.1 _).symm.trans (hfirst ▸ List.mergeSort_perm p'.1 _)
  · by_cases hempty : p.2 = [] <;> by_cases hempty' : p'.2 = []
    · rw [hempty, hempty']
    · simp [hempty, hempty'] at hsecond
    · simp [hempty, hempty'] at hsecond
    · simp only [if_neg hempty, if_neg hempty', List.cons.injEq, true_and] at hsecond
      have hspelled : spelled (p.2.mergeSort Text.precedes) ++ [] =
          spelled (p'.2.mergeSort Text.precedes) ++ [] := by rw [hsecond]
      obtain ⟨hsame, -⟩ := spelled_injective (hsorted hp.2) (hsorted hp'.2) hnil hnil hspelled
      exact (List.mergeSort_perm p.2 _).symm.trans (hsame ▸ List.mergeSort_perm p'.2 _)

/-- One selector is composed of the same fragments, whatever their order. -/
theorem compounds_perm_of_compose_eq (houter : ∀ s ∈ outer, s = ":root" ∨ isClass s = true)
    (hinner : ∀ s ∈ inner, isClass s = true)
    (houter' : ∀ s ∈ outer', s = ":root" ∨ isClass s = true)
    (hinner' : ∀ s ∈ inner', isClass s = true) (h : compose outer inner = compose outer' inner') :
    (compounds outer inner).1.Perm (compounds outer' inner').1 ∧
      (compounds outer inner).2.Perm (compounds outer' inner').2 := by
  have hclass := isClass_of_mem_compounds houter hinner
  have hclass' := isClass_of_mem_compounds houter' hinner'
  have hrootText : compose [":root"] [] = ":root" := rfl
  by_cases hroot : outer = [":root"] ∧ inner = [] <;>
    by_cases hroot' : outer' = [":root"] ∧ inner' = []
  · rw [hroot.1, hroot.2, hroot'.1, hroot'.2]
    exact ⟨.refl _, .refl _⟩
  · rw [hroot.1, hroot.2, hrootText] at h
    rw [← String.toList_inj, toList_compose houter' hinner' hroot'] at h
    exact absurd h.symm (reading_ne_root hclass'.1)
  · rw [hroot'.1, hroot'.2, hrootText] at h
    rw [← String.toList_inj, toList_compose houter hinner hroot] at h
    exact absurd h (reading_ne_root hclass.1)
  · rw [← String.toList_inj, toList_compose houter hinner hroot,
      toList_compose houter' hinner' hroot'] at h
    exact reading_injective hclass hclass' h

/-- Fragments of one compound may stand in any order, those of two compounds may not. -/
example : compose [".b", ".a"] [".c"] = ".a.b .c" ∧ compose [":root", ".a"] [] = ".a" :=
  ⟨rfl, rfl⟩

end Selector

end DesignTokens
