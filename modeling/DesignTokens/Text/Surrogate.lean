import DesignTokens.Text.Hex

/-!
Texts with unpaired surrogates.

An escape in a document may name one half of a surrogate pair without the other. Such a half is a
code point, but no character. A text holds it as a stand-in, a character for private use; a
character of that block which is meant as such has a mark in front of it. So every sequence of code
points is held by a text, from which it can be told: `codesOf_flatMap_holdCode`.
-/

namespace DesignTokens.Text

/-- One half of a surrogate pair. -/
def isSurrogate (n : Nat) : Bool := 0xd800 ≤ n && n < 0xe000

/-- How far the stand-in of a surrogate is from it. -/
def standInOffset : Nat := 0x100000

/-- A character that stands for a surrogate. -/
def isStandIn (c : Char) : Bool := 0x10d800 ≤ c.toNat && c.toNat < 0x10e000

/-- Stands in front of a character that would otherwise be taken for a stand-in or a mark. -/
def isMark (c : Char) : Bool := c.toNat == 0x10e000

/-- The characters that hold a code point. -/
def holdCode (n : Nat) : List Char :=
  if isSurrogate n then [Char.ofNat (n + standInOffset)]
  else
    let c := Char.ofNat n
    if isStandIn c || isMark c then [Char.ofNat 0x10e000, c] else [c]

/-- The code point that a character without a mark holds. -/
def codeOf (c : Char) : Nat := if isStandIn c then c.toNat - standInOffset else c.toNat

/-- The code points that characters hold. -/
def codesOf : List Char → List Nat
  | [] => []
  | [c] => [codeOf c]
  | c :: d :: cs => if isMark c then d.toNat :: codesOf cs else codeOf c :: codesOf (d :: cs)

theorem codesOf_cons {c : Char} (h : isMark c = false) (cs : List Char) :
    codesOf (c :: cs) = codeOf c :: codesOf cs := by
  cases cs <;> simp [codesOf, h]

theorem toNat_ofNat {n : Nat} (h : n.isValidChar) : (Char.ofNat n).toNat = n := by
  rw [Char.ofNat, dif_pos h]
  rfl

theorem codesOf_holdCode_append {n : Nat} (h : n < 0x110000) (cs : List Char) :
    codesOf (holdCode n ++ cs) = n :: codesOf cs := by
  by_cases hs : isSurrogate n = true
  · have hn : 0xd800 ≤ n ∧ n < 0xe000 := by simpa [isSurrogate] using hs
    have hc : (Char.ofNat (n + 0x100000)).toNat = n + 0x100000 :=
      toNat_ofNat (Or.inr (by omega))
    have hm : isMark (Char.ofNat (n + 0x100000)) = false := by
      rw [isMark, hc, beq_eq_false_iff_ne]
      omega
    have hi : isStandIn (Char.ofNat (n + 0x100000)) = true := by
      rw [isStandIn, hc, Bool.and_eq_true, decide_eq_true_eq, decide_eq_true_eq]
      omega
    have ho : codeOf (Char.ofNat (n + 0x100000)) = n := by
      rw [codeOf, if_pos hi, hc]
      exact Nat.add_sub_cancel n _
    rw [holdCode, if_pos hs, standInOffset, List.singleton_append, codesOf_cons hm, ho]
  · have hn : ¬(0xd800 ≤ n ∧ n < 0xe000) := by simpa [isSurrogate] using hs
    have hc : (Char.ofNat n).toNat = n := toNat_ofNat (by simp only [Nat.isValidChar]; omega)
    rw [holdCode, if_neg hs]
    by_cases hb : (isStandIn (Char.ofNat n) || isMark (Char.ofNat n)) = true
    · have hm : isMark (Char.ofNat 0x10e000) = true := by decide
      rw [if_pos hb, List.cons_append, List.cons_append, codesOf, if_pos hm, hc, List.nil_append]
    · obtain ⟨hi, hm⟩ := Bool.or_eq_false_iff.mp (Bool.eq_false_iff.mpr hb)
      rw [if_neg hb, List.singleton_append, codesOf_cons hm, codeOf, hi]
      simp [hc]

/-- Every sequence of code points can be told from the text that holds it. -/
theorem codesOf_flatMap_holdCode (ns : List Nat) (h : ∀ n ∈ ns, n < 0x110000) :
    codesOf (ns.flatMap holdCode) = ns := by
  induction ns with
  | nil => rfl
  | cons n ns ih =>
    rw [List.flatMap_cons, codesOf_holdCode_append (h n (by simp))]
    rw [ih fun m hm => h m (by simp [hm])]

/-! ### Texts -/

/-- The code points of a text. -/
def codes (s : String) : List Nat := codesOf s.toList

/-- The text that holds the characters of another one. -/
def hold (s : String) : String := String.ofList (s.toList.flatMap fun c => holdCode c.toNat)

/-- A text for each code point of a text. -/
def symbols (s : String) : List String := (codes s).map fun n => String.ofList (holdCode n)

/-- A code point as an escape of four digits. -/
def unitEscape (n : Nat) : List Char := '\\' :: 'u' :: hexDigits 4 n

/-- The characters of a text, with surrogates as escapes. -/
def release (s : String) : String :=
  String.ofList ((codes s).flatMap fun n => if isSurrogate n then unitEscape n else [Char.ofNat n])

/-- Surrogates in a row: the first of them, its place, and the place of the last. -/
structure SurrogateRun where
  code : Nat
  first : Nat
  last : Nat
  deriving DecidableEq, Repr

/-- The first surrogates in a row of a text. -/
def surrogateRun? (s : String) : Option SurrogateRun :=
  let ns := codes s
  match ns.dropWhile fun n => !isSurrogate n with
  | [] => none
  | n :: rest =>
    let first := ns.length - (n :: rest).length
    some ⟨n, first, first + (rest.takeWhile isSurrogate).length⟩

/-! ### Order -/

theorem codeOf_injective {c d : Char} (h : codeOf c = codeOf d) : c = d := by
  have hc := c.valid
  have hd := d.valid
  simp only [UInt32.isValidChar, Nat.isValidChar] at hc hd
  have hc' : c.val.toNat = c.toNat := rfl
  have hd' : d.val.toNat = d.toNat := rfl
  have hn : c.toNat = d.toNat := by
    simp only [codeOf, isStandIn, standInOffset, Bool.and_eq_true, decide_eq_true_eq] at h
    split at h <;> split at h <;> omega
  exact Char.ext (UInt32.toNat_inj.mp hn)

/-- The order of characters by code points, the first different one deciding. -/
def inOrder : List Char → List Char → Bool
  | [], _ => true
  | _ :: _, [] => false
  | c :: cs, d :: ds => codeOf c < codeOf d || (codeOf c == codeOf d && inOrder cs ds)

theorem inOrder_total (cs ds : List Char) : inOrder cs ds || inOrder ds cs := by
  induction cs generalizing ds with
  | nil => simp [inOrder]
  | cons c cs ih =>
    cases ds with
    | nil => simp [inOrder]
    | cons d ds =>
      have := ih ds
      rcases Nat.lt_trichotomy (codeOf c) (codeOf d) with h | h | h <;>
        simp_all [inOrder]

theorem inOrder_trans {cs ds es : List Char} (h : inOrder cs ds) (h' : inOrder ds es) :
    inOrder cs es := by
  induction cs generalizing ds es with
  | nil => simp [inOrder]
  | cons c cs ih =>
    cases ds with
    | nil => simp [inOrder] at h
    | cons d ds =>
      cases es with
      | nil => simp [inOrder] at h'
      | cons e es =>
        simp only [inOrder, Bool.or_eq_true, Bool.and_eq_true, decide_eq_true_eq,
          beq_iff_eq] at h h' ⊢
        rcases h with h | ⟨h, hs⟩ <;> rcases h' with h' | ⟨h', hs'⟩
        · exact .inl (Nat.lt_trans h h')
        · exact .inl (h' ▸ h)
        · exact .inl (h ▸ h')
        · exact .inr ⟨h.trans h', ih hs hs'⟩

theorem inOrder_antisymm {cs ds : List Char} (h : inOrder cs ds) (h' : inOrder ds cs) :
    cs = ds := by
  induction cs generalizing ds with
  | nil =>
    cases ds with
    | nil => rfl
    | cons d ds => simp [inOrder] at h'
  | cons c cs ih =>
    cases ds with
    | nil => simp [inOrder] at h
    | cons d ds =>
      simp only [inOrder, Bool.or_eq_true, Bool.and_eq_true, decide_eq_true_eq,
        beq_iff_eq] at h h'
      have he : codeOf c = codeOf d := by omega
      rw [codeOf_injective he, ih (h.resolve_left (by omega)).2 (h'.resolve_left (by omega)).2]

/-- The order of texts by code points. -/
def precedes (s t : String) : Bool := inOrder s.toList t.toList

end DesignTokens.Text
