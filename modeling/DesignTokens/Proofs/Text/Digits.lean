import Mathlib.Data.List.Forall2
import Mathlib.Data.List.TakeWhile
import Mathlib.Data.Nat.Digits.Defs
import DesignTokens.Text.Blank
import DesignTokens.Text.Digit
import DesignTokens.Text.Hex

/-!
Runs of characters of one class: where they end, what is left when those at the ends of a text are
dropped, and which numbers digits denote. No blank is a digit, so that runs of blanks and of digits
end each other.
-/

namespace DesignTokens.Text

variable {p : Char → Bool} {cs run rest front core back : List Char} {c : Char} {n : Nat}

/-! ### Runs -/

/-- A run goes up to a character of another class. -/
theorem takeWhile_run (hrun : ∀ c ∈ run, p c = true) (hrest : ∀ c ∈ rest.head?, p c = false) :
    (run ++ rest).takeWhile p = run := by
  rw [List.takeWhile_append_of_pos hrun]
  cases rest with
  | nil => simp
  | cons c rest => simp [hrest c rfl]

theorem dropWhile_run (hrun : ∀ c ∈ run, p c = true) (hrest : ∀ c ∈ rest.head?, p c = false) :
    (run ++ rest).dropWhile p = rest := by
  rw [List.dropWhile_append_of_pos hrun]
  cases rest with
  | nil => rfl
  | cons c rest => simp [hrest c rfl]

theorem head?_dropWhile (p : Char → Bool) (cs : List Char) :
    ∀ c ∈ (cs.dropWhile p).head?, p c = false := by
  intro c hc
  have h := List.head?_dropWhile_not p cs
  rw [hc] at h
  simpa using h

/-- Every text is a run and what follows it. -/
theorem exists_run (p : Char → Bool) (cs : List Char) : ∃ run rest, cs = run ++ rest ∧
    cs.takeWhile p = run ∧ cs.dropWhile p = rest ∧ (∀ c ∈ run, p c = true) ∧
      ∀ c ∈ rest.head?, p c = false :=
  ⟨cs.takeWhile p, cs.dropWhile p, List.takeWhile_append_dropWhile.symm, rfl, rfl,
    fun _ hc => List.mem_takeWhile_imp hc, head?_dropWhile p cs⟩

/-- What is true of a run and of the start of what follows is true of the start of both. -/
theorem forall_head?_append {P : Char → Prop} (hfront : ∀ c ∈ front, P c)
    (hrest : ∀ c ∈ rest.head?, P c) : ∀ c ∈ (front ++ rest).head?, P c := by
  cases front with
  | nil => exact hrest
  | cons d front =>
      rintro c ⟨⟩
      exact hfront d List.mem_cons_self

theorem stripBy_append (hfront : ∀ c ∈ front, p c = true) (hback : ∀ c ∈ back, p c = true)
    (hne : core ≠ []) (hhead : ∀ c ∈ core.head?, p c = false)
    (hlast : ∀ c ∈ core.getLast?, p c = false) : stripBy p (front ++ core ++ back) = core := by
  have hstart : ∀ c ∈ (core ++ back).head?, p c = false := by
    rwa [List.head?_append_of_ne_nil core hne]
  have hend : ∀ c ∈ core.reverse.head?, p c = false := by
    rwa [List.head?_reverse]
  calc stripBy p (front ++ core ++ back)
      = (((core ++ back).reverse).dropWhile p).reverse := by
        rw [stripBy, List.append_assoc, dropWhile_run hfront hstart]
    _ = ((back.reverse ++ core.reverse).dropWhile p).reverse := by rw [List.reverse_append]
    _ = core := by
        rw [dropWhile_run (by simpa using hback) hend, List.reverse_reverse]

/-- What stripping drops. -/
theorem exists_stripped (p : Char → Bool) (cs : List Char) : ∃ front back,
    cs = front ++ stripBy p cs ++ back ∧ (∀ c ∈ front, p c = true) ∧ ∀ c ∈ back, p c = true := by
  obtain ⟨front, kept, hcs, -, hkept, hfront, -⟩ := exists_run p cs
  obtain ⟨back, core, hreverse, -, hcore, hback, -⟩ := exists_run p kept.reverse
  refine ⟨front, back.reverse, ?_, hfront, fun c hc => hback c (List.mem_reverse.mp hc)⟩
  rw [stripBy, hkept, hcore, List.append_assoc, ← List.reverse_append, ← hreverse,
    List.reverse_reverse, hcs]

/-! ### Decimal digits -/

/-- The runs of blanks and those of digits are apart. -/
theorem isDigit_of_isBlank (h : isBlank c = true) : isDigit c = false := by
  have hapart : ∀ r ∈ digitRanges, ∀ q ∈ blankRanges, r.2 < q.1 ∨ q.2 < r.1 := by decide
  rw [← Bool.not_eq_true]
  intro hdigit
  obtain ⟨q, hq, hc⟩ := List.any_eq_true.mp h
  obtain ⟨n, hn⟩ := Option.isSome_iff_exists.mp hdigit
  obtain ⟨r, hr, -⟩ := Option.map_eq_some_iff.mp hn
  have hmem := List.mem_of_find?_eq_some hr
  have hrange := List.find?_some hr
  simp only [Bool.and_eq_true, decide_eq_true_eq] at hc hrange
  have := hapart r hmem q hq
  omega

theorem isBlank_of_isDigit (h : isDigit c = true) : isBlank c = false := by
  rw [← Bool.not_eq_true]
  intro hblank
  rw [isDigit_of_isBlank hblank] at h
  cases h

/-- Decimal digits, most significant first, denote a number. -/
def Numeral (cs : List Char) (n : Nat) : Prop :=
  ∃ values : List Nat, List.Forall₂ (fun c d => digitValue? c = some d) cs values ∧
    n = Nat.ofDigits 10 values.reverse

theorem digitsValue_eq (cs : List Char) :
    digitsValue cs = Nat.ofDigits 10 (cs.map fun c => (digitValue? c).getD 0).reverse := by
  have hfold : ∀ ds : List Char, ds.foldr (fun c n => 10 * n + (digitValue? c).getD 0) 0 =
      Nat.ofDigits 10 (ds.map fun c => (digitValue? c).getD 0) := by
    intro ds
    induction ds with
    | nil => rfl
    | cons c ds ih =>
        rw [List.foldr_cons, ih, List.map_cons, Nat.ofDigits_cons]
        exact Nat.add_comm _ _
  rw [← List.map_reverse, ← hfold, List.foldr_reverse, digitsValue]

theorem numeral_iff : Numeral cs n ↔ (∀ c ∈ cs, isDigit c = true) ∧ digitsValue cs = n := by
  constructor
  · rintro ⟨values, hvalues, rfl⟩
    have hmap : (∀ c ∈ cs, isDigit c = true) ∧
        values = cs.map fun c => (digitValue? c).getD 0 := by
      induction hvalues with
      | nil => simp
      | cons hc _ ih => simpa [isDigit, hc] using ih
    exact ⟨hmap.1, by rw [digitsValue_eq, ← hmap.2]⟩
  · rintro ⟨hdigits, rfl⟩
    refine ⟨cs.map fun c => (digitValue? c).getD 0, ?_, digitsValue_eq cs⟩
    rw [List.forall₂_map_right_iff, List.forall₂_same]
    intro c hc
    obtain ⟨d, hd⟩ := Option.isSome_iff_exists.mp (hdigits c hc)
    rw [hd, Option.getD_some]

/-! ### Hexadecimal digits -/

/-- The hexadecimal digits in lower case, each at the place of its value. -/
def lowerDigits : List Char := "0123456789abcdef".toList

/-- The hexadecimal digits in upper case. -/
def upperDigits : List Char := "0123456789ABCDEF".toList

/-- A digit of either case is read as its place among the sixteen. -/
theorem hexValue?_eq_some_iff :
    hexValue? c = some n ↔ lowerDigits[n]? = some c ∨ upperDigits[n]? = some c := by
  constructor
  · intro h
    have hdecimal : ∀ m, m < 10 → lowerDigits[m]? = some (Char.ofNat (48 + m)) := by decide
    have hlower : ∀ m, m < 6 → lowerDigits[m + 10]? = some (Char.ofNat (97 + m)) := by decide
    have hupper : ∀ m, m < 6 → upperDigits[m + 10]? = some (Char.ofNat (65 + m)) := by decide
    have hbounds : '0'.toNat = 48 ∧ '9'.toNat = 57 ∧ 'a'.toNat = 97 ∧ 'f'.toNat = 102 ∧
      'A'.toNat = 65 ∧ 'F'.toNat = 70 := by decide
    have hle : ∀ a b : Char, a ≤ b ↔ a.toNat ≤ b.toNat := fun a b => UInt32.le_iff_toNat_le
    have hback : ∀ start m, c.toNat = start + m → Char.ofNat (start + m) = c := by
      intro start m hc
      rw [← hc, Char.ofNat_toNat]
    simp only [hexValue?, hle, hbounds] at h
    split at h
    · obtain rfl := Option.some.inj h
      rw [hdecimal _ (by omega), hback _ _ (by omega)]
      exact .inl rfl
    · split at h
      · obtain rfl := Option.some.inj h
        rw [hlower _ (by omega), hback _ _ (by omega)]
        exact .inl rfl
      · split at h
        · obtain rfl := Option.some.inj h
          rw [hupper _ (by omega), hback _ _ (by omega)]
          exact .inr rfl
        · cases h
  · have hread : ∀ digits ∈ [lowerDigits, upperDigits], digits.length = 16 ∧
        ∀ m, m < 16 → (digits[m]?).map hexValue? = some (some m) := by decide
    have hdigit : ∀ digits ∈ [lowerDigits, upperDigits], digits[n]? = some c →
        hexValue? c = some n := by
      intro digits hmem hn
      obtain ⟨hlength, hall⟩ := hread digits hmem
      have hlt : n < 16 := hlength ▸ (List.getElem?_eq_some_iff.mp hn).1
      have hvalue := hall n hlt
      rw [hn] at hvalue
      exact Option.some.inj hvalue
    rintro (hn | hn)
    · exact hdigit lowerDigits (by simp) hn
    · exact hdigit upperDigits (by simp) hn

theorem hexDigit_lower (h : n < 16) : lowerDigits[n]? = some (hexDigit n) := by
  have hall : ∀ m, m < 16 → lowerDigits[m]? = some (hexDigit m) := by decide
  exact hall n h

/-- Two digits of a number below 256. -/
theorem hexDigits_two (h : n < 256) : hexDigits 2 n = [hexDigit (n / 16), hexDigit (n % 16)] := by
  have hmod : n / 16 % 16 = n / 16 := Nat.mod_eq_of_lt (by omega)
  rw [hexDigits, hexDigits, hexDigits, hmod]
  rfl

end DesignTokens.Text
