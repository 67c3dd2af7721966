import DesignTokens.Proofs.Palette.Seeding
import DesignTokens.Proofs.Text.Digits

/-!
Which texts spell a colour, and the one spelling in which a colour is written.

A spelling is three or six hexadecimal digits after `#`, or three channels between parentheses after
`rgb` or `rgba`, perhaps with an opacity. The grammar is a relation between texts and channels that
says nothing of how a text is read. Each part of it is read as it is described, whatever follows, so
that reading accepts the spellings and nothing else. What is written is one of them, and of two
spellings of a colour the same one is written.
-/

namespace DesignTokens.Color

variable {cs text rest digits : List Char} {s : String} {c : Color} {n r g b : Nat}

/-! ### Spellings -/

/-- Nothing but blanks. -/
def Blanks (cs : List Char) : Prop := ∀ c ∈ cs, Text.isBlank c = true

/-- A hexadecimal digit of either case, at the place of its value among the sixteen. -/
def HexDigit (c : Char) (n : Nat) : Prop :=
  Text.lowerDigits[n]? = some c ∨ Text.upperDigits[n]? = some c

/-- Two hexadecimal digits for each channel, or one that stands for two of it. -/
inductive HexSpelling : List Char → Nat → Nat → Nat → Prop
  | six {c₁ c₂ c₃ c₄ c₅ c₆ : Char} {n₁ n₂ n₃ n₄ n₅ n₆ : Nat} (h₁ : HexDigit c₁ n₁)
      (h₂ : HexDigit c₂ n₂) (h₃ : HexDigit c₃ n₃) (h₄ : HexDigit c₄ n₄) (h₅ : HexDigit c₅ n₅)
      (h₆ : HexDigit c₆ n₆) :
      HexSpelling [c₁, c₂, c₃, c₄, c₅, c₆] (16 * n₁ + n₂) (16 * n₃ + n₄) (16 * n₅ + n₆)
  | three {c₁ c₂ c₃ : Char} {r g b : Nat} (h : HexSpelling [c₁, c₁, c₂, c₂, c₃, c₃] r g b) :
      HexSpelling [c₁, c₂, c₃] r g b

/-- One to three decimal digits between blanks. -/
def Channel (cs : List Char) (n : Nat) : Prop :=
  ∃ front digits back, cs = front ++ digits ++ back ∧ Blanks front ∧ Blanks back ∧
    1 ≤ digits.length ∧ digits.length ≤ 3 ∧ Text.Numeral digits n

/-- Nothing, or a comma and then digits and points between blanks. -/
def Opacity (cs : List Char) : Prop :=
  cs = [] ∨ ∃ front run back, cs = ',' :: (front ++ run ++ back) ∧ Blanks front ∧ Blanks back ∧
    run ≠ [] ∧ ∀ c ∈ run, c = '.' ∨ Text.isDigit c = true

/-- Three channels and perhaps an opacity between parentheses. -/
inductive FunctionalSpelling : List Char → Nat → Nat → Nat → Prop
  | mk {name : String} {red green blue opacity : List Char} {r g b : Nat}
      (hname : name = "rgb" ∨ name = "rgba") (hred : Channel red r) (hgreen : Channel green g)
      (hblue : Channel blue b) (hopacity : Opacity opacity) :
      FunctionalSpelling (name.toList ++ '(' :: (red ++ ',' :: (green ++ ',' ::
        (blue ++ (opacity ++ [')']))))) r g b

/-- A text spells a colour of these channels. -/
inductive Spells : List Char → Nat → Nat → Nat → Prop
  | hex {digits : List Char} {r g b : Nat} (h : HexSpelling digits r g b) :
      Spells ('#' :: digits) r g b
  | functional {cs : List Char} {r g b : Nat} (h : FunctionalSpelling cs r g b) (hred : r ≤ 255)
      (hgreen : g ≤ 255) (hblue : b ≤ 255) : Spells cs r g b

/-- A text between blanks spells a colour of these channels. -/
def Denotes (s : String) (r g b : Nat) : Prop :=
  ∃ front core back, s.toList = front ++ core ++ back ∧ Blanks front ∧ Blanks back ∧
    Spells core r g b

/-! ### Hexadecimal digits -/

theorem HexDigit.lt {c : Char} (h : HexDigit c n) : n < 16 := by
  have hlength : Text.lowerDigits.length = 16 ∧ Text.upperDigits.length = 16 := by decide
  rcases h with h | h <;> have := (List.getElem?_eq_some_iff.mp h).1 <;> omega

theorem HexDigit.unique {c : Char} {m : Nat} (h : HexDigit c m) (h' : HexDigit c n) : m = n :=
  Option.some.inj
    ((Text.hexValue?_eq_some_iff.mpr h).symm.trans (Text.hexValue?_eq_some_iff.mpr h'))

theorem HexDigit.notBlank {c : Char} (h : HexDigit c n) : Text.isBlank c = false := by
  have hnone : (Text.lowerDigits ++ Text.upperDigits).any Text.isBlank = false := by decide
  have hmem : c ∈ Text.lowerDigits ++ Text.upperDigits :=
    List.mem_append.mpr (h.imp List.mem_of_getElem? List.mem_of_getElem?)
  simpa using List.any_eq_false.mp hnone c hmem

theorem mapM_hexValue? {values : List Nat} :
    digits.mapM Text.hexValue? = some values ↔ List.Forall₂ HexDigit digits values := by
  induction digits generalizing values with
  | nil => simp [eq_comm]
  | cons c digits ih =>
      simp only [List.mapM_cons, Option.bind_eq_bind, Option.bind_eq_some_iff, Option.pure_def,
        Option.some.injEq, ih, Text.hexValue?_eq_some_iff, List.forall₂_cons_left_iff]
      constructor
      · rintro ⟨n, hn, values, hvalues, rfl⟩
        exact ⟨n, values, hn, hvalues, rfl⟩
      · rintro ⟨n, values, hn, hvalues, rfl⟩
        exact ⟨n, hn, values, hvalues, rfl⟩

theorem toNat_ofNat (h : n ≤ 255) : (UInt8.ofNat n).toNat = n := by
  rw [UInt8.toNat_ofNat']
  exact Nat.mod_eq_of_lt (by omega)

theorem HexSpelling.le (h : HexSpelling digits r g b) : r ≤ 255 ∧ g ≤ 255 ∧ b ≤ 255 := by
  induction h with
  | six h₁ h₂ h₃ h₄ h₅ h₆ =>
      have := h₁.lt
      have := h₂.lt
      have := h₃.lt
      have := h₄.lt
      have := h₅.lt
      have := h₆.lt
      omega
  | three _ ih => exact ih

theorem HexSpelling.of_forall₂ {n₁ n₂ n₃ n₄ n₅ n₆ : Nat}
    (h : List.Forall₂ HexDigit digits [n₁, n₂, n₃, n₄, n₅, n₆]) :
    HexSpelling digits (16 * n₁ + n₂) (16 * n₃ + n₄) (16 * n₅ + n₆) := by
  cases h with | cons h₁ h =>
  cases h with | cons h₂ h =>
  cases h with | cons h₃ h =>
  cases h with | cons h₄ h =>
  cases h with | cons h₅ h =>
  cases h with | cons h₆ h =>
  cases h
  exact .six h₁ h₂ h₃ h₄ h₅ h₆

theorem HexSpelling.ofHexDigits? (h : HexSpelling digits r g b) :
    ofHexDigits? digits = some ⟨.ofNat r, .ofNat g, .ofNat b⟩ := by
  have hdouble : ∀ n, 17 * n = 16 * n + n := by omega
  cases h with
  | six h₁ h₂ h₃ h₄ h₅ h₆ =>
      rw [Color.ofHexDigits?, mapM_hexValue?.mpr
        (.cons h₁ (.cons h₂ (.cons h₃ (.cons h₄ (.cons h₅ (.cons h₆ .nil))))))]
      rfl
  | three h =>
      cases h with
      | six h₁ h₁' h₂ h₂' h₃ h₃' =>
          obtain rfl := h₁.unique h₁'
          obtain rfl := h₂.unique h₂'
          obtain rfl := h₃.unique h₃'
          rw [Color.ofHexDigits?, mapM_hexValue?.mpr (.cons h₁ (.cons h₂ (.cons h₃ .nil)))]
          simp only [Option.bind_eq_bind, Option.bind_some, hdouble]

theorem ofHexDigits?_eq_some_iff : Color.ofHexDigits? digits = some c ↔
    HexSpelling digits c.red.toNat c.green.toNat c.blue.toNat := by
  constructor
  · intro h
    obtain ⟨r, g, b, hspelling⟩ : ∃ r g b, HexSpelling digits r g b := by
      simp only [Color.ofHexDigits?, Option.bind_eq_bind, Option.bind_eq_some_iff,
        mapM_hexValue?] at h
      obtain ⟨values, hvalues, h⟩ := h
      split at h
      · cases hvalues with | cons hr hvalues =>
        cases hvalues with | cons hg hvalues =>
        cases hvalues with | cons hb hvalues =>
        cases hvalues
        exact ⟨_, _, _, .three (.six hr hr hg hg hb hb)⟩
      · exact ⟨_, _, _, .of_forall₂ hvalues⟩
      · cases h
    obtain ⟨hr, hg, hb⟩ := hspelling.le
    obtain rfl := Option.some.inj (h.symm.trans hspelling.ofHexDigits?)
    simpa only [toNat_ofNat hr, toNat_ofNat hg, toNat_ofNat hb] using hspelling
  · intro h
    simpa using h.ofHexDigits?

/-! ### Channels -/

theorem exists_of_channel? (h : channel? cs = some (n, rest)) :
    ∃ text, cs = text ++ rest ∧ Channel text n := by
  -- the runs that reading goes through are the parts of the channel
  obtain ⟨front, inner, hcs, -, hinner, hfront, -⟩ := Text.exists_run Text.isBlank cs
  obtain ⟨digits, after, hafter, htake, hdrop, hdigits, -⟩ := Text.exists_run Text.isDigit inner
  obtain ⟨back, last, hlast, -, hrest, hback, -⟩ := Text.exists_run Text.isBlank after
  simp only [channel?, hinner, htake, hdrop, hrest] at h
  split at h
  · cases h
  · next hlength =>
    obtain ⟨rfl, rfl⟩ := Prod.mk.inj (Option.some.inj h)
    simp only [Bool.or_eq_true, List.isEmpty_iff, decide_eq_true_eq, not_or, not_lt] at hlength
    refine ⟨front ++ digits ++ back, ?_, front, digits, back, rfl, hfront, hback, ?_, hlength.2,
      Text.numeral_iff.mpr ⟨hdigits, rfl⟩⟩
    · rw [hcs, hafter, hlast]
      simp
    · exact List.length_pos_iff.mpr hlength.1

/-- A channel is not read on into such a text. -/
def EndsChannel (rest : List Char) : Prop :=
  ∀ c ∈ rest.head?, Text.isBlank c = false ∧ Text.isDigit c = false

theorem endsChannel_comma (rest : List Char) : EndsChannel (',' :: rest) := by
  rintro c ⟨⟩
  decide

theorem Opacity.endsChannel (h : Opacity text) : EndsChannel (text ++ [')']) := by
  rcases h with rfl | ⟨front, run, back, rfl, -⟩
  · rintro c ⟨⟩
    decide
  · exact endsChannel_comma _

theorem channel?_append (h : Channel text n) (hrest : EndsChannel rest) :
    channel? (text ++ rest) = some (n, rest) := by
  obtain ⟨front, digits, back, rfl, hfront, hback, hpos, hthree, hnumeral⟩ := h
  obtain ⟨hdigits, rfl⟩ := Text.numeral_iff.mp hnumeral
  have hne : digits ≠ [] := List.length_pos_iff.mp hpos
  have hstart : ∀ c ∈ (digits ++ (back ++ rest)).head?, Text.isBlank c = false := by
    rw [List.head?_append_of_ne_nil _ hne]
    exact fun c hc => Text.isBlank_of_isDigit (hdigits c (List.mem_of_mem_head? hc))
  have hend : ∀ c ∈ (back ++ rest).head?, Text.isDigit c = false :=
    Text.forall_head?_append (fun c hc => Text.isDigit_of_isBlank (hback c hc))
      fun c hc => (hrest c hc).2
  have hlength : ¬(digits.isEmpty || 3 < digits.length) = true := by
    simpa [hne] using hthree
  rw [List.append_assoc, List.append_assoc, channel?, Text.dropWhile_run hfront hstart,
    Text.takeWhile_run hdigits hend, Text.dropWhile_run hdigits hend,
    Text.dropWhile_run hback fun c hc => (hrest c hc).1, if_neg hlength]

/-! ### Functional spellings -/

theorem exists_of_closes (h : closes cs = true) :
    ∃ opacity, cs = opacity ++ [')'] ∧ Opacity opacity := by
  unfold closes at h
  split at h
  · exact ⟨[], rfl, .inl rfl⟩
  · next after =>
    obtain ⟨front, inner, hafter, -, hinner, hfront, -⟩ := Text.exists_run Text.isBlank after
    obtain ⟨run, last, hlast, htake, hdrop, hrun, -⟩ :=
      Text.exists_run (fun c => c == '.' || Text.isDigit c) inner
    obtain ⟨back, tail, htail, -, hrest, hback, -⟩ := Text.exists_run Text.isBlank last
    simp only [hinner, htake, hdrop, hrest, Bool.and_eq_true, Bool.not_eq_true',
      List.isEmpty_eq_false_iff, beq_iff_eq] at h
    obtain ⟨hne, rfl⟩ := h
    refine ⟨',' :: (front ++ run ++ back), ?_, .inr ⟨front, run, back, rfl, hfront, hback, hne,
      fun c hc => by simpa using hrun c hc⟩⟩
    rw [hafter, hlast, htail]
    simp
  · cases h

theorem Opacity.closes (h : Opacity text) : closes (text ++ [')']) = true := by
  rcases h with rfl | ⟨front, run, back, rfl, hfront, hback, hne, hrun⟩
  · rfl
  · have hrun' : ∀ c ∈ run, (c == '.' || Text.isDigit c) = true := by simpa using hrun
    have hstart : ∀ c ∈ (run ++ (back ++ [')'])).head?, Text.isBlank c = false := by
      rw [List.head?_append_of_ne_nil _ hne]
      intro c hc
      rcases hrun c (List.mem_of_mem_head? hc) with rfl | hdigit
      · decide
      · exact Text.isBlank_of_isDigit hdigit
    have hend : ∀ c ∈ (back ++ [')']).head?, (c == '.' || Text.isDigit c) = false := by
      apply Text.forall_head?_append
      · intro c hc
        rw [Text.isDigit_of_isBlank (hback c hc), Bool.or_false, beq_eq_false_iff_ne]
        rintro rfl
        cases hback '.' hc
      · rintro c ⟨⟩
        decide
    have hclose : ∀ c ∈ [')'].head?, Text.isBlank c = false := by
      rintro c ⟨⟩
      decide
    simp only [Color.closes, List.append_assoc, List.cons_append, Text.dropWhile_run hfront hstart,
      Text.takeWhile_run hrun' hend, Text.dropWhile_run hrun' hend,
      Text.dropWhile_run hback hclose]
    simpa using hne

theorem afterName?_eq_some_iff : afterName? cs = some rest ↔
    ∃ name : String, (name = "rgb" ∨ name = "rgba") ∧ cs = name.toList ++ '(' :: rest := by
  constructor
  · intro h
    unfold afterName? at h
    split at h
    · cases h
      exact ⟨"rgba", .inr rfl, rfl⟩
    · cases h
      exact ⟨"rgb", .inl rfl, rfl⟩
    · cases h
  · rintro ⟨name, rfl | rfl, rfl⟩ <;> rfl

theorem afterComma?_eq_some_iff : afterComma? cs = some rest ↔ cs = ',' :: rest := by
  constructor
  · intro h
    unfold afterComma? at h
    split at h <;> cases h
    rfl
  · rintro rfl
    rfl

theorem channels?_eq_some_iff : channels? cs = some (r, g, b) ↔ FunctionalSpelling cs r g b := by
  simp only [channels?, Option.bind_eq_bind, Option.bind_eq_some_iff, afterName?_eq_some_iff,
    afterComma?_eq_some_iff]
  constructor
  · rintro ⟨inner, ⟨name, hname, rfl⟩, ⟨red, afterRed⟩, hred, afterComma, rfl, ⟨green, afterGreen⟩,
      hgreen, afterComma', rfl, ⟨blue, afterBlue⟩, hblue, h⟩
    obtain ⟨redText, rfl, hredText⟩ := exists_of_channel? hred
    obtain ⟨greenText, rfl, hgreenText⟩ := exists_of_channel? hgreen
    obtain ⟨blueText, rfl, hblueText⟩ := exists_of_channel? hblue
    split at h
    · next hcloses =>
      obtain ⟨opacity, rfl, hopacity⟩ := exists_of_closes hcloses
      cases h
      exact .mk hname hredText hgreenText hblueText hopacity
    · cases h
  · rintro ⟨hname, hred, hgreen, hblue, hopacity⟩
    exact ⟨_, ⟨_, hname, rfl⟩, _, channel?_append hred (endsChannel_comma _), _, rfl, _,
      channel?_append hgreen (endsChannel_comma _), _, rfl, _,
      channel?_append hblue hopacity.endsChannel, if_pos hopacity.closes⟩

/-! ### Reading -/

theorem HexSpelling.notBlank_getLast (h : HexSpelling digits r g b) :
    ∀ c ∈ ('#' :: digits).getLast?, Text.isBlank c = false := by
  cases h with
  | six h₁ h₂ h₃ h₄ h₅ h₆ =>
      rintro c ⟨⟩
      exact h₆.notBlank
  | three h =>
      cases h with
      | six h₁ h₂ h₃ h₄ h₅ h₆ =>
          rintro c ⟨⟩
          exact h₆.notBlank

theorem FunctionalSpelling.exists_inner (h : FunctionalSpelling cs r g b) :
    ∃ inner, cs = 'r' :: (inner ++ [')']) := by
  cases h with
  | @mk name red green blue opacity _ _ _ hname =>
      let channels := red ++ ',' :: (green ++ ',' :: (blue ++ opacity))
      rcases hname with rfl | rfl
      · exact ⟨'g' :: 'b' :: '(' :: channels, by simp [channels]⟩
      · exact ⟨'g' :: 'b' :: 'a' :: '(' :: channels, by simp [channels]⟩

/-- A spelling is what is left of a text when the blanks around it are dropped. -/
theorem Spells.solid (h : Spells cs r g b) : cs ≠ [] ∧ (∀ c ∈ cs.head?, Text.isBlank c = false) ∧
    ∀ c ∈ cs.getLast?, Text.isBlank c = false := by
  cases h with
  | hex h =>
      refine ⟨by simp, ?_, h.notBlank_getLast⟩
      rintro c ⟨⟩
      decide
  | functional h =>
      obtain ⟨inner, rfl⟩ := h.exists_inner
      refine ⟨by simp, ?_, ?_⟩
      · rintro c ⟨⟩
        decide
      · rw [← List.cons_append, List.getLast?_concat]
        rintro c ⟨⟩
        decide

theorem Spells.ofText (hs : Text.stripBy Text.isBlank s.toList = cs) (h : Spells cs r g b) :
    ofText s = .ok ⟨.ofNat r, .ofNat g, .ofNat b⟩ := by
  cases h with
  | hex h => simp only [Color.ofText, hs, h.ofHexDigits?]
  | functional h hred hgreen hblue =>
      have hread := channels?_eq_some_iff.mpr h
      -- what begins with a letter is not read as digits
      obtain ⟨inner, rfl⟩ := h.exists_inner
      rw [Color.ofText, hs]
      split
      · next heq => cases heq
      · rw [hread]
        exact if_pos ⟨hred, hgreen, hblue⟩

theorem spells_of_ofText (h : ofText s = .ok c) : Spells (Text.stripBy Text.isBlank s.toList)
    c.red.toNat c.green.toNat c.blue.toNat := by
  unfold ofText at h
  split at h
  · next digits hs =>
    split at h
    · next c' hread =>
      cases h
      rw [hs]
      exact .hex (ofHexDigits?_eq_some_iff.mp hread)
    · cases h
  · split at h
    · cases h
    · next red green blue hread =>
      split at h
      · next hle =>
        cases h
        obtain ⟨hred, hgreen, hblue⟩ := hle
        simp only [toNat_ofNat hred, toNat_ofNat hgreen, toNat_ofNat hblue]
        exact .functional (channels?_eq_some_iff.mp hread) hred hgreen hblue
      · cases h

theorem Denotes.le (h : Denotes s r g b) : r ≤ 255 ∧ g ≤ 255 ∧ b ≤ 255 := by
  obtain ⟨-, core, -, -, -, -, hcore⟩ := h
  cases hcore with
  | hex h => exact h.le
  | functional _ hred hgreen hblue => exact ⟨hred, hgreen, hblue⟩

theorem Denotes.ofText (h : Denotes s r g b) : ofText s = .ok ⟨.ofNat r, .ofNat g, .ofNat b⟩ := by
  obtain ⟨front, core, back, hs, hfront, hback, hcore⟩ := h
  obtain ⟨hne, hhead, hlast⟩ := hcore.solid
  apply hcore.ofText
  rw [hs, Text.stripBy_append hfront hback hne hhead hlast]

/-! ### Writing -/

/-- A text is `#` and the two lower-case digits of each channel. -/
def Normal (s : String) (r g b : Nat) : Prop := ∃ digits, s.toList = '#' :: digits ∧
  List.Forall₂ (fun d n => Text.lowerDigits[n]? = some d) digits
    [r / 16, r % 16, g / 16, g % 16, b / 16, b % 16]

theorem normal_hex (c : Color) : Normal c.hex c.red.toNat c.green.toNat c.blue.toNat := by
  have hred := c.red.toNat_lt
  have hgreen := c.green.toNat_lt
  have hblue := c.blue.toNat_lt
  refine ⟨_, String.toList_ofList, ?_⟩
  rw [Text.hexDigits_two hred, Text.hexDigits_two hgreen, Text.hexDigits_two hblue]
  repeat' first
    | exact .nil
    | refine .cons (Text.hexDigit_lower (by omega)) ?_

/-- What is written denotes the channels it is written for. -/
theorem Normal.denotes (h : Normal s r g b) : Denotes s r g b := by
  obtain ⟨digits, hs, hdigits⟩ := h
  refine ⟨[], '#' :: digits, [], by simpa using hs, by simp [Blanks], by simp [Blanks], .hex ?_⟩
  simpa only [Nat.div_add_mod] using HexSpelling.of_forall₂ (hdigits.imp fun _ _ hd => .inl hd)

theorem ofText_hex (c : Color) : ofText c.hex = .ok c := by
  simpa using c.normal_hex.denotes.ofText

theorem code_ofCode (h : n < 0x1000000) : (ofCode n).code = n := by
  simp only [code, ofCode, UInt8.toNat_ofNat']
  omega

theorem denotes_of_ofText (h : ofText s = .ok c) :
    Denotes s c.red.toNat c.green.toNat c.blue.toNat := by
  obtain ⟨front, back, hs, hfront, hback⟩ := Text.exists_stripped Text.isBlank s.toList
  exact ⟨front, _, back, hs, hfront, hback, spells_of_ofText h⟩

theorem denotes_iff : Denotes s r g b ↔
    ∃ c, ofText s = .ok c ∧ c.red.toNat = r ∧ c.green.toNat = g ∧ c.blue.toNat = b := by
  constructor
  · intro h
    obtain ⟨hred, hgreen, hblue⟩ := h.le
    exact ⟨_, h.ofText, toNat_ofNat hred, toNat_ofNat hgreen, toNat_ofNat hblue⟩
  · rintro ⟨c, hread, rfl, rfl, rfl⟩
    exact denotes_of_ofText hread

theorem not_denotes_iff :
    (¬∃ r g b, Denotes s r g b) ↔ ∃ cause, ofText s = .error (.invalidColor cause s) := by
  constructor
  · intro h
    rcases hread : ofText s with f | c
    · obtain ⟨cause, rfl⟩ := invalidColor_of_ofText_eq_error hread
      exact ⟨cause, rfl⟩
    · exact absurd ⟨_, _, _, denotes_of_ofText hread⟩ h
  · rintro ⟨cause, hread⟩ ⟨r, g, b, h⟩
    cases hread.symm.trans h.ofText

/-- The texts between blanks that spell a colour are those that are read, as the channels they
denote. Any other is refused as no colour. A colour is written in one form, which is read as the
colour again, and every number of 24 bits is the code of the colour that is written for it. -/
theorem denotes_iff_ofText (s : String) :
    (∀ r g b, Denotes s r g b ↔
      ∃ c, ofText s = .ok c ∧ c.red.toNat = r ∧ c.green.toNat = g ∧ c.blue.toNat = b) ∧
    ((¬∃ r g b, Denotes s r g b) ↔ ∃ cause, ofText s = .error (.invalidColor cause s)) ∧
    (∀ c, ofText s = .ok c →
      Normal c.hex c.red.toNat c.green.toNat c.blue.toNat ∧ ofText c.hex = .ok c) ∧
    ∀ n, n < 0x1000000 → (ofText (ofCode n).hex).map opaqueCode = .ok (0xff000000 + n) := by
  refine ⟨fun r g b => denotes_iff, not_denotes_iff, fun c _ => ⟨c.normal_hex, c.ofText_hex⟩, ?_⟩
  intro n hn
  calc (ofText (ofCode n).hex).map opaqueCode
      = .ok (ofCode n).opaqueCode := by rw [ofText_hex, Except.map]
    _ = .ok (0xff000000 + n) := by rw [opaqueCode, code_ofCode hn]

/-- Digits of another script, uneven blanks and an opacity. -/
theorem denotes_iff_ofText_mixed :
    Denotes " rgba(٣, 10 ,255 , .5)\n" 3 10 255 ∧ Normal "#030aff" 3 10 255 ∧
      ofText "#030aff" = .ok ⟨3, 10, 255⟩ ∧ (¬∃ r g b, Denotes "rgb(3, 10, 256)" r g b) ∧
      (ofText (ofCode 0x030aff).hex).map opaqueCode = .ok (0xff000000 + 0x030aff) := by
  have hread : ofText " rgba(٣, 10 ,255 , .5)\n" = .ok ⟨3, 10, 255⟩ := by rfl
  have hrefused : ofText "rgb(3, 10, 256)" = .error (.invalidColor .channel "rgb(3, 10, 256)") := by
    rfl
  obtain ⟨hdenotes, -, hwritten, hcode⟩ := denotes_iff_ofText " rgba(٣, 10 ,255 , .5)\n"
  obtain ⟨hnormal, hagain⟩ := hwritten _ hread
  exact ⟨(hdenotes 3 10 255).mpr ⟨_, hread, rfl, rfl, rfl⟩, hnormal, hagain,
    (denotes_iff_ofText _).2.1.mpr ⟨_, hrefused⟩, hcode _ (by decide)⟩

end DesignTokens.Color
