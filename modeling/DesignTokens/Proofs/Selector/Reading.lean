import DesignTokens.Selector.Specificity
import DesignTokens.Text.Hex
import Mathlib.Data.List.Chain

/-!
How a text reads as a list of selectors: members between commas, each a chain of compounds between
blanks, each compound a row of simple selectors that are written without anything between them.
Simple selectors are types, classes, pseudo-classes without argument, attributes with a quoted
value, and boosters. A text is read by the row of tokens that it is spelled by, and it is spelled by
one at most.

Names are those of style sheets except that a backslash only takes the next character along;
escapes by number are not read.
-/

namespace DesignTokens.Selector

/-! ### Names and quoted values -/

/-- Characters of a kind, and characters of a kind that a backslash takes along. -/
def areUnits (bare escaped : Char → Bool) : List Char → Bool
  | [] => true
  | ['\\'] => false
  | '\\' :: c :: cs => escaped c && areUnits bare escaped cs
  | c :: cs => bare c && areUnits bare escaped cs

/-- A character that stands for itself in names. -/
def isBare (c : Char) : Bool :=
  c.isAlphanum || c == '-' || c == '_' || (0x80 ≤ c.toNat && !Text.isBlank c)

/-- A character that stands for itself behind a backslash. -/
def isEscapable (c : Char) : Bool := !Text.isBlank c && (Text.hexValue? c).isNone

/-- A name starts with no digit, not even behind a hyphen, and is more than a hyphen. -/
def startsName : List Char → Bool
  | [] => false
  | ['-'] => false
  | '-' :: c :: _ => !c.isDigit
  | c :: _ => !c.isDigit

def isIdent (name : List Char) : Bool := startsName name && areUnits isBare isEscapable name

/-- What may stand between quotes. -/
def isQuoted (quote : Char) (value : List Char) : Bool :=
  areUnits (fun c => c != quote && c != '\n') (fun _ => true) value

section Units

variable {bare escaped : Char → Bool} {c : Char} {cs : List Char}

theorem areUnits_cons_of_ne (hc : c ≠ '\\') :
    areUnits bare escaped (c :: cs) = (bare c && areUnits bare escaped cs) :=
  areUnits.eq_4 bare escaped c cs (fun hlone _ => hc hlone) fun _ _ hescape _ => hc hescape

theorem exists_of_areUnits_backslash (h : areUnits bare escaped ('\\' :: cs) = true) :
    ∃ d ds, cs = d :: ds ∧ escaped d = true ∧ areUnits bare escaped ds = true := by
  cases cs with
  | nil => cases h
  | cons d ds => exact ⟨d, ds, rfl, by simpa [areUnits] using h⟩

/-- Nothing goes on here. -/
def EndsUnits (bare : Char → Bool) (rest : List Char) : Prop :=
  ∀ c ∈ rest.head?, c ≠ '\\' ∧ bare c = false

theorem EndsUnits.ne_append {xs r r' : List Char} (hr : EndsUnits bare r)
    (hxs : areUnits bare escaped (c :: xs) = true) : r ≠ c :: xs ++ r' := by
  rintro rfl
  obtain ⟨hne, hbare⟩ := hr c rfl
  rw [areUnits_cons_of_ne hne, hbare] at hxs
  cases hxs

/-- Units end where nothing goes on. -/
theorem areUnits_append_inj {xs ys r r' : List Char} (hxs : areUnits bare escaped xs = true)
    (hys : areUnits bare escaped ys = true) (hr : EndsUnits bare r) (hr' : EndsUnits bare r')
    (h : xs ++ r = ys ++ r') : xs = ys ∧ r = r' := by
  induction xs using areUnits.induct generalizing ys with
  | case1 =>
      cases ys with
      | nil => exact ⟨rfl, h⟩
      | cons y ys => exact absurd h (hr.ne_append hys)
  | case2 => cases hxs
  | case3 c cs ih =>
      cases ys with
      | nil => exact absurd h.symm (hr'.ne_append hxs)
      | cons y ys =>
          simp only [List.cons_append, List.cons.injEq] at h
          obtain ⟨rfl, h⟩ := h
          obtain ⟨d, ds, rfl, -, hds⟩ := exists_of_areUnits_backslash hys
          simp only [List.cons_append, List.cons.injEq] at h
          obtain ⟨rfl, h⟩ := h
          simp only [areUnits, Bool.and_eq_true] at hxs
          obtain ⟨rfl, rfl⟩ := ih hxs.2 hds h
          exact ⟨rfl, rfl⟩
  | case4 c cs hlone hescape ih =>
      cases ys with
      | nil => exact absurd h.symm (hr'.ne_append hxs)
      | cons y ys =>
          simp only [List.cons_append, List.cons.injEq] at h
          obtain ⟨rfl, h⟩ := h
          have hc : c ≠ '\\' := by
            rintro rfl
            cases cs with
            | nil => exact hlone rfl rfl
            | cons d ds => exact hescape d ds rfl rfl
          simp only [areUnits_cons_of_ne hc, Bool.and_eq_true] at hxs hys
          obtain ⟨rfl, rfl⟩ := ih hxs.2 hys.2 h
          exact ⟨rfl, rfl⟩

theorem areUnits_append {xs ys : List Char} (hxs : areUnits bare escaped xs = true)
    (hys : areUnits bare escaped ys = true) : areUnits bare escaped (xs ++ ys) = true := by
  induction xs using areUnits.induct with
  | case1 => exact hys
  | case2 => cases hxs
  | case3 c cs ih =>
      simp only [areUnits, Bool.and_eq_true] at hxs
      simp only [List.cons_append, areUnits, hxs.1, ih hxs.2, Bool.and_self]
  | case4 c cs hlone hescape ih =>
      have hc : c ≠ '\\' := by
        rintro rfl
        cases cs with
        | nil => exact hlone rfl rfl
        | cons d ds => exact hescape d ds rfl rfl
      rw [areUnits_cons_of_ne hc, Bool.and_eq_true] at hxs
      rw [List.cons_append, areUnits_cons_of_ne hc, hxs.1, ih hxs.2, Bool.and_self]

end Units

/-! ### Simple selectors -/

inductive Simple where
  | type (name : List Char)
  | cls (name : List Char)
  | pseudo (name : List Char)
  | attr (name operator : List Char) (quote : Char) (value : List Char)
  /-- The negation that every element satisfies. -/
  | booster
  deriving DecidableEq

namespace Simple

def spell : Simple → List Char
  | type name => name
  | cls name => '.' :: name
  | pseudo name => ':' :: name
  | attr name operator quote value =>
    '[' :: (name ++ (operator ++ '=' :: quote :: (value ++ [quote, ']'])))
  | booster => Selector.booster.toList

/-- Pseudo-elements that may be written like pseudo-classes. -/
def elements : List String := ["before", "after", "first-line", "first-letter"]

/-- How the value of an attribute is compared. -/
def operators : List (List Char) := [[], ['~'], ['|'], ['^'], ['$'], ['*']]

/-- Its parts are what such a selector has. -/
def IsWritten : Simple → Prop
  | type name | cls name => isIdent name = true
  | pseudo name => isIdent name = true ∧ String.ofList name ∉ elements
  | attr name operator quote value =>
    isIdent name = true ∧ operator ∈ operators ∧ (quote = '"' ∨ quote = '\'') ∧
      isQuoted quote value = true
  | booster => True

instance (s : Simple) : Decidable s.IsWritten := by
  cases s <;> unfold IsWritten <;> infer_instance

def isType : Simple → Bool
  | type _ => true
  | _ => false

/-- Its text ends in a name, which would go on in a type. -/
def endsInName : Simple → Bool
  | type _ | cls _ | pseudo _ => true
  | attr .. | booster => false

end Simple

/-! ### Tokens -/

/-- White space of style sheets. -/
def isGap (c : Char) : Bool :=
  c == ' ' || c == '\t' || c == '\n' || c == '\r' || c == '\x0c'

inductive Token where
  | simple (s : Simple)
  | gap (c : Char)
  | comma
  deriving DecidableEq

namespace Token

def spell : Token → List Char
  | simple s => s.spell
  | gap c => [c]
  | comma => [',']

def IsWritten : Token → Prop
  | simple s => s.IsWritten
  | gap c => isGap c = true
  | comma => True

instance (t : Token) : Decidable t.IsWritten := by
  cases t <;> unfold IsWritten <;> infer_instance

def isType : Token → Bool
  | simple s => s.isType
  | _ => false

def endsInName : Token → Bool
  | simple s => s.endsInName
  | _ => false

/-- The text of the first token ends where that of the second begins. -/
def Apart (s t : Token) : Prop := s.endsInName = true → t.isType = false

instance (s t : Token) : Decidable (s.Apart t) :=
  inferInstanceAs (Decidable (s.endsInName = true → t.isType = false))

end Token

/-- The text of tokens. -/
def spell (ts : List Token) : List Char := ts.flatMap Token.spell

theorem spell_append (ts us : List Token) : spell (ts ++ us) = spell ts ++ spell us :=
  List.flatMap_append

theorem spell_cons (t : Token) (ts : List Token) : spell (t :: ts) = t.spell ++ spell ts :=
  List.flatMap_cons

/-- The tokens are those that their text is read as. -/
structure AreWritten (ts : List Token) : Prop where
  each : ∀ t ∈ ts, t.IsWritten
  apart : ts.IsChain Token.Apart

/-! ### A text is read in one way -/

/-- A character that starts a token, unless the token is a type. -/
def isMark (c : Char) : Bool := c == '.' || c == ':' || c == '[' || c == ',' || isGap c

theorem isMark_iff {c : Char} : isMark c = true ↔ c = '.' ∨ c = ':' ∨ c = '[' ∨ c = ',' ∨
    c = ' ' ∨ c = '\t' ∨ c = '\n' ∨ c = '\r' ∨ c = '\x0c' := by
  simp [isMark, isGap, or_assoc]

/-- Names end at marks. -/
theorem bare_of_isMark {c : Char} (h : isMark c = true) : c ≠ '\\' ∧ isBare c = false := by
  rcases isMark_iff.mp h with rfl | rfl | rfl | rfl | rfl | rfl | rfl | rfl | rfl <;> decide

/-- Nothing follows, or a mark. -/
def EndsAtMark (rest : List Char) : Prop := ∀ c ∈ rest.head?, isMark c = true

theorem EndsAtMark.units {rest : List Char} (h : EndsAtMark rest) : EndsUnits isBare rest :=
  fun c hc => bare_of_isMark (h c hc)

/-- A name starts with no mark. -/
theorem exists_of_isIdent {name : List Char} (h : isIdent name = true) :
    ∃ c cs, name = c :: cs ∧ isMark c = false := by
  obtain ⟨hstart, hunits⟩ := (Bool.and_eq_true _ _).mp h
  cases name with
  | nil => cases hstart
  | cons c cs =>
      refine ⟨c, cs, rfl, Bool.eq_false_iff.mpr fun hmark => ?_⟩
      obtain ⟨hne, hbare⟩ := bare_of_isMark hmark
      rw [areUnits_cons_of_ne hne, hbare] at hunits
      cases hunits

theorem units_of_isIdent {name : List Char} (h : isIdent name = true) :
    areUnits isBare isEscapable name = true :=
  (Bool.and_eq_true _ _ ▸ h).2

theorem name_append_inj {xs ys r r' : List Char} (hxs : isIdent xs = true)
    (hys : isIdent ys = true) (hr : EndsAtMark r) (hr' : EndsAtMark r') (h : xs ++ r = ys ++ r') :
    xs = ys ∧ r = r' :=
  areUnits_append_inj (units_of_isIdent hxs) (units_of_isIdent hys) hr.units hr'.units h

theorem booster_toList : booster.toList = ':' :: ("not".toList ++ "(#\\9)".toList) := by decide

namespace Simple

variable {s s' : Simple} {r r' : List Char}

/-- Types are told from the other tokens by how they start. -/
theorem exists_mark (htype : s.isType = false) : ∃ c cs, s.spell = c :: cs ∧ isMark c = true := by
  cases s with
  | type name => cases htype
  | cls name => exact ⟨_, _, rfl, rfl⟩
  | pseudo name => exact ⟨_, _, rfl, rfl⟩
  | attr name operator quote value => exact ⟨_, _, rfl, rfl⟩
  | booster => exact ⟨_, _, booster_toList, rfl⟩

theorem exists_first (hs : s.IsWritten) :
    ∃ c cs, s.spell = c :: cs ∧ isGap c = false ∧ c ≠ ',' := by
  cases s with
  | type name =>
      obtain ⟨c, cs, rfl, hc⟩ := exists_of_isIdent hs
      simp only [isMark, Bool.or_eq_false_iff, beq_eq_false_iff_ne] at hc
      exact ⟨c, cs, rfl, hc.2, hc.1.2⟩
  | cls name => exact ⟨_, _, rfl, by decide, by decide⟩
  | pseudo name => exact ⟨_, _, rfl, by decide, by decide⟩
  | attr name operator quote value => exact ⟨_, _, rfl, by decide, by decide⟩
  | booster => exact ⟨_, _, booster_toList, by decide, by decide⟩

/-- What stands between brackets is told from its text. -/
theorem attr_append_inj {name operator value name' operator' value' : List Char}
    {quote quote' : Char} (h : (attr name operator quote value).IsWritten)
    (h' : (attr name' operator' quote' value').IsWritten)
    (hspell : (attr name operator quote value).spell ++ r =
      (attr name' operator' quote' value').spell ++ r') :
    attr name operator quote value = attr name' operator' quote' value' ∧ r = r' := by
  obtain ⟨hname, hoperator, hquote, hvalue⟩ := h
  obtain ⟨hname', hoperator', hquote', hvalue'⟩ := h'
  have hunits : ∀ operator ∈ operators,
      areUnits (· != '=') (fun _ => false) operator = true := by
    decide
  have hends : ∀ {operator rest : List Char}, operator ∈ operators →
      EndsUnits isBare (operator ++ '=' :: rest) := by
    intro operator rest hmem c hc
    simp only [operators, List.mem_cons, List.not_mem_nil, or_false] at hmem
    rcases hmem with rfl | rfl | rfl | rfl | rfl | rfl <;> obtain rfl := Option.some.inj hc <;>
      decide
  have hequals : ∀ rest : List Char, EndsUnits (· != '=') ('=' :: rest) := by
    rintro rest c ⟨⟩
    decide
  have hclosed : ∀ rest : List Char,
      EndsUnits (fun c => c != quote && c != '\n') (quote :: ']' :: rest) := by
    rintro rest c ⟨⟩
    refine ⟨?_, by simp⟩
    rintro rfl
    simp at hquote
  simp only [spell, List.cons_append, List.append_assoc, List.nil_append, List.cons.injEq,
    true_and] at hspell
  -- the name ends at the operator, the operator at the sign, the value at its quote
  obtain ⟨rfl, hafterName⟩ := areUnits_append_inj (units_of_isIdent hname)
    (units_of_isIdent hname') (hends hoperator) (hends hoperator') hspell
  obtain ⟨rfl, hafterOperator⟩ := areUnits_append_inj (hunits _ hoperator) (hunits _ hoperator')
    (hequals _) (hequals _) hafterName
  simp only [List.cons.injEq, true_and] at hafterOperator
  obtain ⟨rfl, hafterQuote⟩ := hafterOperator
  obtain ⟨rfl, hafterValue⟩ := areUnits_append_inj hvalue hvalue' (hclosed r) (hclosed r')
    hafterQuote
  simp only [List.cons.injEq, true_and] at hafterValue
  exact ⟨rfl, hafterValue⟩

theorem name_append_ne {name : List Char} (hname : isIdent name = true)
    (htype : s.isType = false) : name ++ r ≠ s.spell ++ r' := by
  intro heq
  obtain ⟨c, cs, rfl, hc⟩ := exists_of_isIdent hname
  obtain ⟨d, ds, hspell, hd⟩ := exists_mark htype
  rw [hspell, List.cons_append, List.cons_append, List.cons.injEq] at heq
  rw [heq.1, hd] at hc
  cases hc

/-- The name of a pseudo-class ends where the booster goes on. -/
theorem pseudo_append_ne {name : List Char} (hname : isIdent name = true) (hr : EndsAtMark r) :
    ':' :: name ++ r ≠ Simple.booster.spell ++ r' := by
  intro heq
  rw [spell, booster_toList, List.cons_append, List.cons_append, List.cons.injEq,
    List.append_assoc] at heq
  have hends : EndsUnits isBare ("(#\\9)".toList ++ r') := by
    rintro c ⟨⟩
    decide
  obtain ⟨-, rfl⟩ := areUnits_append_inj (units_of_isIdent hname) (by decide) hr.units hends heq.2
  exact absurd (hr '(' rfl) (by decide)

theorem spell_append_inj (hs : s.IsWritten) (hs' : s'.IsWritten)
    (hr : s.endsInName = true → EndsAtMark r) (hr' : s'.endsInName = true → EndsAtMark r')
    (h : s.spell ++ r = s'.spell ++ r') : s = s' ∧ r = r' := by
  cases s with
  | type name =>
      cases s' with
      | type name' =>
          obtain ⟨rfl, rfl⟩ := name_append_inj hs hs' (hr rfl) (hr' rfl) h
          exact ⟨rfl, rfl⟩
      | _ => exact absurd h (name_append_ne hs rfl)
  | cls name =>
      cases s' with
      | type name' => exact absurd h.symm (name_append_ne hs' rfl)
      | cls name' =>
          obtain ⟨rfl, rfl⟩ := name_append_inj hs hs' (hr rfl) (hr' rfl) (List.cons.inj h).2
          exact ⟨rfl, rfl⟩
      | booster => simp [spell, booster_toList] at h
      | _ => simp [spell] at h
  | pseudo name =>
      cases s' with
      | type name' => exact absurd h.symm (name_append_ne hs' rfl)
      | pseudo name' =>
          obtain ⟨rfl, rfl⟩ := name_append_inj hs.1 hs'.1 (hr rfl) (hr' rfl) (List.cons.inj h).2
          exact ⟨rfl, rfl⟩
      | booster => exact absurd h (pseudo_append_ne hs.1 (hr rfl))
      | _ => simp [spell] at h
  | attr name operator quote value =>
      cases s' with
      | type name' => exact absurd h.symm (name_append_ne hs' rfl)
      | attr name' operator' quote' value' => exact attr_append_inj hs hs' h
      | booster => simp [spell, booster_toList] at h
      | _ => simp [spell] at h
  | booster =>
      cases s' with
      | type name' => exact absurd h.symm (name_append_ne hs' rfl)
      | pseudo name' => exact absurd h.symm (pseudo_append_ne hs'.1 (hr' rfl))
      | booster => exact ⟨rfl, List.append_cancel_left h⟩
      | _ => simp [spell, booster_toList] at h

end Simple

namespace Token

variable {t u : Token} {r r' : List Char}

theorem exists_mark (ht : t.IsWritten) (htype : t.isType = false) :
    ∃ c cs, t.spell = c :: cs ∧ isMark c = true := by
  cases t with
  | simple s => exact Simple.exists_mark htype
  | gap c => exact ⟨c, [], rfl, by simp [isMark, show isGap c = true from ht]⟩
  | comma => exact ⟨',', [], rfl, rfl⟩

theorem spell_append_inj (ht : t.IsWritten) (hu : u.IsWritten)
    (hr : t.endsInName = true → EndsAtMark r) (hr' : u.endsInName = true → EndsAtMark r')
    (h : t.spell ++ r = u.spell ++ r') : t = u ∧ r = r' := by
  -- simple selectors start otherwise than the other tokens
  have hsimple : ∀ {s : Simple} {c : Char} {rest rest' : List Char}, s.IsWritten →
      (isGap c = true ∨ c = ',') → s.spell ++ rest ≠ c :: rest' := by
    rintro s c rest rest' hs hc heq
    obtain ⟨d, ds, hspell, hd, hcomma⟩ := Simple.exists_first hs
    rw [hspell, List.cons_append, List.cons.injEq] at heq
    rcases hc with hc | rfl
    · rw [← heq.1, hd] at hc
      cases hc
    · exact hcomma heq.1
  cases t with
  | simple s =>
      cases u with
      | simple s' =>
          obtain ⟨rfl, rfl⟩ := Simple.spell_append_inj ht hu hr hr' h
          exact ⟨rfl, rfl⟩
      | gap c => exact absurd h (hsimple ht (.inl hu))
      | comma => exact absurd h (hsimple ht (.inr rfl))
  | gap c =>
      cases u with
      | simple s => exact absurd h.symm (hsimple hu (.inl ht))
      | gap d =>
          obtain ⟨rfl, rfl⟩ := List.cons.inj h
          exact ⟨rfl, rfl⟩
      | comma =>
          obtain ⟨rfl, -⟩ := List.cons.inj h
          cases ht
  | comma =>
      cases u with
      | simple s => exact absurd h.symm (hsimple hu (.inr rfl))
      | gap c =>
          obtain ⟨rfl, -⟩ := List.cons.inj h
          cases hu
      | comma => exact ⟨rfl, (List.cons.inj h).2⟩

end Token

theorem endsAtMark_spell {t : Token} {ts : List Token} (h : AreWritten (t :: ts))
    (ht : t.endsInName = true) : EndsAtMark (spell ts) := by
  cases ts with
  | nil => exact fun c hc => by cases hc
  | cons u us =>
      have htype : u.isType = false := (List.isChain_cons.mp h.apart).1 u rfl ht
      obtain ⟨c, cs, hspell, hc⟩ := Token.exists_mark (h.each u (by simp)) htype
      intro d hd
      rw [spell, List.flatMap_cons, hspell] at hd
      exact Option.some.inj hd ▸ hc

theorem AreWritten.tail {t : Token} {ts : List Token} (h : AreWritten (t :: ts)) :
    AreWritten ts :=
  ⟨fun u hu => h.each u (List.mem_cons_of_mem t hu), (List.isChain_cons.mp h.apart).2⟩

theorem areWritten_append {ts us : List Token} : AreWritten (ts ++ us) ↔
    AreWritten ts ∧ AreWritten us ∧ ∀ t ∈ ts.getLast?, ∀ u ∈ us.head?, t.Apart u := by
  refine ⟨fun h => ?_, fun ⟨hts, hus, hapart⟩ => ?_⟩
  · obtain ⟨hts, hus, hapart⟩ := List.isChain_append.mp h.apart
    exact ⟨⟨fun t ht => h.each t (List.mem_append_left us ht), hts⟩,
      ⟨fun t ht => h.each t (List.mem_append_right ts ht), hus⟩, hapart⟩
  · refine ⟨fun t ht => ?_, List.isChain_append.mpr ⟨hts.apart, hus.apart, hapart⟩⟩
    rcases List.mem_append.mp ht with ht | ht
    · exact hts.each t ht
    · exact hus.each t ht

/-- A token that starts with a mark may stand between others, unless a type would go on with it. -/
theorem areWritten_append_cons {ts us : List Token} {t : Token} (hts : AreWritten ts)
    (hus : AreWritten us) (ht : t.IsWritten) (htype : t.isType = false)
    (hname : t.endsInName = true → ∀ u ∈ us.head?, u.isType = false) :
    AreWritten (ts ++ t :: us) := by
  have hone : AreWritten [t] := ⟨List.forall_mem_singleton.mpr ht, .singleton t⟩
  have htail : AreWritten ([t] ++ us) := by
    refine areWritten_append.mpr ⟨hone, hus, ?_⟩
    rintro u ⟨⟩ v hv hends
    exact hname hends v hv
  refine areWritten_append.mpr ⟨hts, htail, ?_⟩
  rintro u - v ⟨⟩ -
  exact htype

/-- Tokens are told from their text. -/
theorem AreWritten.eq_of_spell_eq {ts us : List Token} (hts : AreWritten ts) (hus : AreWritten us)
    (h : spell ts = spell us) : ts = us := by
  have hnonempty : ∀ {t : Token} {ts : List Token}, t.IsWritten → spell (t :: ts) ≠ [] := by
    intro t ts ht
    obtain ⟨c, cs, hspell⟩ : ∃ c cs, t.spell = c :: cs := by
      cases t with
      | simple s =>
          obtain ⟨c, cs, hspell, -⟩ := Simple.exists_first ht
          exact ⟨c, cs, hspell⟩
      | gap c => exact ⟨c, [], rfl⟩
      | comma => exact ⟨',', [], rfl⟩
    simp [spell, hspell]
  induction ts generalizing us with
  | nil =>
      cases us with
      | nil => rfl
      | cons u us => exact absurd h.symm (hnonempty (hus.each u (by simp)))
  | cons t ts ih =>
      cases us with
      | nil => exact absurd h (hnonempty (hts.each t (by simp)))
      | cons u us =>
          obtain ⟨rfl, hrest⟩ := Token.spell_append_inj (hts.each t (by simp))
            (hus.each u (by simp)) (endsAtMark_spell hts) (endsAtMark_spell hus) h
          rw [ih hts.tail hus.tail hrest]

/-! ### Lists of selectors -/

/-- The simple selectors at the front of tokens, and the compounds behind them. -/
def splitFront : List Token → List Simple × List (List Simple)
  | [] => ([], [])
  | .simple s :: ts => (s :: (splitFront ts).1, (splitFront ts).2)
  | _ :: ts => ([], close (splitFront ts).1 (splitFront ts).2)
where
  /-- A compound has a simple selector. -/
  close (front : List Simple) (rest : List (List Simple)) : List (List Simple) :=
    if front = [] then rest else front :: rest

/-- The compounds of a chain. -/
def chainOf (ts : List Token) : List (List Simple) :=
  splitFront.close (splitFront ts).1 (splitFront ts).2

theorem splitFront_map_simple_append (row : List Simple) (ts : List Token) :
    splitFront (row.map .simple ++ ts) = (row ++ (splitFront ts).1, (splitFront ts).2) := by
  induction row with
  | nil => rfl
  | cons s row ih => simp [splitFront, ih]

theorem chainOf_map_simple {row : List Simple} (h : row ≠ []) :
    chainOf (row.map .simple) = [row] := by
  have hsplit := splitFront_map_simple_append row []
  rw [List.append_nil] at hsplit
  simp [chainOf, hsplit, splitFront, splitFront.close, h]

theorem chainOf_row_gap {row : List Simple} (h : row ≠ []) (c : Char) (ts : List Token) :
    chainOf (row.map .simple ++ .gap c :: ts) = row :: chainOf ts := by
  simp [chainOf, splitFront_map_simple_append, splitFront, splitFront.close, h]

theorem splitFront.close_append (front : List Simple) (rest rest' : List (List Simple)) :
    close front (rest ++ rest') = close front rest ++ rest' := by
  by_cases h : front = [] <;> simp [close, h]

/-- What follows tokens goes on with their last compound, which is the front or a later one. -/
def GoesOn (before : List Token) : Prop :=
  (∃ first, ∀ ts, splitFront (before ++ ts) = (first ++ (splitFront ts).1, (splitFront ts).2)) ∨
    ∃ front middle first, ∀ ts, splitFront (before ++ ts) =
      (front, middle ++ splitFront.close (first ++ (splitFront ts).1) (splitFront ts).2)

theorem GoesOn.exists_chainOf {before : List Token} (h : GoesOn before) :
    ∃ front first, ∀ ts, chainOf (before ++ ts) =
      front ++ splitFront.close (first ++ (splitFront ts).1) (splitFront ts).2 := by
  rcases h with ⟨first, hsplit⟩ | ⟨front, middle, first, hsplit⟩
  · exact ⟨[], first, fun ts => by rw [chainOf, hsplit, List.nil_append]⟩
  · exact ⟨splitFront.close front middle, first,
      fun ts => by rw [chainOf, hsplit, splitFront.close_append]⟩

theorem goesOn (before : List Token) : GoesOn before := by
  induction before with
  | nil => exact .inl ⟨[], fun ts => rfl⟩
  | cons t before ih =>
      obtain ⟨middle, first, hchain⟩ := ih.exists_chainOf
      cases t with
      | simple s =>
          rcases ih with ⟨first, hsplit⟩ | ⟨front, middle, first, hsplit⟩
          · exact .inl ⟨s :: first, fun ts => by simp [splitFront, hsplit]⟩
          · exact .inr ⟨s :: front, middle, first, fun ts => by simp [splitFront, hsplit]⟩
      | gap c => exact .inr ⟨[], middle, first, fun ts => by rw [← hchain]; rfl⟩
      | comma => exact .inr ⟨[], middle, first, fun ts => by rw [← hchain]; rfl⟩

/-- What stands at a place of tokens stands at a place of a compound. -/
theorem exists_chainOf_append (before behind : List Token) : ∃ front first last rest,
    ∀ row ≠ [], chainOf (before ++ row.map .simple ++ behind) =
      front ++ (first ++ row ++ last) :: rest := by
  obtain ⟨front, first, happend⟩ := (goesOn before).exists_chainOf
  refine ⟨front, first, (splitFront behind).1, (splitFront behind).2, fun row hrow => ?_⟩
  rw [List.append_assoc, happend, splitFront_map_simple_append]
  simp [splitFront.close, hrow]

/-- A type stands at the front of its compound. -/
def TypeFirst (compound : List Simple) : Prop := ∀ s ∈ compound.tail, s.isType = false

instance (compound : List Simple) : Decidable (TypeFirst compound) :=
  inferInstanceAs (Decidable (∀ s ∈ compound.tail, s.isType = false))

/-- The text reads as a list of chains of compounds. -/
def Reads (cs : List Char) (selectors : List (List (List Simple))) : Prop :=
  ∃ ts, AreWritten ts ∧ spell ts = cs ∧ selectors = (ts.splitOn .comma).map chainOf ∧
    ∀ chain ∈ selectors, ∀ compound ∈ chain, TypeFirst compound

/-- A text reads in one way. -/
theorem Reads.unique {cs : List Char} {selectors selectors' : List (List (List Simple))}
    (h : Reads cs selectors) (h' : Reads cs selectors') : selectors = selectors' := by
  obtain ⟨ts, hts, hspell, rfl, -⟩ := h
  obtain ⟨us, hus, hspell', rfl, -⟩ := h'
  rw [hts.eq_of_spell_eq hus (hspell.trans hspell'.symm)]

example : Reads ".a[href=\"b:c\"] d:hover, e".toList [[[.cls ['a'],
    .attr "href".toList [] '"' "b:c".toList], [.type ['d'], .pseudo "hover".toList]],
    [[.type ['e']]]] := by
  refine ⟨[.simple (.cls ['a']), .simple (.attr "href".toList [] '"' "b:c".toList), .gap ' ',
    .simple (.type ['d']), .simple (.pseudo "hover".toList), .comma, .gap ' ',
    .simple (.type ['e'])], ⟨by decide, by decide⟩, by decide, by decide, by decide⟩

/-! ### Members -/

/-- The tokens of one member of a list. -/
structure IsMember (ts : List Token) : Prop where
  written : AreWritten ts
  comma : .comma ∉ ts
  typeFirst : ∀ compound ∈ chainOf ts, TypeFirst compound

theorem exists_members (ts : List Token) :
    ∃ members : List (List Token), members ≠ [] ∧ (∀ member ∈ members, .comma ∉ member) ∧
      [.comma].intercalate members = ts := by
  induction ts with
  | nil => exact ⟨[[]], by simp, by simp, rfl⟩
  | cons t ts ih =>
      obtain ⟨members, hne, hcomma, rfl⟩ := ih
      obtain ⟨member, members, rfl⟩ := List.exists_cons_of_ne_nil hne
      by_cases ht : t = .comma
      · refine ⟨[] :: member :: members, by simp, by simpa using hcomma, ?_⟩
        rw [List.intercalate_cons_cons, ht]
        rfl
      · refine ⟨(t :: member) :: members, by simp, ?_, ?_⟩
        · simpa [Ne.symm ht] using hcomma
        · cases members <;> simp [List.intercalate_cons_cons]

theorem spell_intercalate (members : List (List Token)) :
    spell ([.comma].intercalate members) = [','].intercalate (members.map spell) := by
  induction members with
  | nil => rfl
  | cons member members ih =>
      cases members with
      | nil => simp
      | cons member' members =>
          rw [List.intercalate_cons_cons, List.map_cons, List.map_cons, List.intercalate_cons_cons,
            ← List.map_cons, ← ih]
          simp [spell, Token.spell]

theorem areWritten_intercalate {members : List (List Token)} :
    AreWritten ([.comma].intercalate members) ↔ ∀ member ∈ members, AreWritten member := by
  induction members with
  | nil => exact iff_of_true ⟨by simp, .nil⟩ (by simp)
  | cons member members ih =>
      cases members with
      | nil => simp
      | cons member' members =>
          rw [List.intercalate_cons_cons, List.append_assoc, List.forall_mem_cons, ← ih]
          refine ⟨fun h => ?_, fun ⟨hmember, hrest⟩ => ?_⟩
          · obtain ⟨hmember, hrest, -⟩ := areWritten_append.mp h
            exact ⟨hmember, (areWritten_append.mp hrest).2.1⟩
          · exact areWritten_append_cons hmember hrest trivial rfl nofun

/-- A list is read member by member. -/
theorem reads_iff {cs : List Char} {selectors : List (List (List Simple))} :
    Reads cs selectors ↔ ∃ members, members ≠ [] ∧ (∀ member ∈ members, IsMember member) ∧
      [','].intercalate (members.map spell) = cs ∧ selectors = members.map chainOf := by
  refine ⟨fun ⟨ts, hts, hspell, hselectors, hfirst⟩ => ?_,
    fun ⟨members, hne, hmember, hcs, hselectors⟩ => ?_⟩
  · obtain ⟨members, hne, hcomma, rfl⟩ := exists_members ts
    rw [List.splitOn_intercalate _ hcomma hne] at hselectors
    subst hselectors
    refine ⟨members, hne, fun member hmem => ⟨areWritten_intercalate.mp hts member hmem,
      hcomma member hmem, hfirst _ (List.mem_map_of_mem hmem)⟩, ?_, rfl⟩
    rw [← spell_intercalate, hspell]
  · subst hselectors
    refine ⟨[.comma].intercalate members, areWritten_intercalate.mpr fun member hmem =>
      (hmember member hmem).written, ?_, ?_, ?_⟩
    · rw [spell_intercalate, hcs]
    · rw [List.splitOn_intercalate _ (fun member hmem => (hmember member hmem).comma) hne]
    · exact List.forall_mem_map.mpr fun member hmem => (hmember member hmem).typeFirst

theorem reads_simple {s : Simple} (h : s.IsWritten) : Reads s.spell [[[s]]] := by
  have hmember : IsMember [.simple s] := by
    refine ⟨⟨List.forall_mem_singleton.mpr h, .singleton _⟩, by simp, ?_⟩
    rintro compound hmem
    obtain rfl : compound = [s] := by simpa [chainOf, splitFront, splitFront.close] using hmem
    simp [TypeFirst]
  exact reads_iff.mpr ⟨[[.simple s]], by simp, List.forall_mem_singleton.mpr hmember,
    by simp [spell, Token.spell], rfl⟩

end DesignTokens.Selector
