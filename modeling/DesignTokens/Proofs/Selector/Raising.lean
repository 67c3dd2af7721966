import DesignTokens.Proofs.Selector.Reading
import Mathlib.Algebra.Order.Monoid.Prod
import Mathlib.Algebra.Order.Ring.Nat
import Mathlib.Data.List.Forall2
import Mathlib.Data.List.TakeWhile

/-!
What raising specificity does to selectors. One way repeats the first class or pseudo-class of each
member of a list; the other puts one booster into the list, in front of its first pseudo-class or
at its end. Both look for marks in the text. Where each colon, dot and comma is the mark of a
selector, and no blank ends a member, neither changes what is selected: repeating raises every
member, boosting raises one of them.
-/

namespace DesignTokens

namespace Text

theorem splitAt_eq_splitOn (mark : Char) (cs : List Char) : splitAt mark cs = cs.splitOn mark := by
  have hsplit := List.splitOn_intercalate mark (fun _ h => notMem_of_mem_splitAt h)
    (splitAt_ne_nil mark cs)
  rw [← hsplit, intercalate_splitAt]

end Text

namespace Selector

/-! ### Specificity -/

/-- How much a simple selector counts: as an id, as a class, or as a type. -/
def Simple.specificity : Simple → ℕ ×ₗ ℕ ×ₗ ℕ
  | booster => toLex (1, toLex (0, 0))
  | cls _ | pseudo _ | attr .. => toLex (0, toLex (1, 0))
  | type _ => toLex (0, toLex (0, 1))

theorem Simple.specificity_pos (s : Simple) : 0 < s.specificity := by
  cases s <;> simp only [specificity] <;> decide

def specificity (chain : List (List Simple)) : ℕ ×ₗ ℕ ×ₗ ℕ :=
  (chain.flatten.map Simple.specificity).sum

/-- Boosters aside, the same simple selectors. -/
def SameSimples (compound compound' : List Simple) : Prop :=
  ∀ s ≠ .booster, s ∈ compound ↔ s ∈ compound'

/-- A chain of more specificity that selects the same. -/
structure Raised (chain chain' : List (List Simple)) : Prop where
  lt : specificity chain < specificity chain'
  same : List.Forall₂ SameSimples chain chain'

/-! ### Rows in the place of rows -/

/-- A row may stand where another one stands, counts more and selects the same. -/
structure Lifts (row row' : List Simple) : Prop where
  nonempty : row ≠ []
  nonempty' : row' ≠ []
  lt : (row.map Simple.specificity).sum < (row'.map Simple.specificity).sum
  same : SameSimples row row'
  typeFirst : ∀ first last, TypeFirst (first ++ row ++ last) → TypeFirst (first ++ row' ++ last)
  written : ∀ before behind, AreWritten (before ++ row.map .simple ++ behind) →
    AreWritten (before ++ row'.map .simple ++ behind)

variable {s : Simple} {row row' : List Simple} {before behind : List Token}

theorem Lifts.member (h : Lifts row row')
    (hmember : IsMember (before ++ row.map .simple ++ behind)) :
    IsMember (before ++ row'.map .simple ++ behind) ∧
      Raised (chainOf (before ++ row.map .simple ++ behind))
        (chainOf (before ++ row'.map .simple ++ behind)) := by
  obtain ⟨front, first, last, rest, hchain⟩ := exists_chainOf_append before behind
  have htypeFirst := hmember.typeFirst
  rw [hchain row h.nonempty] at htypeFirst ⊢
  rw [hchain row' h.nonempty']
  refine ⟨⟨h.written _ _ hmember.written, ?_, ?_⟩, ?_, ?_⟩
  · simpa using hmember.comma
  · rw [hchain row' h.nonempty']
    intro compound hmem
    simp only [List.mem_append, List.mem_cons] at hmem htypeFirst
    rcases hmem with hmem | rfl | hmem
    · exact htypeFirst compound (.inl hmem)
    · exact h.typeFirst first last (htypeFirst _ (.inr (.inl rfl)))
    · exact htypeFirst compound (.inr (.inr hmem))
  · simp only [specificity, List.flatten_append, List.flatten_cons, List.map_append,
      List.sum_append]
    gcongr
    exact h.lt
  · have hrefl : ∀ compounds, List.Forall₂ SameSimples compounds compounds :=
      fun compounds => List.forall₂_same.mpr fun _ _ _ _ => .rfl
    refine List.rel_append (hrefl front) (.cons (fun s hs => ?_) (hrefl rest))
    simp [h.same s hs]

theorem TypeFirst.insert {first last : List Simple} (h : TypeFirst (first ++ last))
    (htype : s.isType = false) (hfirst : first = [] → ∀ u ∈ last.head?, u.isType = false) :
    TypeFirst (first ++ s :: last) := by
  cases first with
  | nil =>
      intro u hu
      cases last with
      | nil => cases hu
      | cons v last =>
          rcases List.mem_cons.mp hu with rfl | hu
          · exact hfirst rfl u rfl
          · exact h u hu
  | cons v first =>
      intro u hu
      rcases List.mem_append.mp hu with hu | hu
      · exact h u (List.mem_append_left last hu)
      · rcases List.mem_cons.mp hu with rfl | hu
        · exact htype
        · exact h u (List.mem_append_right first hu)

/-- A repetition, or a booster, in front of what is no type. -/
theorem lifts_before {u : Simple} (htype : s.isType = false) (hu : u = s ∨ u = .booster) :
    Lifts [s] [u, s] := by
  have hu' : u.isType = false := by
    rcases hu with rfl | rfl
    · exact htype
    · rfl
  refine ⟨by simp, by simp, by simpa using u.specificity_pos, ?_, ?_, fun before behind h => ?_⟩
  · rintro t ht
    rcases hu with rfl | rfl <;> simp [ht]
  · intro first last h
    have h' : TypeFirst (first ++ s :: last) := by simpa using h
    have hnext : ∀ v ∈ (s :: last).head?, v.isType = false := by
      rintro v ⟨⟩
      exact htype
    simpa using h'.insert hu' fun _ => hnext
  · have hwritten : Token.IsWritten (.simple u) := by
      rcases hu with rfl | rfl
      · exact h.each (.simple u) (by simp)
      · trivial
    have h' : AreWritten (before ++ .simple s :: behind) := by simpa using h
    obtain ⟨hbefore, hbehind, -⟩ := areWritten_append.mp h'
    have hnext : ∀ v ∈ (Token.simple s :: behind).head?, v.isType = false := by
      rintro v ⟨⟩
      exact htype
    simpa using areWritten_append_cons hbefore hbehind hwritten hu' fun _ => hnext

theorem lifts_behind (s : Simple) : Lifts [s] [s, .booster] := by
  refine ⟨by simp, by simp, by simpa using Simple.specificity_pos .booster, ?_, ?_,
    fun before behind h => ?_⟩
  · rintro t ht
    simp [ht]
  · intro first last h
    simpa using h.insert (s := .booster) rfl (by simp)
  · obtain ⟨hbefore, hbehind, -⟩ := areWritten_append.mp h
    simpa using areWritten_append_cons (t := .simple .booster) hbefore hbehind trivial rfl nofun

/-! ### Marks in the text -/

/-- Nothing that is taken for the start or the end of a selector. -/
def IsPlain (cs : List Char) : Prop := ∀ c ∈ cs, c ≠ ',' ∧ c ≠ ':' ∧ c ≠ '.'

/-- Its text has marks only where it starts, and its name has no other characters than the search
for classes knows. -/
def Simple.IsClear : Simple → Prop
  | cls name | pseudo name => ∀ c ∈ name, isNameChar c = true
  | type name => IsPlain name
  | attr name operator quote value => IsPlain (attr name operator quote value).spell
  | booster => False

theorem isPlain_of_isNameChar {name : List Char} (h : ∀ c ∈ name, isNameChar c = true) :
    IsPlain name := by
  have hmarks : isNameChar ',' = false ∧ isNameChar ':' = false ∧ isNameChar '.' = false := by
    decide +kernel
  intro c hc
  have hname := h c hc
  refine ⟨?_, ?_, ?_⟩ <;> rintro rfl <;> simp_all

theorem isNameChar_of_isMark {c : Char} (h : isMark c = true) : isNameChar c = false := by
  rcases isMark_iff.mp h with rfl | rfl | rfl | rfl | rfl | rfl | rfl | rfl | rfl <;>
    decide +kernel

/-- What the search for classes finds. -/
def Token.isFound : Token → Bool
  | simple (.cls _) | simple (.pseudo _) => true
  | _ => false

def Token.isPseudo : Token → Bool
  | simple (.pseudo _) => true
  | _ => false

theorem Token.isFound_of_isPseudo {t : Token} (h : t.isPseudo = true) : t.isFound = true := by
  rcases t with (_ | _ | _ | _ | _) | _ | _ <;> first | rfl | cases h

/-- A member of a list whose text has no other marks than those of its selectors. -/
structure IsClearMember (member : List Token) : Prop extends IsMember member where
  clear : ∀ s, .simple s ∈ member → s.IsClear

/-- No blank stands at the end. -/
def EndsInSimple (member : List Token) : Prop := ∃ before s, member = before ++ [.simple s]

namespace IsClearMember

variable {member : List Token} {t : Token}

theorem isPlain_token (h : IsClearMember member) (ht : t ∈ member) (hfound : t.isFound = false) :
    IsPlain t.spell := by
  cases t with
  | simple s =>
      have hclear := h.clear s ht
      cases s with
      | type name => exact hclear
      | attr name operator quote value => exact hclear
      | booster => exact hclear.elim
      | _ => cases hfound
  | gap c =>
      have hgap : isGap c = true := h.written.each _ ht
      have hmarks : isGap ',' = false ∧ isGap ':' = false ∧ isGap '.' = false := by decide
      refine List.forall_mem_singleton.mpr ⟨?_, ?_, ?_⟩ <;> rintro rfl <;> simp_all
  | comma => exact absurd ht h.comma

theorem exists_found (h : IsClearMember member) (ht : t ∈ member) (hfound : t.isFound = true) :
    ∃ s c name, t = .simple s ∧ s.isType = false ∧ s.endsInName = true ∧ s.spell = c :: name ∧
      c = (if t.isPseudo then ':' else '.') ∧ name ≠ [] ∧ ∀ d ∈ name, isNameChar d = true := by
  have hident : ∀ {name : List Char}, isIdent name = true → name ≠ [] := by
    rintro name hname rfl
    cases hname
  have hwritten := h.written.each t ht
  cases t with
  | simple s =>
      have hclear := h.clear s ht
      cases s with
      | cls name => exact ⟨.cls name, '.', name, rfl, rfl, rfl, rfl, rfl, hident hwritten, hclear⟩
      | pseudo name =>
          exact ⟨.pseudo name, ':', name, rfl, rfl, rfl, rfl, rfl, hident hwritten.1, hclear⟩
      | _ => cases hfound
  | _ => cases hfound

theorem comma_notMem (h : IsClearMember member) : ',' ∉ spell member := by
  intro hmem
  obtain ⟨t, ht, hcomma⟩ := List.mem_flatMap.mp hmem
  by_cases hfound : t.isFound = true
  · obtain ⟨s, c, name, rfl, -, -, hspell, hc, -, hname⟩ := h.exists_found ht hfound
    rw [Token.spell, hspell] at hcomma
    rcases List.mem_cons.mp hcomma with rfl | hcomma
    · split at hc <;> cases hc
    · exact (isPlain_of_isNameChar hname _ hcomma).1 rfl
  · exact (h.isPlain_token ht (by simpa using hfound) _ hcomma).1 rfl

theorem colon_notMem (h : IsClearMember member) {ts : List Token} (hsub : ts ⊆ member)
    (hpseudo : ∀ t ∈ ts, t.isPseudo = false) : ':' ∉ spell ts := by
  intro hmem
  obtain ⟨t, hts, hcolon⟩ := List.mem_flatMap.mp hmem
  have ht := hsub hts
  by_cases hfound : t.isFound = true
  · obtain ⟨s, c, name, rfl, -, -, hspell, hc, -, hname⟩ := h.exists_found ht hfound
    rw [hpseudo _ hts, if_neg Bool.false_ne_true] at hc
    rw [Token.spell, hspell, hc] at hcolon
    rcases List.mem_cons.mp hcolon with heq | hcolon
    · cases heq
    · exact (isPlain_of_isNameChar hname _ hcolon).2.1 rfl
  · exact (h.isPlain_token ht (by simpa using hfound) _ hcolon).2.1 rfl

theorem isPlain_spell (h : IsClearMember member) {ts : List Token} (hsub : ts ⊆ member)
    (hfound : ∀ t ∈ ts, t.isFound = false) : IsPlain (spell ts) := by
  intro c hc
  obtain ⟨t, ht, hc⟩ := List.mem_flatMap.mp hc
  exact h.isPlain_token (hsub ht) (hfound t ht) c hc

end IsClearMember

/-! ### Searching -/

theorem firstSimple?_append {cs : List Char} (h : IsPlain cs) (rest : List Char) :
    firstSimple? (cs ++ rest) =
      (firstSimple? rest).map fun (before, simple, behind) => (cs ++ before, simple, behind) := by
  induction cs with
  | nil => simp
  | cons c cs ih =>
      obtain ⟨⟨-, hcolon, hdot⟩, hcs⟩ := List.forall_mem_cons.mp h
      rw [List.cons_append, firstSimple?, ih hcs]
      simp [hcolon, hdot, Function.comp_def]

theorem firstSimple?_of_mark {c : Char} (hc : c = ':' ∨ c = '.') {name rest : List Char}
    (hne : name ≠ []) (hname : ∀ d ∈ name, isNameChar d = true)
    (hrest : ∀ d ∈ rest.head?, isNameChar d = false) :
    firstSimple? (c :: (name ++ rest)) = some ([], c :: name, rest) := by
  have hends : rest.takeWhile isNameChar = [] ∧ rest.dropWhile isNameChar = rest := by
    cases rest with
    | nil => exact ⟨rfl, rfl⟩
    | cons d rest => simp [hrest d rfl]
  rw [firstSimple?, List.takeWhile_append_of_pos hname, List.dropWhile_append_of_pos hname,
    hends.1, hends.2, List.append_nil]
  simp [hc, hne]

theorem boostChars_append {cs : List Char} (h : ':' ∉ cs) (rest : List Char) :
    boostChars (cs ++ rest) = cs ++ boostChars rest := by
  have hkeep : ∀ c ∈ cs, (c != ':') = true := by
    intro c hc
    rw [bne_iff_ne]
    rintro rfl
    exact h hc
  simp [boostChars, List.takeWhile_append_of_pos hkeep, List.dropWhile_append_of_pos hkeep]

/-! ### Members -/

namespace IsClearMember

variable {member : List Token}

/-- A booster at the end raises a member. -/
theorem exists_boost_end (h : IsClearMember member) (hends : EndsInSimple member)
    (hcolon : ':' ∉ spell member) : ∃ member', IsMember member' ∧
      Raised (chainOf member) (chainOf member') ∧ spell member' = boostChars (spell member) := by
  obtain ⟨before, s, rfl⟩ := hends
  have hmember : IsMember (before ++ [s].map .simple ++ []) := by simpa using h.toIsMember
  obtain ⟨hmember', hraised⟩ := (lifts_behind s).member hmember
  refine ⟨_, hmember', by simpa using hraised, ?_⟩
  have hboost := boostChars_append hcolon []
  rw [List.append_nil] at hboost
  rw [hboost]
  simp [spell, Token.spell, Simple.spell, boostChars]

/-- A booster in front of the first pseudo-class raises a member, whatever follows. -/
theorem exists_boost (h : IsClearMember member) (hexists : ∃ t ∈ member, t.isPseudo = true) :
    ∃ member', IsMember member' ∧ Raised (chainOf member) (chainOf member') ∧
      ∀ rest, boostChars (spell member ++ rest) = spell member' ++ rest := by
  obtain ⟨t, hfind⟩ := Option.isSome_iff_exists.mp (List.find?_isSome.mpr hexists)
  obtain ⟨hpseudo, before, behind, rfl, hbefore⟩ := List.find?_eq_some_iff_append.mp hfind
  obtain ⟨s, c, name, rfl, htype, -, hspell, hc, -, -⟩ :=
    h.exists_found (by simp) (Token.isFound_of_isPseudo hpseudo)
  rw [if_pos hpseudo] at hc
  subst hc
  have hcolon := h.colon_notMem (List.subset_append_left before _) (by simpa using hbefore)
  have hmember : IsMember (before ++ [s].map .simple ++ behind) := by simpa using h.toIsMember
  obtain ⟨hmember', hraised⟩ := (lifts_before htype (.inr rfl)).member hmember
  refine ⟨_, hmember', by simpa using hraised, fun rest => ?_⟩
  have htext : spell (before ++ .simple s :: behind) ++ rest =
      spell before ++ ':' :: (name ++ spell behind ++ rest) := by
    simp [spell_append, spell_cons, Token.spell, hspell]
  have hfront : ∀ cs, boostChars (':' :: cs) = Simple.booster.spell ++ ':' :: cs := fun _ => rfl
  rw [htext, boostChars_append hcolon, hfront]
  simp [spell_append, spell_cons, Token.spell, hspell]

/-- Repeating the first class or pseudo-class raises a member, and so does a booster where there is
none. -/
theorem exists_repeat (h : IsClearMember member) (hends : EndsInSimple member) :
    ∃ member', IsMember member' ∧ Raised (chainOf member) (chainOf member') ∧
      spell member' = repeatFirst (spell member) := by
  cases hfind : member.find? Token.isFound with
  | none =>
      have hnone : ∀ t ∈ member, t.isFound = false := by simpa using List.find?_eq_none.mp hfind
      have hplain := h.isPlain_spell (List.Subset.refl _) hnone
      obtain ⟨member', hmember', hraised, hspell⟩ :=
        h.exists_boost_end hends fun hcolon => (hplain _ hcolon).2.1 rfl
      have hsearch := firstSimple?_append hplain []
      rw [List.append_nil] at hsearch
      exact ⟨member', hmember', hraised, by rw [hspell, repeatFirst, hsearch]; rfl⟩
  | some t =>
      obtain ⟨hfound, before, behind, rfl, hbefore⟩ := List.find?_eq_some_iff_append.mp hfind
      obtain ⟨s, c, name, rfl, htype, hends, hspell, hc, hne, hname⟩ :=
        h.exists_found (by simp) hfound
      have hplain := h.isPlain_spell (List.subset_append_left before _) (by simpa using hbefore)
      have hmark : ∀ d ∈ (spell behind).head?, isNameChar d = false := fun d hd =>
        isNameChar_of_isMark (endsAtMark_spell (areWritten_append.mp h.written).2.1 hends d hd)
      have hmember : IsMember (before ++ [s].map .simple ++ behind) := by
        simpa using h.toIsMember
      obtain ⟨hmember', hraised⟩ := (lifts_before htype (.inl rfl)).member hmember
      refine ⟨_, hmember', by simpa using hraised, ?_⟩
      have htext : spell (before ++ .simple s :: behind) =
          spell before ++ c :: (name ++ spell behind) := by
        simp [spell_append, spell_cons, Token.spell, hspell]
      have hc : c = ':' ∨ c = '.' := by
        split at hc
        · exact .inl hc
        · exact .inr hc
      have hsearch := firstSimple?_of_mark hc hne hname hmark
      rw [htext, repeatFirst, firstSimple?_append hplain, hsearch]
      simp [spell_append, spell_cons, Token.spell, hspell]

end IsClearMember

theorem IsMember.endsInSimple {member : List Token} (h : IsMember member) (hne : member ≠ [])
    (htidy : ∀ c ∈ (spell member).getLast?, isGap c = false) : EndsInSimple member := by
  obtain ⟨before, t, rfl⟩ := (List.eq_nil_or_concat member).resolve_left hne
  rw [List.concat_eq_append] at h htidy ⊢
  cases t with
  | simple s => exact ⟨before, s, rfl⟩
  | gap c =>
      have hgap : isGap c = true := h.written.each (.gap c) (by simp)
      rw [htidy c (by simp [spell, Token.spell])] at hgap
      cases hgap
  | comma => exact absurd (by simp) h.comma

/-! ### Lists of selectors -/

/-- A text that reads as a list of selectors, with no other marks than theirs and no blank at the
end of a member. -/
structure ReadsClearly (cs : List Char) (selectors : List (List (List Simple))) : Prop where
  reads : Reads cs selectors
  nonempty : ∀ chain ∈ selectors, chain ≠ []
  clear : ∀ chain ∈ selectors, ∀ compound ∈ chain, ∀ s ∈ compound, s.IsClear
  tidy : ∀ member ∈ Text.splitAt ',' cs, ∀ c ∈ member.getLast?, isGap c = false

variable {cs : List Char} {selectors : List (List (List Simple))} {members : List (List Token)}

theorem ReadsClearly.exists_members (h : ReadsClearly cs selectors) : ∃ members, members ≠ [] ∧
    (∀ member ∈ members, IsClearMember member ∧ EndsInSimple member) ∧
      Text.splitAt ',' cs = members.map spell ∧ selectors = members.map chainOf := by
  obtain ⟨members, hne, hmember, hcs, rfl⟩ := reads_iff.mp h.reads
  have hclear : ∀ member ∈ members, IsClearMember member := by
    refine fun member hmem => ⟨hmember member hmem, fun s hs => ?_⟩
    obtain ⟨before, behind, rfl⟩ := List.append_of_mem hs
    obtain ⟨front, first, last, rest, hchain⟩ := exists_chainOf_append before behind
    have hs := hchain [s] (by simp)
    refine h.clear _ (List.mem_map_of_mem hmem) (first ++ [s] ++ last) ?_ s (by simp)
    simp only [List.map_cons, List.map_nil, List.append_assoc, List.singleton_append] at hs
    simp [hs]
  have hsplit : Text.splitAt ',' cs = members.map spell := by
    rw [Text.splitAt_eq_splitOn, ← hcs]
    exact List.splitOn_intercalate _
      (List.forall_mem_map.mpr fun member hmem => (hclear member hmem).comma_notMem) (by simpa)
  refine ⟨members, hne, fun member hmem => ⟨hclear member hmem, ?_⟩, hsplit, rfl⟩
  refine (hmember member hmem).endsInSimple ?_ fun c hc =>
    h.tidy _ (hsplit ▸ List.mem_map_of_mem hmem) c hc
  rintro rfl
  exact h.nonempty _ (List.mem_map_of_mem hmem) rfl

/-- One member of a list is boosted, the others stay. -/
theorem exists_boostChars
    (h : ∀ member ∈ members, IsClearMember member ∧ EndsInSimple member) (hne : members ≠ []) :
    ∃ before member member' behind, members = before ++ member :: behind ∧ IsMember member' ∧
      Raised (chainOf member) (chainOf member') ∧
      [','].intercalate ((before ++ member' :: behind).map spell) =
        boostChars ([','].intercalate (members.map spell)) := by
  induction members with
  | nil => exact absurd rfl hne
  | cons member members ih =>
      obtain ⟨⟨hmember, hends⟩, hmembers⟩ := List.forall_mem_cons.mp h
      by_cases hpseudo : ∃ t ∈ member, t.isPseudo = true
      · obtain ⟨member', hmember', hraised, hspell⟩ := hmember.exists_boost hpseudo
        refine ⟨[], member, member', members, rfl, hmember', hraised, ?_⟩
        cases members with
        | nil => simpa using (hspell []).symm
        | cons second members =>
            simp only [List.nil_append, List.map_cons, List.intercalate_cons_cons,
              List.append_assoc, hspell]
      · have hcolon : ':' ∉ spell member :=
          hmember.colon_notMem (List.Subset.refl _) (by simpa using hpseudo)
        cases members with
        | nil =>
            obtain ⟨member', hmember', hraised, hspell⟩ := hmember.exists_boost_end hends hcolon
            exact ⟨[], member, member', [], rfl, hmember', hraised, by simpa using hspell⟩
        | cons second members =>
            obtain ⟨before, third, third', behind, hsplit, hmember', hraised, hspell⟩ :=
              ih hmembers (by simp)
            refine ⟨member :: before, third, third', behind, by rw [hsplit]; rfl, hmember',
              hraised, ?_⟩
            have hmark : ':' ∉ spell member ++ [','] := by simpa using hcolon
            rw [List.map_cons, List.map_cons, List.intercalate_cons_cons, boostChars_append hmark,
              ← List.map_cons, ← hspell, List.cons_append, List.map_cons,
              List.intercalate_cons_of_ne_nil (by simp)]

/-- Where a text has no other marks than those of its selectors, repeating raises every one of
them, and boosting raises one and keeps the others. -/
theorem raised_of_readsClearly {text : String} (h : ReadsClearly text.toList selectors) :
    (∃ selectors', Reads (boostGradually text).toList selectors' ∧
        List.Forall₂ Raised selectors selectors') ∧
      ∃ before chain chain' behind, selectors = before ++ chain :: behind ∧ Raised chain chain' ∧
        Reads (boost text).toList (before ++ chain' :: behind) := by
  obtain ⟨members, hne, hmember, hsplit, rfl⟩ := h.exists_members
  refine ⟨?_, ?_⟩
  · have hrepeat : ∀ member ∈ members, ∃ member', IsMember member' ∧
        Raised (chainOf member) (chainOf member') ∧ spell member' = repeatFirst (spell member) :=
      fun member hmem => (hmember member hmem).1.exists_repeat (hmember member hmem).2
    choose! raise hraise using hrepeat
    refine ⟨(members.map raise).map chainOf, reads_iff.mpr ⟨members.map raise, by simpa,
      List.forall_mem_map.mpr fun member hmem => (hraise member hmem).1, ?_, rfl⟩, ?_⟩
    · rw [boostGradually, Text.joinWith, String.toList_intercalate, hsplit]
      congr 1
      simp only [List.map_map]
      refine List.map_congr_left fun member hmem => ?_
      simp [(hraise member hmem).2.2]
    · simp only [List.map_map, List.forall₂_map_left_iff, List.forall₂_map_right_iff]
      exact List.forall₂_same.mpr fun member hmem => (hraise member hmem).2.1
  · obtain ⟨before, member, member', behind, rfl, hmember', hraised, hspell⟩ :=
      exists_boostChars hmember hne
    refine ⟨before.map chainOf, chainOf member, chainOf member', behind.map chainOf, by simp,
      hraised, reads_iff.mpr ⟨before ++ member' :: behind, by simp, ?_, ?_, by simp⟩⟩
    · intro third hmem
      have hkept := fun hmem' => (hmember third hmem').1.toIsMember
      simp only [List.mem_append, List.mem_cons] at hmem hkept
      rcases hmem with hmem | rfl | hmem
      · exact hkept (.inl hmem)
      · exact hmember'
      · exact hkept (.inr (.inr hmem))
    · rw [hspell, ← hsplit, Text.intercalate_splitAt, boost, String.toList_ofList]

theorem raised_of_readsClearly_hover :
    ReadsClearly ".a b:hover,c".toList [[[.cls ['a']], [.type ['b'], .pseudo "hover".toList]],
      [[.type ['c']]]] ∧
    (∃ selectors', Reads (boostGradually ".a b:hover,c").toList selectors' ∧
      List.Forall₂ Raised [[[.cls ['a']], [.type ['b'], .pseudo "hover".toList]], [[.type ['c']]]]
        selectors') ∧
    ∃ before chain chain' behind,
      [[[.cls ['a']], [.type ['b'], .pseudo "hover".toList]], [[.type ['c']]]] =
        before ++ chain :: behind ∧ Raised chain chain' ∧
      Reads (boost ".a b:hover,c").toList (before ++ chain' :: behind) := by
  have hreads : Reads ".a b:hover,c".toList [[[.cls ['a']],
      [.type ['b'], .pseudo "hover".toList]], [[.type ['c']]]] :=
    ⟨[.simple (.cls ['a']), .gap ' ', .simple (.type ['b']), .simple (.pseudo "hover".toList),
      .comma, .simple (.type ['c'])], ⟨by decide, by decide⟩, by decide, by decide, by decide⟩
  have hsplit : Text.splitAt ',' ".a b:hover,c".toList = [".a b:hover".toList, ['c']] := by decide
  have hname : isNameChar 'a' = true ∧ ∀ c ∈ "hover".toList, isNameChar c = true := by
    have hletters : "hover".toList = ['h', 'o', 'v', 'e', 'r'] := by decide
    simp only [hletters, List.forall_mem_cons]
    exact ⟨by decide +kernel, by decide +kernel, by decide +kernel, by decide +kernel,
      by decide +kernel, by decide +kernel, by simp⟩
  have hclearly : ReadsClearly ".a b:hover,c".toList [[[.cls ['a']],
      [.type ['b'], .pseudo "hover".toList]], [[.type ['c']]]] := by
    refine ⟨hreads, by decide, ?_, ?_⟩
    · simpa [Simple.IsClear, IsPlain] using hname
    · rw [hsplit]
      simp only [List.forall_mem_cons]
      refine ⟨?_, ?_, by simp⟩ <;> rintro c ⟨⟩ <;> decide
  exact ⟨hclearly, raised_of_readsClearly hclearly⟩

/-- A colon between quotes is taken for a pseudo-class: another value is selected. -/
theorem href_changed : Reads "[href=\"a:b\"]".toList [[[.attr "href".toList [] '"' "a:b".toList]]] ∧
    (¬∃ selectors', Reads (boost "[href=\"a:b\"]").toList selectors' ∧
      List.Forall₂ Raised [[[.attr "href".toList [] '"' "a:b".toList]]] selectors') ∧
    ¬∃ selectors', Reads (boostGradually "[href=\"a:b\"]").toList selectors' ∧
      List.Forall₂ Raised [[[.attr "href".toList [] '"' "a:b".toList]]] selectors' := by
  have hwritten : ∀ {value : List Char}, isQuoted '"' value = true →
      (Simple.attr "href".toList [] '"' value).IsWritten :=
    fun hvalue => ⟨by decide, by decide, .inl rfl, hvalue⟩
  have hother : ∀ (value : List Char) {cs : List Char}, isQuoted '"' value = true →
      value ≠ "a:b".toList → cs = (Simple.attr "href".toList [] '"' value).spell →
      ¬∃ selectors', Reads cs selectors' ∧
        List.Forall₂ Raised [[[.attr "href".toList [] '"' "a:b".toList]]] selectors' := by
    rintro value cs hvalue hne rfl ⟨selectors', hselectors', hraised⟩
    rw [hselectors'.unique (reads_simple (hwritten hvalue))] at hraised
    have hsame := (List.forall₂_cons.mp (List.forall₂_cons.mp hraised).1.same).1
    have hmem := (hsame (.attr "href".toList [] '"' "a:b".toList) (by simp)).mp (by simp)
    simp only [List.mem_singleton, Simple.attr.injEq, true_and] at hmem
    exact hne hmem.symm
  have hboost : boost "[href=\"a:b\"]" = "[href=\"a:not(#\\9):b\"]" := rfl
  have hgradual : boostGradually "[href=\"a:b\"]" = "[href=\"a:b:b\"]" := by
    have hsplit : Text.splitAt ',' "[href=\"a:b\"]".toList = ["[href=\"a:b\"]".toList] := by
      decide
    have hmark : firstSimple? (':' :: (['b'] ++ "\"]".toList)) =
        some ([], [':', 'b'], "\"]".toList) := by
      refine firstSimple?_of_mark (.inl rfl) (by simp) ?_ ?_
      · rw [List.forall_mem_singleton]
        decide +kernel
      · rintro d ⟨⟩
        decide +kernel
    have hplain : IsPlain "[href=\"a".toList := by simp [IsPlain]
    have htext : "[href=\"a:b\"]".toList =
        "[href=\"a".toList ++ ':' :: (['b'] ++ "\"]".toList) := by decide
    rw [boostGradually, hsplit, List.map_singleton, repeatFirst, htext,
      firstSimple?_append hplain, hmark]
    decide
  have hreads : isQuoted '"' "a:b".toList = true := by decide
  refine ⟨reads_simple (hwritten hreads), ?_, ?_⟩
  · rw [hboost]
    exact hother "a:not(#\\9):b".toList (by decide) (by decide) (by simp [Simple.spell])
  · rw [hgradual]
    exact hother "a:b:b".toList (by decide) (by decide) (by simp [Simple.spell])

end Selector

end DesignTokens
