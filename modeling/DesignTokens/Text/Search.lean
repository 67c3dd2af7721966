/-!
Finding, splitting and replacing inside texts, on lists of characters.
-/

namespace DesignTokens.Text

/-- What follows `start` at the front of a text. -/
def dropFront? : (start cs : List Char) → Option (List Char)
  | [], cs => some cs
  | _ :: _, [] => none
  | a :: start, c :: cs => if a = c then dropFront? start cs else none

theorem dropFront?_eq_some_iff {start cs rest : List Char} :
    dropFront? start cs = some rest ↔ cs = start ++ rest := by
  induction start generalizing cs with
  | nil => simp [dropFront?, eq_comm]
  | cons a start ih =>
    cases cs with
    | nil => simp [dropFront?]
    | cons c cs =>
      by_cases h : a = c
      · simp [dropFront?, h, ih]
      · simp [dropFront?, h, Ne.symm h]

/-- One text occurs inside another. -/
def occursIn (part : List Char) : List Char → Bool
  | [] => part.isEmpty
  | c :: cs => (dropFront? part (c :: cs)).isSome || occursIn part cs

theorem occursIn_iff {part cs : List Char} : occursIn part cs = true ↔ part <:+: cs := by
  induction cs with
  | nil => simp [occursIn]
  | cons c cs ih =>
    rw [occursIn, Bool.or_eq_true, ih, List.infix_cons_iff, Option.isSome_iff_exists]
    simp only [dropFront?_eq_some_iff, List.IsPrefix, eq_comm (a := c :: cs)]

/-- Cuts a text at every occurrence of a character; there is always at least one piece. -/
def splitAt (mark : Char) : List Char → List (List Char)
  | [] => [[]]
  | c :: cs =>
    if c = mark then [] :: splitAt mark cs
    else match splitAt mark cs with
      | piece :: pieces => (c :: piece) :: pieces
      | [] => [[c]]

theorem splitAt_ne_nil (mark : Char) (cs : List Char) : splitAt mark cs ≠ [] := by
  fun_induction splitAt mark cs with
  | case1 => simp
  | case2 => simp
  | case3 => simp
  | case4 => simp

/-- No piece holds the mark. -/
theorem notMem_of_mem_splitAt {mark : Char} {cs piece : List Char} (h : piece ∈ splitAt mark cs) :
    mark ∉ piece := by
  fun_induction splitAt mark cs generalizing piece with
  | case1 => simp_all
  | case2 cs ih =>
    rcases List.mem_cons.mp h with rfl | h
    · simp
    · exact ih h
  | case3 c cs hc p ps hs ih =>
    rw [hs] at ih
    rcases List.mem_cons.mp h with rfl | h
    · simp [ih List.mem_cons_self, Ne.symm hc]
    · exact ih (List.mem_cons_of_mem _ h)
  | case4 c cs hc hs _ => exact absurd hs (splitAt_ne_nil mark cs)

theorem intercalate_splitAt (mark : Char) (cs : List Char) :
    [mark].intercalate (splitAt mark cs) = cs := by
  fun_induction splitAt mark cs with
  | case1 => rfl
  | case2 cs ih =>
    obtain ⟨p, ps, hp⟩ := List.exists_cons_of_ne_nil (splitAt_ne_nil mark cs)
    rw [hp] at ih ⊢
    simp_all [List.intercalate, List.intersperse]
  | case3 c cs hc p ps hs ih =>
    rw [hs] at ih
    cases ps <;> simp_all [List.intercalate, List.intersperse]
  | case4 c cs hc hs _ => exact absurd hs (splitAt_ne_nil mark cs)

/-- Removes the occurrences of a part after passing over the given count of characters. -/
def removeAfter (part : List Char) : (passed : Nat) → List Char → List Char
  | _, [] => []
  | passed + 1, _ :: cs => removeAfter part passed cs
  | 0, c :: cs =>
    if !part.isEmpty && (dropFront? part (c :: cs)).isSome then
      removeAfter part (part.length - 1) cs
    else c :: removeAfter part 0 cs

/-- Removes every occurrence of a part, from the left and without overlap. -/
def removeAll (part cs : List Char) : List Char := removeAfter part 0 cs

/-- Texts joined with a mark between neighbours. -/
def joinWith (mark : String) (texts : List String) : String := mark.intercalate texts

end DesignTokens.Text
