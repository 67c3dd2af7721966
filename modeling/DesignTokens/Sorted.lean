/-!
Sorting. Items of which either may come first keep their order. The recursion follows the list, so
that a list of given items sorts by reduction.
-/

namespace DesignTokens

variable {α : Type} {le : α → α → Bool}

/-- Puts an item before the first one that it may precede. -/
def insertSorted (le : α → α → Bool) (x : α) : List α → List α
  | [] => [x]
  | y :: ys => if le x y then x :: y :: ys else y :: insertSorted le x ys

/-- The items of a list in order, each put among those after it. -/
def sorted (le : α → α → Bool) : List α → List α
  | [] => []
  | x :: xs => insertSorted le x (sorted le xs)

@[simp] theorem sorted_nil : sorted le [] = [] := rfl

@[simp] theorem sorted_singleton (x : α) : sorted le [x] = [x] := rfl

theorem insertSorted_append {x : α} {before after : List α} (hbefore : ∀ y ∈ before, le x y = false)
    (hafter : ∀ y ∈ after, le x y = true) :
    insertSorted le x (before ++ after) = before ++ x :: after := by
  induction before with
  | nil =>
      cases after with
      | nil => rfl
      | cons y ys => exact if_pos (hafter y List.mem_cons_self)
  | cons y ys ih =>
      rw [List.forall_mem_cons] at hbefore
      rw [List.cons_append, insertSorted, hbefore.1, ih hbefore.2]
      rfl

/-- Insertion sorts as the library's merge sort does. -/
theorem sorted_eq_mergeSort (htrans : ∀ x y z, le x y = true → le y z = true → le x z = true)
    (htotal : ∀ x y, (le x y || le y x) = true) (xs : List α) : sorted le xs = xs.mergeSort le := by
  induction xs with
  | nil => simp [sorted]
  | cons x xs ih =>
      obtain ⟨before, after, hsort, hrest, hbefore⟩ := List.mergeSort_cons htrans htotal x xs
      have hpairwise := List.pairwise_mergeSort htrans htotal (x :: xs)
      rw [hsort, List.pairwise_append, List.pairwise_cons] at hpairwise
      rw [sorted, ih, hrest, hsort]
      exact insertSorted_append (fun y hy => by simpa using hbefore y hy) hpairwise.2.1.1

theorem sorted_eq_mergeSort_key {κ : Type} [LE κ] [DecidableLE κ] [Std.IsLinearPreorder κ]
    (key : α → κ) (xs : List α) :
    sorted (fun x y => key x ≤ key y) xs = xs.mergeSort fun x y => key x ≤ key y := by
  refine sorted_eq_mergeSort (fun x y z hxy hyz => ?_) (fun x y => ?_) xs
  · exact decide_eq_true (Std.le_trans (of_decide_eq_true hxy) (of_decide_eq_true hyz))
  · rw [← Bool.decide_or]
    exact decide_eq_true Std.le_total

end DesignTokens
