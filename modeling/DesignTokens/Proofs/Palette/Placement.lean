import DesignTokens.Proofs.Palette.Generate
import Mathlib.Algebra.Order.Ring.Abs
import Mathlib.Algebra.Order.Ring.Rat
import Mathlib.Tactic.Linarith

/-!
Where a ladder places a seed, in exact numbers. A seed stands on the pinned rung, or on the
narrowest rung whose band holds its tone, or, where no band does, on the rung whose middle is
nearest; there is no fourth way. How far the seed's tone may be outside the band of its rung follows
from the last.
-/

namespace DesignTokens

/-! ### Exact numbers -/

theorem zero_exact : (0.0 : ℚ) = 0 := by
  norm_num

theorem half_exact : (0.5 : ℚ) = 1 / 2 := by
  norm_num

theorem isFinite_exact (x : ℚ) : isFinite x = true := by
  simp [isFinite, zero_exact]

theorem distance_eq_abs (a b : ℚ) : distance a b = |a - b| := by
  simp only [distance, zero_exact, zero_sub, sub_neg]
  split
  · next h => rw [abs_of_neg (sub_neg.mpr h), neg_sub]
  · next h => rw [abs_of_nonneg (sub_nonneg.mpr (not_lt.mp h))]

theorem lesser_eq_min (a b : ℚ) : lesser a b = min a b := by
  rw [lesser, min_comm, min_def_lt]

theorem greater_eq_max (a b : ℚ) : greater a b = max a b := by
  rw [greater, max_def_lt]

/-- What is at least as near to the lesser of two numbers does not lie beyond their middle. -/
theorem le_middle_of_abs_le {x a b : ℚ} (hab : a < b) (h : |x - a| ≤ |x - b|) :
    x ≤ (a + b) / 2 := by
  have hsquares : (x - a) ^ 2 ≤ (x - b) ^ 2 := sq_le_sq.mpr h
  have hproduct : (b - a) * (2 * x - (a + b)) ≤ 0 := by linarith
  have hfactor : 2 * x - (a + b) ≤ 0 := nonpos_of_mul_nonpos_right hproduct (sub_pos.mpr hab)
  linarith

theorem middle_le_of_abs_le {x a b : ℚ} (hab : a < b) (h : |x - b| ≤ |x - a|) :
    (a + b) / 2 ≤ x := by
  have hmirrored : |-x - -b| ≤ |-x - -a| := by
    rwa [neg_sub_neg, neg_sub_neg, abs_sub_comm b, abs_sub_comm a]
  linarith [le_middle_of_abs_le (neg_lt_neg hab) hmirrored]

namespace Rung

variable {r : Rung ℚ} {tone : ℚ}

theorem holds_iff : r.holds tone = true ↔ r.minTone ≤ tone ∧ tone ≤ r.maxTone := by
  simp [holds]

theorem midTone_eq (r : Rung ℚ) : r.midTone = (r.minTone + r.maxTone) / 2 := by
  unfold midTone
  norm_num

theorem minTone_le_midTone (hr : r.minTone ≤ r.maxTone) : r.minTone ≤ r.midTone := by
  rw [midTone_eq]
  linarith

theorem midTone_le_maxTone (hr : r.minTone ≤ r.maxTone) : r.midTone ≤ r.maxTone := by
  rw [midTone_eq]
  linarith

/-- How light a tone that is placed on a rung may be, next to a lighter rung: it may be above the
band, below that of the other rung, and no nearer to the other rung. -/
def lightReach (r lighter : Rung ℚ) : ℚ :=
  max r.maxTone (min lighter.minTone ((r.midTone + lighter.midTone) / 2))

/-- How dark a tone that is placed on a rung may be, next to a darker rung. -/
def darkReach (r darker : Rung ℚ) : ℚ :=
  min r.minTone (max darker.maxTone ((darker.midTone + r.midTone) / 2))

theorem proportion_eq (r : Rung ℚ) (tone : ℚ) : r.proportion tone =
    if r.minTone = r.maxTone then 1 / 2
    else max 0 (min 1 ((tone - r.minTone) / (r.maxTone - r.minTone))) := by
  unfold proportion
  simp only [← le_antisymm_iff, lesser_eq_min, greater_eq_max]
  norm_num

theorem proportion_nonneg (r : Rung ℚ) (tone : ℚ) : 0 ≤ r.proportion tone := by
  rw [proportion_eq]
  split
  · norm_num
  · exact le_max_left _ _

theorem proportion_le_one (r : Rung ℚ) (tone : ℚ) : r.proportion tone ≤ 1 := by
  rw [proportion_eq]
  split
  · norm_num
  · exact max_le zero_le_one (min_le_left _ _)

theorem proportion_maxTone_pos (r : Rung ℚ) : 0 < r.proportion r.maxTone := by
  rw [proportion_eq]
  split
  · norm_num
  · next hne => rw [div_self (sub_ne_zero.mpr (Ne.symm hne))]; norm_num

theorem proportion_minTone_lt_one (r : Rung ℚ) : r.proportion r.minTone < 1 := by
  rw [proportion_eq]
  split
  · norm_num
  · rw [sub_self, zero_div]; norm_num

end Rung

/-! ### Searching a ladder -/

theorem Rung.le_of_isNearer {tone : ℚ} {best r : Rung ℚ} (h : isNearer tone best r = true) :
    |tone - r.midTone| ≤ |tone - best.midTone| := by
  simp only [isNearer, distance_eq_abs, Bool.or_eq_true, Bool.and_eq_true, decide_eq_true_eq] at h
  rcases h with hless | ⟨⟨⟨hle, -⟩, -⟩, -⟩
  · exact hless.le
  · exact hle

theorem Rung.le_of_not_isNearer {tone : ℚ} {best r : Rung ℚ} (h : ¬ isNearer tone best r = true) :
    |tone - best.midTone| ≤ |tone - r.midTone| := by
  simp only [isNearer, distance_eq_abs, Bool.or_eq_true, decide_eq_true_eq, not_or, not_lt] at h
  exact h.1

/-- A search that starts with the first item and then keeps one of two at each step. -/
theorem foldl_best_cons {α : Type} {step : Option α → α → Option α} {g : α → α → α}
    (hfirst : ∀ x, step none x = some x) (hnext : ∀ best x, step (some best) x = some (g best x))
    (x : α) (xs : List α) : (x :: xs).foldl step none = some (xs.foldl g x) := by
  rw [List.foldl_cons, hfirst]
  induction xs generalizing x with
  | nil => rfl
  | cons y ys ih => rw [List.foldl_cons, hnext, ih, List.foldl_cons]

/-- A search that keeps the lesser of two items at each step finds one that no item is less than. -/
theorem foldl_best_le {α : Type} {f : α → ℚ} {g : α → α → α}
    (hbest : ∀ best x, f (g best x) ≤ f best ∧ f (g best x) ≤ f x) (x : α) (xs : List α) :
    ∀ y ∈ x :: xs, f (xs.foldl g x) ≤ f y := by
  induction xs generalizing x with
  | nil => exact List.forall_mem_singleton.mpr le_rfl
  | cons z zs ih =>
      have hrest := ih (g x z)
      have hkept := hrest _ List.mem_cons_self
      rw [List.foldl_cons]
      refine List.forall_mem_cons.mpr ⟨hkept.trans (hbest x z).1,
        List.forall_mem_cons.mpr ⟨hkept.trans (hbest x z).2, fun y hy => ?_⟩⟩
      exact hrest y (List.mem_cons_of_mem _ hy)

namespace Ladder

variable {l : Ladder ℚ} {r : Rung ℚ} {tone : ℚ} {mode : Option PaletteMode} {p : Placement ℚ}

theorem narrowest?_cons (x : Rung ℚ) (xs : List (Rung ℚ)) : narrowest? (x :: xs) =
    some (xs.foldl (fun best r => if r.width < best.width then r else best) x) :=
  foldl_best_cons (fun _ => rfl) (fun _ _ => rfl) x xs

theorem exists_narrowest? {rungs : List (Rung ℚ)} (h : rungs ≠ []) :
    ∃ r, narrowest? rungs = some r ∧ ∀ x ∈ rungs, r.width ≤ x.width := by
  obtain ⟨x, xs, rfl⟩ := List.exists_cons_of_ne_nil h
  refine ⟨_, narrowest?_cons x xs, foldl_best_le (fun best r => ?_) x xs⟩
  split
  · next hless => exact ⟨hless.le, le_rfl⟩
  · next hless => exact ⟨le_rfl, not_lt.mp hless⟩

/-- No rung is too far away to be searched. -/
theorem nearest?_of_cons {x : Rung ℚ} {xs : List (Rung ℚ)} (h : l.rungs = x :: xs) (tone : ℚ) :
    l.nearest? tone =
      some (xs.foldl (fun best r => if Rung.isNearer tone best r then r else best) x) := by
  have hnear : (l.rungs.filter fun r => isFinite (distance tone r.midTone)) = l.rungs :=
    List.filter_eq_self.mpr fun r _ => isFinite_exact _
  rw [nearest?, hnear, h]
  exact foldl_best_cons (fun _ => rfl) (fun _ _ => rfl) x xs

theorem exists_nearest? (h : l.rungs ≠ []) (tone : ℚ) :
    ∃ r, l.nearest? tone = some r ∧ ∀ x ∈ l.rungs, |tone - r.midTone| ≤ |tone - x.midTone| := by
  obtain ⟨x, xs, hrungs⟩ := List.exists_cons_of_ne_nil h
  refine ⟨_, nearest?_of_cons hrungs tone, hrungs ▸ ?_⟩
  refine foldl_best_le (f := fun r : Rung ℚ => |tone - r.midTone|) (fun best r => ?_) x xs
  split
  · next hnearer => exact ⟨Rung.le_of_isNearer hnearer, le_rfl⟩
  · next hnearer => exact ⟨le_rfl, Rung.le_of_not_isNearer hnearer⟩

/-! ### Placing a seed -/

/-- The ways in which a ladder places a tone. -/
inductive Places (l : Ladder ℚ) (mode : Option PaletteMode) (tone : ℚ) : Placement ℚ → Prop where
  | pinned {r : Rung ℚ} (pinned : l.pinned? mode = .ok (some r)) (held : r.holds tone = true) :
      Places l mode tone ⟨r, 1 / 2, true⟩
  | held {r : Rung ℚ} (listed : r ∈ l.rungs) (held : r.holds tone = true)
      (narrowest : ∀ x ∈ l.rungs, x.holds tone = true → r.width ≤ x.width) :
      Places l mode tone ⟨r, r.proportion tone, false⟩
  | between {r : Rung ℚ} (listed : r ∈ l.rungs) (free : ∀ x ∈ l.rungs, x.holds tone = false)
      (nearest : ∀ x ∈ l.rungs, |tone - r.midTone| ≤ |tone - x.midTone|) :
      Places l mode tone ⟨r, r.proportion tone, false⟩

theorem exists_placeOf? (hrungs : l.rungs ≠ []) (mode : Option PaletteMode) (tone : ℚ) :
    ∃ r, l.placeOf? tone = some r ∧ l.Places mode tone ⟨r, r.proportion tone, false⟩ := by
  unfold placeOf?
  split
  · next hnone =>
      obtain ⟨r, hnearest, hleast⟩ := exists_nearest? hrungs tone
      have hfree : ∀ x ∈ l.rungs, x.holds tone = false := by
        simpa [List.filter_eq_nil_iff] using hnone
      exact ⟨r, hnearest, .between (mem_of_nearest? hnearest) hfree hleast⟩
  · next hsome =>
      obtain ⟨r, hnarrowest, hleast⟩ := exists_narrowest? hsome
      obtain ⟨hmem, hheld⟩ := List.mem_filter.mp (mem_of_narrowest? hnarrowest)
      exact ⟨r, hnarrowest, .held hmem hheld fun x hx hholds =>
        hleast x (List.mem_filter.mpr ⟨hx, hholds⟩)⟩

theorem exists_place {pinned? : Option (Rung ℚ)} (hpinned : l.pinned? mode = .ok pinned?)
    (hrungs : l.rungs ≠ []) (seed : Hct ℚ) :
    ∃ p, l.place seed mode = .ok p ∧ l.Places mode seed.tone p := by
  rw [place_of_pinned? hpinned, half_exact]
  cases hfilter : pinned?.filter fun r => r.holds seed.tone with
  | some r =>
      obtain ⟨rfl, hheld⟩ := Option.filter_eq_some_iff.mp hfilter
      exact ⟨_, rfl, .pinned hpinned hheld⟩
  | none =>
      obtain ⟨r, hplace, hplaces⟩ := exists_placeOf? hrungs mode seed.tone
      rw [hplace]
      exact ⟨_, rfl, hplaces⟩

/-- A ladder with rungs places every seed. -/
theorem IsSound.exists_place (hl : l.IsSound) (hrungs : l.rungs ≠ []) (seed : Hct ℚ)
    (mode : Option PaletteMode) :
    ∃ p, l.place seed mode = .ok p ∧ l.Places mode seed.tone p := by
  obtain ⟨pinned?, hpinned⟩ := hl.exists_pinned? mode
  exact Ladder.exists_place hpinned hrungs seed

theorem isSound_exact (role : String) : (ofRole role : Ladder ℚ).IsSound where
  pinned := pinned_ofRole role
  chromatic := ofRole_cases (fun l _ => ∀ r ∈ l.rungs, ¬ r.chromaShare ≤ 0.0)
    (by decide +kernel) (by decide +kernel) (by decide +kernel) role

theorem rungs_ofRole_ne_nil (role : String) : (ofRole role : Ladder ℚ).rungs ≠ [] :=
  ofRole_cases (fun l _ => l.rungs ≠ []) nofun nofun nofun role

theorem exists_place_ofRole (role : String) (seed : Hct ℚ) (mode : Option PaletteMode) :
    ∃ p, (ofRole role).place seed mode = .ok p ∧ (ofRole role).Places mode seed.tone p :=
  (isSound_exact role).exists_place (rungs_ofRole_ne_nil role) seed mode

/-! ### What a placement says of the tone -/

namespace Places

variable (h : l.Places mode tone p)

include h

theorem base_mem : p.base ∈ l.rungs := by
  cases h with
  | pinned hpinned => exact mem_of_pinned? hpinned
  | held listed => exact listed
  | between listed => exact listed

theorem proportion_nonneg : 0 ≤ p.proportion := by
  cases h with
  | pinned => norm_num
  | held => exact Rung.proportion_nonneg ..
  | between => exact Rung.proportion_nonneg ..

theorem proportion_le_one : p.proportion ≤ 1 := by
  cases h with
  | pinned => norm_num
  | held => exact Rung.proportion_le_one ..
  | between => exact Rung.proportion_le_one ..

theorem le_lightReach {r : Rung ℚ} (hr : r ∈ l.rungs) (hband : r.minTone ≤ r.maxTone)
    (hlighter : p.base.midTone < r.midTone) : tone ≤ p.base.lightReach r := by
  cases h with
  | pinned _ held => exact le_max_of_le_left (Rung.holds_iff.mp held).2
  | held _ held => exact le_max_of_le_left (Rung.holds_iff.mp held).2
  | between _ free nearest =>
      have hmiddle := le_middle_of_abs_le hlighter (nearest r hr)
      have hbelow : tone ≤ r.maxTone := by linarith [Rung.midTone_le_maxTone hband]
      have houtside : tone ≤ r.minTone := by
        by_contra habove
        have hheld := Rung.holds_iff.mpr ⟨(not_le.mp habove).le, hbelow⟩
        simp [free r hr] at hheld
      exact le_max_of_le_right (le_min houtside hmiddle)

theorem darkReach_le {r : Rung ℚ} (hr : r ∈ l.rungs) (hband : r.minTone ≤ r.maxTone)
    (hdarker : r.midTone < p.base.midTone) : p.base.darkReach r ≤ tone := by
  cases h with
  | pinned _ held => exact min_le_of_left_le (Rung.holds_iff.mp held).1
  | held _ held => exact min_le_of_left_le (Rung.holds_iff.mp held).1
  | between _ free nearest =>
      have hmiddle := middle_le_of_abs_le hdarker (nearest r hr)
      have habove : r.minTone ≤ tone := by linarith [Rung.minTone_le_midTone hband]
      have houtside : r.maxTone ≤ tone := by
        by_contra hbelow
        have hheld := Rung.holds_iff.mpr ⟨habove, (not_le.mp hbelow).le⟩
        simp [free r hr] at hheld
      exact min_le_of_right_le (max_le houtside hmiddle)

end Places

end Ladder

end DesignTokens
