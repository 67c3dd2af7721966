import DesignTokens.Proofs.Palette.Placement
import Mathlib.Data.List.Nodup
import Mathlib.Tactic.Ring

/-!
The tones that a palette aims at descend along its ladder, whatever its seed.

Each rung draws a place to a tone of its band, and bands may touch, so two rungs could meet only at
a common edge. What the lighter rung draws to its dark edge and the darker one to its light edge are
different places, unless a band has no width. A rung that keeps the seed may aim outside its band,
but no further than to where the next band begins.
-/

namespace DesignTokens

namespace Rung

variable {r a b : Rung ℚ} {p : ℚ}

/-! ### Tones of a rung -/

/-- The place that a rung draws another one to: halfway to the light edge of its band on light
rungs, halfway to the dark edge on dark ones. -/
def drawn (r : Rung ℚ) (p : ℚ) : ℚ := if r.step ≤ 500 then (1 + p) / 2 else p / 2

theorem drawn_nonneg (r : Rung ℚ) (hp : 0 ≤ p) : 0 ≤ r.drawn p := by
  unfold drawn
  split <;> linarith

theorem drawn_pos (r : Rung ℚ) (hp : 0 < p) : 0 < r.drawn p := by
  unfold drawn
  split <;> linarith

theorem drawn_le_one (r : Rung ℚ) (hp : p ≤ 1) : r.drawn p ≤ 1 := by
  unfold drawn
  split <;> linarith

theorem drawn_lt_one (r : Rung ℚ) (hp : p < 1) : r.drawn p < 1 := by
  unfold drawn
  split <;> linarith

theorem drawn_mono (r : Rung ℚ) {q : ℚ} (hpq : p ≤ q) : r.drawn p ≤ r.drawn q := by
  unfold drawn
  split <;> linarith

theorem toneAt_eq (r : Rung ℚ) (p : ℚ) : r.toneAt p = r.minTone + r.width * r.drawn p := by
  simp only [toneAt, drawn, width, half_exact]
  split <;> ring

/-- The tone is an affine function of the place. -/
theorem toneAt_eq_between (r : Rung ℚ) (p : ℚ) :
    r.toneAt p = (1 - p) * r.toneAt 0 + p * r.toneAt 1 := by
  simp only [toneAt_eq, drawn]
  split <;> ring

/-- Two rungs are as far apart at each place as they are at both outermost ones. -/
theorem le_toneAt_sub {d : ℚ} (hp : 0 ≤ p) (hp' : p ≤ 1) (hdark : d ≤ a.toneAt 0 - b.toneAt 0)
    (hlight : d ≤ a.toneAt 1 - b.toneAt 1) : d ≤ a.toneAt p - b.toneAt p := by
  calc d = (1 - p) * d + p * d := by ring
    _ ≤ (1 - p) * (a.toneAt 0 - b.toneAt 0) + p * (a.toneAt 1 - b.toneAt 1) :=
        add_le_add (mul_le_mul_of_nonneg_left hdark (sub_nonneg.mpr hp'))
          (mul_le_mul_of_nonneg_left hlight hp)
    _ = a.toneAt p - b.toneAt p := by
        rw [toneAt_eq_between a p, toneAt_eq_between b p]
        ring

theorem toneAt_mono {q : ℚ} (hr : r.minTone ≤ r.maxTone) (hpq : p ≤ q) :
    r.toneAt p ≤ r.toneAt q := by
  rw [toneAt_eq, toneAt_eq]
  exact add_le_add_right (mul_le_mul_of_nonneg_left (r.drawn_mono hpq) (sub_nonneg.mpr hr)) _

theorem minTone_le_toneAt (hr : r.minTone ≤ r.maxTone) (hp : 0 ≤ p) : r.minTone ≤ r.toneAt p := by
  rw [toneAt_eq]
  exact le_add_of_nonneg_right (mul_nonneg (sub_nonneg.mpr hr) (r.drawn_nonneg hp))

theorem minTone_lt_toneAt (hr : r.minTone < r.maxTone) (hp : 0 < p) : r.minTone < r.toneAt p := by
  rw [toneAt_eq]
  exact lt_add_of_pos_right _ (mul_pos (sub_pos.mpr hr) (r.drawn_pos hp))

theorem toneAt_le_maxTone (hr : r.minTone ≤ r.maxTone) (hp : p ≤ 1) : r.toneAt p ≤ r.maxTone := by
  calc r.toneAt p = r.minTone + r.width * r.drawn p := r.toneAt_eq p
    _ ≤ r.minTone + r.width :=
        add_le_add_right (mul_le_of_le_one_right (sub_nonneg.mpr hr) (r.drawn_le_one hp)) _
    _ = r.maxTone := add_sub_cancel _ _

theorem toneAt_lt_maxTone (hr : r.minTone < r.maxTone) (hp : p < 1) : r.toneAt p < r.maxTone := by
  calc r.toneAt p = r.minTone + r.width * r.drawn p := r.toneAt_eq p
    _ < r.minTone + r.width :=
        add_lt_add_right (mul_lt_of_lt_one_right (sub_pos.mpr hr) (r.drawn_lt_one hp)) _
    _ = r.maxTone := add_sub_cancel _ _

/-! ### Rungs above others -/

/-- The band of the first rung lies above that of the second, edges perhaps in common, and so do the
tones of the outermost places. -/
structure Above (a b : Rung ℚ) : Prop where
  edges : b.maxTone ≤ a.minTone
  dark : b.toneAt 0 < a.toneAt 0
  light : b.toneAt 1 < a.toneAt 1

instance (a b : Rung ℚ) : Decidable (a.Above b) :=
  decidable_of_iff (b.maxTone ≤ a.minTone ∧ b.toneAt 0 < a.toneAt 0 ∧ b.toneAt 1 < a.toneAt 1)
    ⟨fun ⟨edges, dark, light⟩ => ⟨edges, dark, light⟩, fun h => ⟨h.edges, h.dark, h.light⟩⟩

namespace Above

variable (h : a.Above b)

include h

theorem toneAt_lt (hp : 0 ≤ p) (hp' : p ≤ 1) : b.toneAt p < a.toneAt p := by
  have hdark : 0 < a.toneAt 0 - b.toneAt 0 := sub_pos.mpr h.dark
  have hlight : 0 < a.toneAt 1 - b.toneAt 1 := sub_pos.mpr h.light
  exact sub_pos.mp ((lt_min hdark hlight).trans_le
    (le_toneAt_sub hp hp' (min_le_left _ _) (min_le_right _ _)))

/-- Two bands that meet are not both without width. -/
theorem midTone_lt (ha : a.minTone ≤ a.maxTone) (hb : b.minTone ≤ b.maxTone) :
    b.midTone < a.midTone := by
  rw [midTone_eq, midTone_eq]
  by_contra hmid
  have hbelow : b.minTone ≤ b.toneAt 0 := minTone_le_toneAt hb le_rfl
  have habove : a.toneAt 0 ≤ a.maxTone := toneAt_le_maxTone ha zero_le_one
  linarith [h.edges, h.dark]

end Above

end Rung

/-! ### Ladders -/

namespace Ladder

variable {l : Ladder ℚ} {mode : Option PaletteMode} {tone : ℚ} {p : Placement ℚ} {a b : Rung ℚ}

/-- Each rung is above those that follow. Where seeds may be pinned, no band is without width. -/
structure Descends (l : Ladder ℚ) : Prop where
  bands : ∀ r ∈ l.rungs, r.minTone ≤ r.maxTone
  above : l.rungs.Pairwise Rung.Above
  steps : (l.rungs.map Rung.step).Nodup
  wide : l.policy = .pinned → ∀ r ∈ l.rungs, r.minTone < r.maxTone

theorem isPinned_of_pinned? {r : Rung ℚ} (h : l.pinned? mode = .ok (some r)) :
    l.policy = .pinned := by
  unfold pinned? at h
  split at h
  · next hpolicy => exact hpolicy
  · next hpolicy => exact hpolicy
  · cases h

namespace Places

variable (h : l.Places mode tone p)

include h

theorem proportion_pos (htone : tone = p.base.maxTone) : 0 < p.proportion := by
  cases h with
  | pinned => norm_num
  | held => exact htone ▸ Rung.proportion_maxTone_pos _
  | between => exact htone ▸ Rung.proportion_maxTone_pos _

theorem proportion_lt_one (htone : tone = p.base.minTone) : p.proportion < 1 := by
  cases h with
  | pinned => norm_num
  | held => exact htone ▸ Rung.proportion_minTone_lt_one _
  | between => exact htone ▸ Rung.proportion_minTone_lt_one _

/-- A tone that some band holds is placed in its band. -/
theorem base_holds (ha : a ∈ l.rungs) (hheld : a.holds tone = true) :
    p.base.holds tone = true := by
  cases h with
  | pinned _ held => exact held
  | held _ held => exact held
  | between _ free => simp [free a ha] at hheld

variable (hl : l.Descends)

include hl

/-- Of two bands that hold the tone, the one it is not placed in has a width. -/
theorem wide_of_holds (ha : a ∈ l.rungs) (hheld : a.holds tone = true)
    (hmid : a.midTone ≠ p.base.midTone) : a.minTone < a.maxTone := by
  obtain ⟨hlow, hhigh⟩ := Rung.holds_iff.mp hheld
  obtain ⟨hlow', hhigh'⟩ := Rung.holds_iff.mp (h.base_holds ha hheld)
  cases h with
  | pinned hpinned => exact hl.wide (isPinned_of_pinned? hpinned) a ha
  | between _ free => simp [free a ha] at hheld
  | @held r _ _ narrowest =>
      refine lt_of_le_of_ne (hl.bands a ha) fun hflat => hmid ?_
      have hwidth : r.maxTone - r.minTone ≤ a.maxTone - a.minTone := narrowest a ha hheld
      rw [Rung.midTone_eq, Rung.midTone_eq]
      linarith

/-- The tone is darker than what lighter rungs aim at. -/
theorem lt_toneAt (ha : a ∈ l.rungs) (habove : a.Above p.base) : tone < a.toneAt p.proportion := by
  have hband : a.minTone ≤ a.maxTone := hl.bands a ha
  have hmid : p.base.midTone < a.midTone := habove.midTone_lt hband (hl.bands _ h.base_mem)
  have hedge : tone ≤ a.minTone :=
    (h.le_lightReach ha hband hmid).trans (max_le habove.edges (min_le_left _ _))
  rcases hedge.lt_or_eq with hlt | heq
  · exact hlt.trans_le (Rung.minTone_le_toneAt hband h.proportion_nonneg)
  · -- the bands meet at the tone, and the lighter rung does not aim at its own dark edge
    have hheld : a.holds tone = true := Rung.holds_iff.mpr ⟨heq.ge, heq.trans_le hband⟩
    have hbase := (Rung.holds_iff.mp (h.base_holds ha hheld)).2
    have htone : tone = p.base.maxTone := le_antisymm hbase (heq ▸ habove.edges)
    calc tone = a.minTone := heq
      _ < a.toneAt p.proportion :=
          Rung.minTone_lt_toneAt (h.wide_of_holds hl ha hheld hmid.ne') (h.proportion_pos htone)

/-- The tone is lighter than what darker rungs aim at. -/
theorem toneAt_lt (hb : b ∈ l.rungs) (habove : p.base.Above b) : b.toneAt p.proportion < tone := by
  have hband : b.minTone ≤ b.maxTone := hl.bands b hb
  have hmid : b.midTone < p.base.midTone := habove.midTone_lt (hl.bands _ h.base_mem) hband
  have hedge : b.maxTone ≤ tone :=
    (le_min habove.edges (le_max_left _ _)).trans (h.darkReach_le hb hband hmid)
  rcases hedge.lt_or_eq with hlt | heq
  · exact (Rung.toneAt_le_maxTone hband h.proportion_le_one).trans_lt hlt
  · have hheld : b.holds tone = true := Rung.holds_iff.mpr ⟨hband.trans hedge, heq.ge⟩
    have hbase := (Rung.holds_iff.mp (h.base_holds hb hheld)).1
    have htone : tone = p.base.minTone := le_antisymm (heq ▸ habove.edges) hbase
    calc b.toneAt p.proportion < b.maxTone :=
          Rung.toneAt_lt_maxTone (h.wide_of_holds hl hb hheld hmid.ne) (h.proportion_lt_one htone)
      _ = tone := heq

end Places

/-! ### The tones of a palette -/

/-- The tone that a palette aims at on a rung: that of the seed where the rung keeps the seed. -/
def Placement.aim (p : Placement ℚ) (tone : ℚ) (wasAdjusted : Bool) (r : Rung ℚ) : ℚ :=
  if keepsSeed p wasAdjusted r then tone else r.toneAt p.proportion

namespace Places

variable (h : l.Places mode tone p) (hl : l.Descends)

include h hl

/-- Only the rung of the seed keeps it. -/
theorem aim_cases (ha : a ∈ l.rungs) (wasAdjusted : Bool) :
    (a = p.base ∧ p.aim tone wasAdjusted a = tone) ∨
      p.aim tone wasAdjusted a = a.toneAt p.proportion := by
  unfold Placement.aim
  split
  · next hkeeps =>
      simp only [keepsSeed, Bool.and_eq_true, beq_iff_eq] at hkeeps
      exact .inl ⟨List.inj_on_of_nodup_map hl.steps ha h.base_mem hkeeps.1, rfl⟩
  · exact .inr rfl

theorem aim_lt (wasAdjusted : Bool) (ha : a ∈ l.rungs) (hb : b ∈ l.rungs) (habove : a.Above b) :
    p.aim tone wasAdjusted b < p.aim tone wasAdjusted a := by
  rcases h.aim_cases hl ha wasAdjusted with ⟨rfl, haim⟩ | haim
  · rcases h.aim_cases hl hb wasAdjusted with ⟨rfl, -⟩ | haim'
    · exact absurd habove.dark (lt_irrefl _)
    · rw [haim, haim']
      exact h.toneAt_lt hl hb habove
  · rcases h.aim_cases hl hb wasAdjusted with ⟨rfl, haim'⟩ | haim'
    · rw [haim, haim']
      exact h.lt_toneAt hl ha habove
    · rw [haim, haim']
      exact habove.toneAt_lt h.proportion_nonneg h.proportion_le_one

end Places

theorem descends_ofRole (role : String) : (ofRole role : Ladder ℚ).Descends := by
  refine ofRole_cases (fun l _ => l.Descends) ?_ ?_ ?_ role
  · exact ⟨by decide +kernel, by decide +kernel, by decide +kernel, fun _ => by decide +kernel⟩
  · exact ⟨by decide +kernel, by decide +kernel, by decide +kernel, nofun⟩
  · exact ⟨by decide +kernel, by decide +kernel, by decide +kernel, nofun⟩

/-- The rungs of a role aim at tones of their bands, each at a darker one than the rung before. They
do so too where a rung keeps the seed, which may be outside its band. -/
theorem tones_descend (role : String) (seed : Hct ℚ) (mode : Option PaletteMode) :
    ∃ p, (ofRole role).place seed mode = .ok p ∧
      (∀ r ∈ (ofRole role).rungs,
        r.minTone ≤ r.toneAt p.proportion ∧ r.toneAt p.proportion ≤ r.maxTone) ∧
      (ofRole role).rungs.Pairwise (fun a b => b.toneAt p.proportion < a.toneAt p.proportion) ∧
      ∀ wasAdjusted, (ofRole role).rungs.Pairwise
        fun a b => p.aim seed.tone wasAdjusted b < p.aim seed.tone wasAdjusted a := by
  have hl : (ofRole role : Ladder ℚ).Descends := descends_ofRole role
  obtain ⟨p, hp, h⟩ := exists_place_ofRole role seed mode
  refine ⟨p, hp, fun r hr => ⟨?_, ?_⟩, ?_, fun wasAdjusted => ?_⟩
  · exact Rung.minTone_le_toneAt (hl.bands r hr) h.proportion_nonneg
  · exact Rung.toneAt_le_maxTone (hl.bands r hr) h.proportion_le_one
  · exact hl.above.imp fun habove => habove.toneAt_lt h.proportion_nonneg h.proportion_le_one
  · exact hl.above.imp_of_mem fun ha hb habove => h.aim_lt hl wasAdjusted ha hb habove

end Ladder

end DesignTokens
