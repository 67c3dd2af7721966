import DesignTokens.Proofs.Palette.Tones

/-!
The contrast that a role guarantees, whatever the seed.

Two rungs that draw one place to tones of their bands are as far apart as at the outermost places.
If one of them keeps the seed, the tone of the seed is bounded by the band of a neighbour and the
middle between the two, and the other rung may be drawn as near as it ever is.
-/

namespace DesignTokens.Ladder

variable {l : Ladder ℚ} {light dark : Rung ℚ} {d : ℚ} {mode : Option PaletteMode} {tone : ℚ}
  {p : Placement ℚ}

/-- A light and a dark rung are some distance apart: at both outermost places, where the light one
keeps a seed as dark as a darker rung lets it, and where the dark one keeps a seed as light as a
lighter rung lets it. -/
structure Separates (l : Ladder ℚ) (light dark : Rung ℚ) (d : ℚ) : Prop where
  atDark : d ≤ light.toneAt 0 - dark.toneAt 0
  atLight : d ≤ light.toneAt 1 - dark.toneAt 1
  lightKept : ∃ r ∈ l.rungs, r.midTone < light.midTone ∧ d ≤ light.darkReach r - dark.toneAt 1
  darkKept : ∃ r ∈ l.rungs, dark.midTone < r.midTone ∧ d ≤ light.toneAt 0 - dark.lightReach r

instance (l : Ladder ℚ) (light dark : Rung ℚ) (d : ℚ) : Decidable (l.Separates light dark d) :=
  decidable_of_iff (d ≤ light.toneAt 0 - dark.toneAt 0 ∧ d ≤ light.toneAt 1 - dark.toneAt 1 ∧
      (∃ r ∈ l.rungs, r.midTone < light.midTone ∧ d ≤ light.darkReach r - dark.toneAt 1) ∧
      ∃ r ∈ l.rungs, dark.midTone < r.midTone ∧ d ≤ light.toneAt 0 - dark.lightReach r)
    ⟨fun ⟨atDark, atLight, lightKept, darkKept⟩ => ⟨atDark, atLight, lightKept, darkKept⟩,
      fun h => ⟨h.atDark, h.atLight, h.lightKept, h.darkKept⟩⟩

namespace Separates

variable (hs : l.Separates light dark d) (h : l.Places mode tone p)

include hs h

theorem le_toneAt_sub : d ≤ light.toneAt p.proportion - dark.toneAt p.proportion :=
  Rung.le_toneAt_sub h.proportion_nonneg h.proportion_le_one hs.atDark hs.atLight

theorem le_aim_sub (hl : l.Descends) (hlight : light ∈ l.rungs) (hdark : dark ∈ l.rungs)
    (wasAdjusted : Bool) : d ≤ p.aim tone wasAdjusted light - p.aim tone wasAdjusted dark := by
  have hlightest : dark.toneAt p.proportion ≤ dark.toneAt 1 :=
    Rung.toneAt_mono (hl.bands dark hdark) h.proportion_le_one
  have hdarkest : light.toneAt 0 ≤ light.toneAt p.proportion :=
    Rung.toneAt_mono (hl.bands light hlight) h.proportion_nonneg
  rcases h.aim_cases hl hlight wasAdjusted with ⟨rfl, haim⟩ | haim
  · rcases h.aim_cases hl hdark wasAdjusted with ⟨rfl, -⟩ | haim'
    · exact hs.atDark.trans (by simp)
    · obtain ⟨r, hr, hmid, hd⟩ := hs.lightKept
      have hreach : p.base.darkReach r ≤ tone := h.darkReach_le hr (hl.bands r hr) hmid
      rw [haim, haim']
      linarith
  · rcases h.aim_cases hl hdark wasAdjusted with ⟨rfl, haim'⟩ | haim'
    · obtain ⟨r, hr, hmid, hd⟩ := hs.darkKept
      have hreach : tone ≤ p.base.lightReach r := h.le_lightReach hr (hl.bands r hr) hmid
      rw [haim, haim']
      linarith
    · rw [haim, haim']
      exact hs.le_toneAt_sub h

end Separates

/-- The pairs of a role are far enough apart on its ladder. -/
theorem separates_ofRole (role : String) : ∀ pair ∈ contrastPairs role, ∃ light dark,
    (ofRole role).rung pair.light = .ok light ∧ (ofRole role).rung pair.dark = .ok dark ∧
      (ofRole role).Separates light dark pair.minDelta := by
  refine ofRole_cases (fun l pairs => ∀ pair ∈ pairs, ∃ light dark,
    l.rung pair.light = .ok light ∧ l.rung pair.dark = .ok dark ∧
      l.Separates light dark pair.minDelta) ?_ ?_ ?_ role
  -- each of the ladders has three pairs
  all_goals exact List.forall_mem_cons.mpr ⟨⟨_, _, rfl, rfl, by decide +kernel⟩,
    List.forall_mem_cons.mpr ⟨⟨_, _, rfl, rfl, by decide +kernel⟩,
      List.forall_mem_singleton.mpr ⟨_, _, rfl, rfl, by decide +kernel⟩⟩⟩

/-- The rungs of each pair of a role aim at tones that are as far apart as the pair says, also where
one of them keeps the seed. -/
theorem contrast_guaranteed (role : String) (seed : Hct ℚ) (mode : Option PaletteMode) :
    ∃ p, (ofRole role).place seed mode = .ok p ∧
      ∀ pair ∈ contrastPairs role, ∃ light dark,
        (ofRole role).rung pair.light = .ok light ∧ (ofRole role).rung pair.dark = .ok dark ∧
        pair.minDelta ≤ light.toneAt p.proportion - dark.toneAt p.proportion ∧
        ∀ wasAdjusted, pair.minDelta ≤
          p.aim seed.tone wasAdjusted light - p.aim seed.tone wasAdjusted dark := by
  obtain ⟨p, hp, h⟩ := exists_place_ofRole role seed mode
  refine ⟨p, hp, fun pair hpair => ?_⟩
  obtain ⟨light, dark, hlight, hdark, hs⟩ := separates_ofRole role pair hpair
  refine ⟨light, dark, hlight, hdark, hs.le_toneAt_sub h, fun wasAdjusted => ?_⟩
  exact hs.le_aim_sub h (descends_ofRole role) (mem_of_rung hlight) (mem_of_rung hdark) wasAdjusted

end DesignTokens.Ladder
