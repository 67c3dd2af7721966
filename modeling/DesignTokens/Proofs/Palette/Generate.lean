import DesignTokens.Palette.Tokens
import DesignTokens.Proofs.Fault
import DesignTokens.Proofs.OrdMap

/-!
How generating palettes fails. A ladder fails by itself only where it lacks a rung that its policy
names, or has a rung without chroma; the ladders of the roles are not of that kind. What remains are
texts that are no colours, and seeds whose tone is near no band.
-/

namespace DesignTokens

/-- A search that keeps one of two items at each step finds an item of the list. -/
theorem mem_of_foldl_best {α : Type} {step : Option α → α → Option α}
    (hfirst : ∀ x, step none x = some x)
    (hkeep : ∀ best x, step (some best) x = some best ∨ step (some best) x = some x)
    {xs : List α} {found : α} (h : xs.foldl step none = some found) : found ∈ xs := by
  have hrest : ∀ (xs : List α) (best : α), xs.foldl step (some best) = some found →
      found ∈ best :: xs := by
    intro xs
    induction xs with
    | nil =>
        intro best h
        exact List.mem_singleton.mpr (Option.some.inj h).symm
    | cons x xs ih =>
        intro best h
        rw [List.foldl_cons] at h
        rcases hkeep best x with heq | heq
        · rcases List.mem_cons.mp (ih best (heq ▸ h)) with rfl | hmem
          · exact List.mem_cons_self
          · exact List.mem_cons_of_mem best (List.mem_cons_of_mem x hmem)
        · exact List.mem_cons_of_mem best (ih x (heq ▸ h))
  cases xs with
  | nil => cases h
  | cons x xs =>
      rw [List.foldl_cons, hfirst] at h
      exact hrest xs x h

namespace Ladder

theorem mem_of_rung {N : Type} {l : Ladder N} {step : Int} {r : Rung N}
    (h : l.rung step = .ok r) : r ∈ l.rungs := by
  unfold rung at h
  split at h
  · next hfind => exact Except.ok.inj h ▸ List.mem_of_find?_eq_some hfind
  · cases h

/-! ### Placing a seed -/

-- numbers have all operations, also where a lemma needs few of them
set_option linter.unusedSectionVars false

variable {N : Type} [Add N] [Sub N] [Mul N] [Div N] [LE N] [LT N] [DecidableLE N] [DecidableLT N]
  [OfScientific N] {l : Ladder N} {r : Rung N} {tone : N} {seed : Hct N} {mode : Option PaletteMode}

/-- A ladder has the rungs that its policy names, and every rung has chroma. -/
structure IsSound (l : Ladder N) : Prop where
  pinned : l.policy = .pinned → (∃ r, l.rung 600 = .ok r) ∧ ∃ r, l.rung 400 = .ok r
  chromatic : ∀ r ∈ l.rungs, ¬ r.chromaShare ≤ 0.0

theorem mem_of_nearest? (h : l.nearest? tone = some r) : r ∈ l.rungs := by
  refine (List.mem_filter.mp (mem_of_foldl_best (fun _ => rfl) (fun best x => ?_) h)).1
  exact (ite_eq_or_eq ..).symm.imp (congrArg some) (congrArg some)

theorem mem_of_narrowest? {rungs : List (Rung N)} (h : narrowest? rungs = some r) :
    r ∈ rungs := by
  refine mem_of_foldl_best (fun _ => rfl) (fun best x => ?_) h
  exact (ite_eq_or_eq ..).symm.imp (congrArg some) (congrArg some)

theorem mem_of_placeOf? (h : l.placeOf? tone = some r) : r ∈ l.rungs := by
  unfold placeOf? at h
  split at h
  · exact mem_of_nearest? h
  · exact (List.mem_filter.mp (mem_of_narrowest? h)).1

theorem mem_of_pinned? (h : l.pinned? mode = .ok (some r)) : r ∈ l.rungs := by
  unfold pinned? at h
  split at h
  · obtain ⟨found, hfound, heq⟩ := Outcome.map_eq_ok.mp h
    exact Option.some.inj heq ▸ mem_of_rung hfound
  · obtain ⟨found, hfound, heq⟩ := Outcome.map_eq_ok.mp h
    exact Option.some.inj heq ▸ mem_of_rung hfound
  · cases h

/-- A seed is placed on a rung of the ladder. -/
theorem mem_of_place {p : Placement N} (h : l.place seed mode = .ok p) : p.base ∈ l.rungs := by
  obtain ⟨held?, hheld, h⟩ := Outcome.bind_eq_ok.mp h
  obtain ⟨pinned?, hpinned, hfilter⟩ := Outcome.bind_eq_ok.mp hheld
  obtain rfl := Outcome.pure_eq_ok.mp hfilter
  split at h
  · next r hr =>
      obtain rfl := Outcome.pure_eq_ok.mp h
      rw [Option.filter_eq_some_iff] at hr
      exact mem_of_pinned? (hr.1 ▸ hpinned)
  · split at h
    · next r hr =>
        obtain rfl := Outcome.pure_eq_ok.mp h
        exact mem_of_placeOf? hr
    · cases h

theorem exists_adjustSeed_of_pinned? {r? : Option (Rung N)} (hr : l.pinned? mode = .ok r?)
    (space : ColorSpace N) (seed : Hct N) :
    ∃ adjusted, l.adjustSeed space seed mode = .ok adjusted := by
  unfold adjustSeed
  split
  · exact ⟨seed, rfl⟩
  · rw [hr]
    cases r? with
    | none => exact ⟨seed, rfl⟩
    | some r => exact ⟨_, rfl⟩
  · exact ⟨_, rfl⟩

/-- Where a seed stands, as soon as it is known which rung the page mode pins. -/
theorem place_of_pinned? {pinned? : Option (Rung N)} (hpinned : l.pinned? mode = .ok pinned?)
    (seed : Hct N) : l.place seed mode = match pinned?.filter fun r => r.holds seed.tone with
      | some r => .ok ⟨r, 0.5, true⟩
      | none => match l.placeOf? seed.tone with
        | some r => .ok ⟨r, r.proportion seed.tone, false⟩
        | none => .error (.unplacedSeed seed.color.hex) := by
  have hexact : l.exactRung? seed.tone mode = .ok (pinned?.filter fun r => r.holds seed.tone) :=
    Outcome.bind_eq_ok.mpr ⟨pinned?, hpinned, rfl⟩
  rw [Ladder.place, hexact]
  cases pinned?.filter fun r => r.holds seed.tone with
  | some r => rfl
  | none => cases hplace : l.placeOf? seed.tone <;> rfl

namespace IsSound

variable (hl : l.IsSound)
include hl

theorem exists_pinned? (mode : Option PaletteMode) : ∃ r?, l.pinned? mode = .ok r? := by
  unfold pinned?
  split
  · next hpolicy =>
      obtain ⟨r, hr⟩ := (hl.pinned hpolicy).1
      exact ⟨some r, by simp [hr]⟩
  · next hpolicy =>
      obtain ⟨r, hr⟩ := (hl.pinned hpolicy).2
      exact ⟨some r, by simp [hr]⟩
  · exact ⟨none, rfl⟩

theorem exists_adjustSeed (space : ColorSpace N) (seed : Hct N)
    (mode : Option PaletteMode) : ∃ adjusted, l.adjustSeed space seed mode = .ok adjusted := by
  obtain ⟨r?, hr⟩ := hl.exists_pinned? mode
  exact exists_adjustSeed_of_pinned? hr space seed

theorem exists_baseChroma (chroma : N) (hr : r ∈ l.rungs) :
    ∃ base, l.baseChroma chroma r = .ok base := by
  unfold baseChroma
  split
  · exact ⟨chroma, rfl⟩
  · rw [if_neg fun hzero => hl.chromatic r hr hzero.1]
    exact ⟨_, rfl⟩

/-- A seed that is not placed is told so. -/
theorem place (seed : Hct N) (mode : Option PaletteMode) :
    FailsByDesign (l.place seed mode) := by
  obtain ⟨r?, hr⟩ := hl.exists_pinned? mode
  rw [place_of_pinned? hr]
  split
  · exact .of_exists ⟨_, rfl⟩
  · split
    · exact .of_exists ⟨_, rfl⟩
    · exact FailsByDesign.error_iff.mpr rfl

theorem palette (space : ColorSpace N) (seed : Color) (autoAdjust : Bool)
    (mode : Option PaletteMode) : FailsByDesign (l.palette space seed autoAdjust mode) := by
  have hplaced : ∀ (adjusted : Color) (make : Placement N → N → Palette),
      FailsByDesign (l.place (space.of adjusted) mode >>= fun p =>
        l.baseChroma (space.of adjusted).chroma p.base >>= fun chroma => pure (make p chroma)) := by
    intro adjusted make
    refine FailsByDesign.bind_iff.mpr ⟨hl.place _ mode, fun p hp => ?_⟩
    obtain ⟨chroma, hchroma⟩ :=
      hl.exists_baseChroma (space.of adjusted).chroma (mem_of_place hp)
    exact .of_exists ⟨make p chroma, Outcome.bind_eq_ok.mpr ⟨chroma, hchroma, rfl⟩⟩
  unfold Ladder.palette
  split
  · refine FailsByDesign.bind_iff.mpr ⟨?_, fun adjusted _ => hplaced adjusted _⟩
    exact FailsByDesign.map_iff.mpr (.of_exists (hl.exists_adjustSeed space _ mode))
  · exact FailsByDesign.bind_iff.mpr ⟨.of_exists ⟨seed, rfl⟩, fun adjusted _ => hplaced adjusted _⟩

end IsSound

/-! ### The ladders of the roles -/

/-- What holds of the three ladders and their pairs holds for every role. -/
theorem ofRole_cases (P : Ladder N → List ContrastPair → Prop)
    (hprimary : P primary (contrastPairs "primary"))
    (hneutral : P neutral (contrastPairs "neutral"))
    (hwarning : P warning (contrastPairs "warning")) (role : String) :
    P (ofRole role) (contrastPairs role) := by
  by_cases hrole : role = "neutral"
  · exact hrole ▸ hneutral
  · by_cases hrole' : role = "warning"
    · exact hrole' ▸ hwarning
    · have hladder : (ofRole role : Ladder N) = primary := by
        rw [ofRole, if_neg hrole, if_neg hrole']
      have hpairs : contrastPairs role = contrastPairs "primary" := by
        rw [contrastPairs, if_neg hrole, if_neg hrole']
        rfl
      rw [hladder, hpairs]
      exact hprimary

theorem pinned_ofRole (role : String) : (ofRole role : Ladder N).policy = .pinned →
    (∃ r, (ofRole role : Ladder N).rung 600 = .ok r) ∧
      ∃ r, (ofRole role : Ladder N).rung 400 = .ok r :=
  ofRole_cases (fun l _ => l.policy = .pinned → (∃ r, l.rung 600 = .ok r) ∧ ∃ r, l.rung 400 = .ok r)
    (fun _ => ⟨⟨_, rfl⟩, ⟨_, rfl⟩⟩) nofun nofun role

theorem isSound_ofRole (role : String) : (ofRole role : Ladder Float).IsSound where
  pinned := pinned_ofRole role
  chromatic := ofRole_cases (fun l _ => ∀ r ∈ l.rungs, ¬ r.chromaShare ≤ 0.0)
    (by decide +kernel) (by decide +kernel) (by decide +kernel) role

end Ladder

/-! ### Palettes of a theme -/

variable {space : ColorSpace Float}

theorem Color.ofText_failsByDesign (s : String) : FailsByDesign (ofText s) := by
  unfold ofText
  split
  · split
    · exact .of_exists ⟨_, rfl⟩
    · exact FailsByDesign.error_iff.mpr rfl
  · split
    · exact FailsByDesign.error_iff.mpr rfl
    · split
      · exact .of_exists ⟨_, rfl⟩
      · exact FailsByDesign.error_iff.mpr rfl

theorem generatePalette_failsByDesign (role seed : String) (autoAdjust : Bool)
    (mode : Option PaletteMode) :
    FailsByDesign (generatePalette space role seed autoAdjust mode) := by
  rw [generatePalette, FailsByDesign.bind_iff]
  exact ⟨Color.ofText_failsByDesign seed, fun color _ =>
    (Ladder.isSound_ofRole role).palette space color autoAdjust mode⟩

namespace Palette

/-- A palette is given as a seed, or as a map of texts. -/
def IsTyped (input : Value) : Prop :=
  (∃ s, input = .text s) ∨
    ∃ fields, input.fields? = some fields ∧ ∀ v ∈ fields.values, ∃ s, v = .text s

theorem expand_failsByDesign {input : Value} (h : IsTyped input) (role : String)
    (config : Config) : FailsByDesign (expand space role input config) := by
  have hseed : ∀ s, FailsByDesign (ofSeed space role (.text s) config) :=
    fun s => generatePalette_failsByDesign role s _ _
  rcases h with ⟨s, rfl⟩ | ⟨fields, hfields, htexts⟩
  · exact FailsByDesign.bind_iff.mpr ⟨hseed s, fun _ _ => .of_exists ⟨_, rfl⟩⟩
  · unfold expand
    split
    · cases hfields
    · simp only [hfields]
      refine FailsByDesign.bind_iff.mpr ⟨.of_exists ⟨_, rfl⟩, fun fields' hsame => ?_⟩
      obtain rfl := Except.ok.inj hsame
      split
      · exact .of_exists ⟨_, rfl⟩
      · next htruthy =>
          refine FailsByDesign.bind_iff.mpr ⟨?_, fun _ _ => .of_exists ⟨_, rfl⟩⟩
          cases hget : fields.get? "seed" with
          | none => simp [hget, Value.truthy] at htruthy
          | some v =>
              obtain ⟨s, rfl⟩ := htexts v (OrdMap.mem_values_iff.mpr ⟨"seed", hget⟩)
              exact hseed s

theorem tokens_failsByDesign {palettes : OrdMap Value} (h : ∀ v ∈ palettes.values, IsTyped v)
    (config : Config) : FailsByDesign (tokens space palettes config) := by
  refine FailsByDesign.foldlM (fun e he tokens => ?_) OrdMap.empty
  refine FailsByDesign.bind_iff.mpr ⟨?_, fun _ _ => .of_exists ⟨_, rfl⟩⟩
  exact expand_failsByDesign (h e.2 (List.mem_map_of_mem he)) e.1 config

end Palette

end DesignTokens
