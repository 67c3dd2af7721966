import DesignTokens.Proofs.Palette.Generate

/-!
Palettes rung by rung. Rungs are given colours one after another; which rungs have one in the end,
and in which order, depends on the numbers of the rungs only, not on the colours.
-/

namespace DesignTokens

/-- The names with one more at the end, unless it is among them. -/
def addNew {κ : Type} [DecidableEq κ] (names : List κ) (name : κ) : List κ :=
  if name ∈ names then names else names ++ [name]

namespace Palette

variable {α β : Type}

theorem steps_setStep (step : Int) (v : α) (steps : List (Int × α)) :
    (setStep step v steps).map Prod.fst = addNew (steps.map Prod.fst) step := by
  induction steps with
  | nil => rfl
  | cons e rest ih =>
      obtain ⟨n, w⟩ := e
      by_cases hn : n = step
      · simp [setStep, addNew, hn]
      · simp only [setStep, if_neg hn, List.map_cons, ih, addNew, List.mem_cons, Ne.symm hn,
          false_or]
        split <;> rfl

theorem steps_foldl_setStep (step : β → Int) (value : β → α) (xs : List β)
    (steps : List (Int × α)) :
    (xs.foldl (fun steps x => setStep (step x) (value x) steps) steps).map Prod.fst =
      (xs.map step).foldl addNew (steps.map Prod.fst) := by
  induction xs generalizing steps with
  | nil => rfl
  | cons x xs ih => rw [List.foldl_cons, ih, steps_setStep, List.map_cons, List.foldl_cons]

theorem setStep_of_notMem {step : Int} {steps : List (Int × α)} (h : step ∉ steps.map Prod.fst)
    (v : α) : setStep step v steps = steps ++ [(step, v)] := by
  induction steps with
  | nil => rfl
  | cons e rest ih =>
      obtain ⟨n, w⟩ := e
      rw [List.map_cons, List.mem_cons, not_or] at h
      rw [setStep, if_neg (Ne.symm h.1), ih h.2, List.cons_append]

/-- Rungs with different numbers are listed as they are given. -/
theorem foldl_setStep_of_nodup {step : β → Int} {value : β → α} {xs : List β}
    {steps : List (Int × α)} (h : (steps.map Prod.fst ++ xs.map step).Nodup) :
    xs.foldl (fun steps x => setStep (step x) (value x) steps) steps =
      steps ++ xs.map fun x => (step x, value x) := by
  induction xs generalizing steps with
  | nil => simp
  | cons x xs ih =>
      have hnew : step x ∉ steps.map Prod.fst := by
        rw [List.nodup_append] at h
        exact fun hmem => h.2.2 _ hmem _ (by simp) rfl
      rw [List.foldl_cons, setStep_of_notMem hnew, ih (by simpa using h)]
      simp

end Palette

namespace Ladder

variable {N : Type} [Add N] [Sub N] [Mul N] [Div N] [LE N] [LT N] [DecidableLE N] [DecidableLT N]
  [OfScientific N] (space : ColorSpace N) (l : Ladder N) {seed : Color} {autoAdjust : Bool}
  {mode : Option PaletteMode} {p : Palette}

/-- The numbers of the rungs, each in its first place. -/
def steps : List Int := (l.rungs.map Rung.step).foldl addNew []

/-- The seed that a palette is made of. -/
def adjusted (seed : Color) (autoAdjust : Bool) (mode : Option PaletteMode) : Except Fault Color :=
  if autoAdjust then Hct.color <$> l.adjustSeed space (space.of seed) mode else .ok seed

/-- The colour of a rung in the palette of an adjusted seed. -/
def colorOf (adjusted : Color) (wasAdjusted : Bool) (placement : Placement N) (chroma : N)
    (r : Rung N) : Color :=
  if keepsSeed placement wasAdjusted r then adjusted
  else space.solve (space.of adjusted).hue (lesser (r.chromaShare * chroma) l.maxChroma)
    (r.toneAt placement.proportion)

theorem exists_adjusted {pinned? : Option (Rung N)} (hpinned : l.pinned? mode = .ok pinned?)
    (seed : Color) (autoAdjust : Bool) :
    ∃ adjusted, l.adjusted space seed autoAdjust mode = .ok adjusted := by
  obtain ⟨moved, hmoved⟩ := exists_adjustSeed_of_pinned? hpinned space (space.of seed)
  cases autoAdjust with
  | true => exact ⟨moved.color, by rw [adjusted, if_pos rfl, hmoved]; rfl⟩
  | false => exact ⟨seed, rfl⟩

theorem palette_eq_ok : l.palette space seed autoAdjust mode = .ok p ↔
    ∃ adjusted placement chroma, l.adjusted space seed autoAdjust mode = .ok adjusted ∧
      l.place (space.of adjusted) mode = .ok placement ∧
      l.baseChroma (space.of adjusted).chroma placement.base = .ok chroma ∧
      p = ⟨adjusted, l.rungs.foldl (fun steps r => Palette.setStep r.step
        (l.colorOf space adjusted (adjusted != seed) placement chroma r) steps) []⟩ := by
  cases autoAdjust <;>
    simp only [palette, Ladder.adjusted, if_true, if_false, Bool.false_eq_true, Outcome.bind_eq_ok,
      Outcome.pure_eq_ok, colorOf, eq_comm (a := p), exists_and_left]

/-- Every palette of a ladder has the same rungs. -/
theorem steps_palette (h : l.palette space seed autoAdjust mode = .ok p) :
    p.steps.map Prod.fst = l.steps := by
  obtain ⟨adjusted, placement, chroma, -, -, -, rfl⟩ := (l.palette_eq_ok space).mp h
  exact Palette.steps_foldl_setStep ..

end Ladder

end DesignTokens
