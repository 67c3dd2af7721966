import DesignTokens.Proofs.Palette.Placement
import DesignTokens.Proofs.Palette.Steps

/-!
The tokens that palettes are expanded into. How seeds are adjusted, and for which kind of page,
decides on colours only: a theme's palettes have the same tokens, in the same order, however they
are generated. If every tone has a place on the ladders, they can be generated in every way if in
one.
-/

namespace DesignTokens

/-! ### Values -/

namespace Palette

variable {steps : List (Int × Value)} {P : Value → Prop}

theorem mem_setStep {α : Type} {step : Int} {v : α} {steps : List (Int × α)} {e : Int × α}
    (h : e ∈ setStep step v steps) : e = (step, v) ∨ e ∈ steps := by
  induction steps with
  | nil => exact .inl (List.mem_singleton.mp h)
  | cons d rest ih =>
      obtain ⟨n, w⟩ := d
      rw [setStep] at h
      split at h
      · exact (List.mem_cons.mp h).imp_right (List.mem_cons_of_mem _)
      · obtain rfl | h := List.mem_cons.mp h
        · exact .inr List.mem_cons_self
        · exact (ih h).imp_right (List.mem_cons_of_mem _)

/-- Every rung has a value of a kind. -/
def AllRungs (P : Value → Prop) (steps : List (Int × Value)) : Prop := ∀ e ∈ steps, P e.2

theorem AllRungs.setStep (h : AllRungs P steps) (step : Int) {v : Value} (hv : P v) :
    AllRungs P (setStep step v steps) := by
  intro e he
  obtain rfl | he := mem_setStep he
  · exact hv
  · exact h e he

theorem allRungs_values (htext : ∀ s, P (.text s)) (p : Palette) : AllRungs P p.values := by
  intro e he
  obtain ⟨rung, -, rfl⟩ := List.mem_map.mp he
  exact htext _

theorem allRungs_givenSteps {fields : OrdMap Value}
    (hgiven : ∀ v ∈ fields.values, v.truthy = true → P v) : AllRungs P (givenSteps fields) := by
  refine List.foldlRecOn fields.entries _ (motive := AllRungs P) (by simp [AllRungs]) ?_
  rintro steps hsteps ⟨key, v⟩ hmem
  simp only
  split
  · exact hsteps
  · next hpassed =>
      have hv : P v := by
        simp only [Bool.or_eq_true, Bool.not_eq_true', not_or] at hpassed
        exact hgiven v (List.mem_map_of_mem hmem) (by simpa using hpassed.2)
      split
      · split
        · exact hsteps.setStep _ hv
        · exact hsteps
      · exact hsteps

variable {N : Type} [Add N] [Sub N] [Mul N] [Div N] [LE N] [LT N] [DecidableLE N] [DecidableLT N]
  [OfScientific N] {space : ColorSpace N} {role : String} {input : Value} {config : Config}

theorem sorted_steps (steps : List (Int × Value)) :
    sorted (fun a b => a.1 ≤ b.1) steps = steps.mergeSort fun a b => a.1 ≤ b.1 :=
  sorted_eq_mergeSort_key Prod.fst steps

/-- The ways in which a palette is expanded. -/
theorem expand_eq_ok : expand space role input config = .ok steps ↔
    (∃ s p, input = .text s ∧
      generatePalette space role s config.autoAdjust.truthy config.paletteMode = .ok p ∧
      steps = p.values) ∨
    (∀ s, input ≠ .text s) ∧ ∃ fields, input.fields? = some fields ∧
      ((((fields.get? "seed").getD .null).truthy = false ∧ steps = givenSteps fields) ∨
        ((fields.get? "seed").getD .null).truthy = true ∧
          ∃ p, ofSeed space role ((fields.get? "seed").getD .null) config = .ok p ∧
            steps = ((givenSteps fields).foldl (fun steps e => setStep e.1 e.2 steps)
              p.values).mergeSort fun a b => a.1 ≤ b.1) := by
  cases input with
  | text s => simp [expand, ofSeed, eq_comm (a := steps)]
  | object es =>
      cases hseed : (((OrdMap.ofList es).get? "seed").getD .null).truthy <;>
        simp [expand, Value.fields?, hseed, sorted_steps, eq_comm (a := steps)]
  | _ => simp [expand, Value.fields?]

/-- What holds of all texts and of the values that a document gives holds of all values. -/
theorem allRungs_expand (htext : ∀ s, P (.text s))
    (hgiven : ∀ fields, input.fields? = some fields → ∀ v ∈ fields.values, v.truthy = true → P v)
    (h : expand space role input config = .ok steps) : AllRungs P steps := by
  obtain ⟨s, p, -, -, rfl⟩ | ⟨-, fields, hfields, ⟨-, rfl⟩ | ⟨-, p, -, rfl⟩⟩ := expand_eq_ok.mp h
  · exact allRungs_values htext p
  · exact allRungs_givenSteps (hgiven fields hfields)
  · intro e he
    rw [List.mem_mergeSort] at he
    refine List.foldlRecOn (givenSteps fields) _ (motive := AllRungs P) (allRungs_values htext p)
      ?_ e he
    intro steps hsteps d hd
    exact hsteps.setStep _ (allRungs_givenSteps (hgiven fields hfields) d hd)

/-- What holds of the values of all rungs holds of the values of the tokens. -/
theorem forall_tokens {palettes generated : OrdMap Value}
    (hrungs : ∀ e ∈ palettes.entries, ∀ steps, expand space e.1 e.2 config = .ok steps →
      AllRungs P steps)
    (h : tokens space palettes config = .ok generated) {token : String} {v : Value}
    (hv : generated.get? token = some v) : P v := by
  refine Outcome.foldlM_induction (fun _ (generated : OrdMap Value) =>
    ∀ token v, generated.get? token = some v → P v) (by simp) ?_ h token v hv
  rintro done e rest before after hentries hbefore hstep
  obtain ⟨steps, hsteps, hstep⟩ := Outcome.bind_eq_ok.mp hstep
  obtain rfl := Outcome.pure_eq_ok.mp hstep
  refine List.foldlRecOn steps _ (motive := fun generated : OrdMap Value =>
    ∀ token v, generated.get? token = some v → P v) hbefore ?_
  intro generated hgenerated d hd token v hv
  rw [OrdMap.get?_insert] at hv
  split at hv
  · obtain rfl := Option.some.inj hv
    exact hrungs e (by simp [hentries]) steps hsteps d hd
  · exact hgenerated token v hv

/-! ### Names -/

/-- The rungs of a palette, given those of its ladder. -/
def rungsOf (ladder : List Int) (input : Value) : List Int :=
  match input with
  | .text _ => ladder
  | _ =>
    match input.fields? with
    | none => []
    | some fields =>
      let given := (givenSteps fields).map Prod.fst
      if ((fields.get? "seed").getD .null).truthy then
        (given.foldl addNew ladder).mergeSort (· ≤ ·)
      else given

/-- The tokens of palettes, given the rungs of the ladder of each role. -/
def tokenNames (ladder : String → List Int) (palettes : List (String × Value)) : List String :=
  palettes.foldl (fun names e => ((rungsOf (ladder e.1) e.2).map fun step =>
    rungTokenName e.1 (toString step)).foldl addNew names) []

theorem steps_values (p : Palette) : p.values.map Prod.fst = p.steps.map Prod.fst := by
  simp [values, Function.comp_def]

theorem steps_of_generatePalette {s : String} {autoAdjust : Bool} {mode : Option PaletteMode}
    {p : Palette} (h : generatePalette space role s autoAdjust mode = .ok p) :
    p.steps.map Prod.fst = (Ladder.ofRole role : Ladder N).steps := by
  obtain ⟨seed, -, hpalette⟩ := Outcome.bind_eq_ok.mp h
  exact Ladder.steps_palette space _ hpalette

theorem ofSeed_eq_ok {seed : Value} {p : Palette} : ofSeed space role seed config = .ok p ↔
    ∃ s, seed = .text s ∧
      generatePalette space role s config.autoAdjust.truthy config.paletteMode = .ok p := by
  cases seed <;> simp [ofSeed]

theorem steps_expand (h : expand space role input config = .ok steps) :
    steps.map Prod.fst = rungsOf (Ladder.ofRole role : Ladder N).steps input := by
  obtain ⟨s, p, rfl, hp, rfl⟩ | ⟨hmap, fields, hfields, hseed⟩ := expand_eq_ok.mp h
  · rw [steps_values, steps_of_generatePalette hp, rungsOf]
  · rw [rungsOf, hfields]
    · obtain ⟨hseed, rfl⟩ | ⟨hseed, p, hp, rfl⟩ := hseed
      · simp [hseed]
      · obtain ⟨s, -, hp⟩ := ofSeed_eq_ok.mp hp
        have hsort : ∀ xs : List (Int × Value), (xs.mergeSort fun a b => a.1 ≤ b.1).map Prod.fst =
            (xs.map Prod.fst).mergeSort (· ≤ ·) := fun xs => List.map_mergeSort (by simp)
        rw [hsort, steps_foldl_setStep, steps_values, steps_of_generatePalette hp]
        simp [hseed]
    · exact hmap

theorem keys_foldl_insert {β : Type} (name : β → String) (value : β → Value) (xs : List β)
    (m : OrdMap Value) : (xs.foldl (fun m x => m.insert (name x) (value x)) m).keys =
      (xs.map name).foldl addNew m.keys := by
  induction xs generalizing m with
  | nil => rfl
  | cons x xs ih =>
      rw [List.foldl_cons, ih, OrdMap.keys_insert, List.map_cons, List.foldl_cons]
      simp [addNew, OrdMap.contains_iff]

/-- The tokens of palettes have the same names, in the same order, however they are generated. -/
theorem keys_tokens {palettes generated : OrdMap Value}
    (h : tokens space palettes config = .ok generated) : generated.keys =
      tokenNames (fun role => (Ladder.ofRole role : Ladder N).steps) palettes.entries := by
  refine Outcome.foldlM_induction (fun done (generated : OrdMap Value) => generated.keys =
    tokenNames (fun role => (Ladder.ofRole role : Ladder N).steps) done) rfl ?_ h
  rintro done e rest before after - hbefore hstep
  obtain ⟨steps, hsteps, hstep⟩ := Outcome.bind_eq_ok.mp hstep
  obtain rfl := Outcome.pure_eq_ok.mp hstep
  have hnames : steps.map (fun d => rungTokenName e.1 (toString d.1)) =
      (rungsOf (Ladder.ofRole e.1 : Ladder N).steps e.2).map fun step =>
        rungTokenName e.1 (toString step) := by
    rw [← steps_expand hsteps, List.map_map]
    rfl
  rw [keys_foldl_insert, hbefore, hnames, tokenNames, tokenNames, List.foldl_append]
  rfl

end Palette

/-! ### Generating in another way -/

variable {N : Type} [Add N] [Sub N] [Mul N] [Div N] [LE N] [LT N] [DecidableLE N] [DecidableLT N]
  [OfScientific N] {space : ColorSpace N}

/-- The ladders of the roles have a rung for the tone of every colour. -/
structure ColorSpace.IsPlaceable (space : ColorSpace N) : Prop where
  sound : ∀ role, (Ladder.ofRole role : Ladder N).IsSound
  placed : ∀ role c, ∃ r, (Ladder.ofRole role : Ladder N).placeOf? (space.of c).tone = some r

/-- In exact numbers every tone has a rung. -/
theorem ColorSpace.isPlaceable_exact (space : ColorSpace ℚ) : space.IsPlaceable where
  sound := Ladder.isSound_exact
  placed role c := by
    obtain ⟨r, hr, -⟩ :=
      Ladder.exists_placeOf? (Ladder.rungs_ofRole_ne_nil role) none (space.of c).tone
    exact ⟨r, hr⟩

/-- Colours whose red is their tone and whose green is their chroma, in exact numbers. -/
def ColorSpace.redTones : ColorSpace ℚ where
  measure c := (0, c.green.toNat, c.red.toNat)
  solve _ chroma tone := ⟨.ofNat tone.floor.toNat, .ofNat chroma.floor.toNat, 0⟩

theorem Ladder.IsSound.exists_palette {l : Ladder N} (hl : l.IsSound)
    (hplaced : ∀ c, ∃ r, l.placeOf? (space.of c).tone = some r) (seed : Color) (autoAdjust : Bool)
    (mode : Option PaletteMode) : ∃ p, l.palette space seed autoAdjust mode = .ok p := by
  obtain ⟨pinned?, hpinned⟩ := hl.exists_pinned? mode
  obtain ⟨adjusted, hadjusted⟩ := exists_adjusted space l hpinned seed autoAdjust
  obtain ⟨placement, hplacement⟩ : ∃ placement,
      l.place (space.of adjusted) mode = .ok placement := by
    obtain ⟨r, hr⟩ := hplaced adjusted
    rw [place_of_pinned? hpinned, hr]
    split
    · exact ⟨_, rfl⟩
    · exact ⟨_, rfl⟩
  obtain ⟨chroma, hchroma⟩ :=
    hl.exists_baseChroma (space.of adjusted).chroma (mem_of_place hplacement)
  exact ⟨_, (l.palette_eq_ok space).mpr
    ⟨adjusted, placement, chroma, hadjusted, hplacement, hchroma, rfl⟩⟩

namespace Palette

variable (hspace : space.IsPlaceable)
include hspace

theorem exists_generatePalette {role s : String} {autoAdjust : Bool} {mode : Option PaletteMode}
    {p : Palette} (h : generatePalette space role s autoAdjust mode = .ok p) (autoAdjust' : Bool)
    (mode' : Option PaletteMode) :
    ∃ p', generatePalette space role s autoAdjust' mode' = .ok p' := by
  obtain ⟨seed, hseed, -⟩ := Outcome.bind_eq_ok.mp h
  obtain ⟨p', hp'⟩ := (hspace.sound role).exists_palette (hspace.placed role) seed autoAdjust' mode'
  exact ⟨p', Outcome.bind_eq_ok.mpr ⟨seed, hseed, hp'⟩⟩

theorem exists_expand {role : String} {input : Value} {config : Config} {steps : List (Int × Value)}
    (h : expand space role input config = .ok steps) (config' : Config) :
    ∃ steps', expand space role input config' = .ok steps' := by
  have hagain : ∀ {seed p}, ofSeed space role seed config = .ok p →
      ∃ p', ofSeed space role seed config' = .ok p' := by
    intro seed p hp
    obtain ⟨s, rfl, hp⟩ := ofSeed_eq_ok.mp hp
    exact exists_generatePalette hspace hp _ _
  obtain ⟨s, p, rfl, hp, -⟩ | ⟨hmap, fields, hfields, ⟨hseed, -⟩ | ⟨hseed, p, hp, -⟩⟩ :=
    expand_eq_ok.mp h
  · obtain ⟨p', hp'⟩ := exists_generatePalette hspace hp _ _
    exact ⟨_, expand_eq_ok.mpr (.inl ⟨s, p', rfl, hp', rfl⟩)⟩
  · exact ⟨_, expand_eq_ok.mpr (.inr ⟨hmap, fields, hfields, .inl ⟨hseed, rfl⟩⟩)⟩
  · obtain ⟨p', hp'⟩ := hagain hp
    exact ⟨_, expand_eq_ok.mpr (.inr ⟨hmap, fields, hfields, .inr ⟨hseed, p', hp', rfl⟩⟩)⟩

theorem exists_tokens {palettes generated : OrdMap Value} {config : Config}
    (h : tokens space palettes config = .ok generated) (config' : Config) :
    ∃ generated', tokens space palettes config' = .ok generated' := by
  have hexpanded : ∀ e ∈ palettes.entries, ∃ steps, expand space e.1 e.2 config = .ok steps := by
    refine Outcome.foldlM_induction (fun done _ => ∀ e ∈ done, ∃ steps,
      expand space e.1 e.2 config = .ok steps) (by simp) ?_ h
    rintro done e rest before after - hdone hstep
    obtain ⟨steps, hsteps, -⟩ := Outcome.bind_eq_ok.mp hstep
    intro d hd
    obtain hd | hd := List.mem_append.mp hd
    · exact hdone d hd
    · exact List.mem_singleton.mp hd ▸ ⟨steps, hsteps⟩
  refine Outcome.exists_foldlM_of_forall _ fun e he generated => ?_
  obtain ⟨steps, hsteps⟩ := hexpanded e he
  obtain ⟨steps', hsteps'⟩ := exists_expand hspace hsteps config'
  exact ⟨_, Outcome.bind_eq_ok.mpr ⟨steps', hsteps', rfl⟩⟩

end Palette

end DesignTokens
