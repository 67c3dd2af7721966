import DesignTokens.Proofs.Palette.Expansion
import Mathlib.Data.List.MinMax
import Mathlib.Data.Prod.Lex

/-!
Which rung of a ladder a tone belongs to, and where its seed stands in the palette. Searching a
ladder finds the first of its best rungs, by width or by nearness, so a ladder with rungs gives
every tone a rung. Hence a palette can be made of every seed: it has one colour for each rung, and a
seed that was not moved is the colour of its rung.
-/

namespace DesignTokens

/-! ### The first of the least -/

/-- No item of a list is less, and none before it is as little. -/
def FirstLeast {α β : Type} [LinearOrder β] (f : α → β) (xs : List α) (x : α) : Prop :=
  ∃ before after, xs = before ++ x :: after ∧ (∀ y ∈ before, f x < f y) ∧ ∀ y ∈ after, f x ≤ f y

section FirstLeast

variable {α β γ : Type} [LinearOrder β] [LinearOrder γ] {f : α → β} {xs : List α} {x : α}

theorem FirstLeast.mem (h : FirstLeast f xs x) : x ∈ xs := by
  obtain ⟨before, after, rfl, -, -⟩ := h
  simp

/-- Another measure that orders items alike has the same first least item. -/
theorem FirstLeast.congr {g : α → γ} (hlt : ∀ a b, f a < f b → g a < g b)
    (hle : ∀ a b, f a ≤ f b → g a ≤ g b) (h : FirstLeast f xs x) : FirstLeast g xs x := by
  obtain ⟨before, after, hxs, hbefore, hafter⟩ := h
  exact ⟨before, after, hxs, fun y hy => hlt x y (hbefore y hy), fun y hy => hle x y (hafter y hy)⟩

theorem firstLeast_of_argmin (h : xs.argmin f = some x) : FirstLeast f xs x := by
  classical
  obtain ⟨hmem, hleast, hfirst⟩ := List.argmin_eq_some_iff.mp h
  obtain ⟨before, after, rfl, hnew⟩ := List.eq_append_cons_of_mem hmem
  refine ⟨before, after, rfl, fun y hy => ?_, fun y hy => hleast y (by simp [hy])⟩
  by_contra hnot
  -- an item before `x` that is as little would have been found first
  have hplace := hfirst y (by simp [hy]) (not_lt.mp hnot)
  rw [List.idxOf_append_of_notMem hnew, List.idxOf_cons_self, List.idxOf_append_of_mem hy] at hplace
  exact absurd (List.idxOf_lt_length_of_mem hy) (by omega)

end FirstLeast

/-! ### Reading a seed -/

/-- Only what is no colour cannot be read as one. -/
theorem Color.invalidColor_of_ofText_eq_error {s : String} {f : Fault}
    (h : ofText s = .error f) : ∃ cause, f = .invalidColor cause s := by
  unfold ofText at h
  split at h
  · split at h <;> cases h
    exact ⟨.hex, rfl⟩
  · split at h
    · cases h
      exact ⟨.form, rfl⟩
    · split at h <;> cases h
      exact ⟨.channel, rfl⟩

/-! ### Searching a ladder -/

namespace Rung

/-- How near a rung is to a tone. If the tone is dark, the darker of two equally near rungs is
nearer. -/
def nearness (tone : ℚ) (r : Rung ℚ) : ℚ ×ₗ ℚ :=
  toLex (|tone - r.midTone|, if tone < 50 then r.midTone else 0)

theorem nearness_of_dark {tone : ℚ} (h : tone < 50) :
    nearness tone = fun r => toLex (|tone - r.midTone|, r.midTone) := by
  simp [funext_iff, nearness, h]

theorem nearness_of_light {tone : ℚ} (h : 50 ≤ tone) :
    nearness tone = fun r => toLex (|tone - r.midTone|, 0) := by
  simp [funext_iff, nearness, not_lt.mpr h]

theorem fifty_exact : (50.0 : ℚ) = 50 := by
  norm_num

theorem isNearer_iff {tone : ℚ} {best r : Rung ℚ} :
    isNearer tone best r = true ↔ r.nearness tone < best.nearness tone := by
  simp only [isNearer, distance_eq_abs, fifty_exact, nearness, Prod.Lex.toLex_lt_toLex,
    Bool.or_eq_true, Bool.and_eq_true, decide_eq_true_eq]
  refine or_congr_right ?_
  rw [← le_antisymm_iff, and_assoc]
  refine and_congr_right fun _ => ?_
  split
  · next hdark => simp [hdark]
  · next hlight => simp [hlight]

end Rung

namespace Ladder

variable {l : Ladder ℚ} {r : Rung ℚ} {tone : ℚ} {mode : Option PaletteMode}

theorem narrowest?_eq_argmin (rungs : List (Rung ℚ)) :
    narrowest? rungs = rungs.argmin Rung.width := by
  refine congrArg (fun step => rungs.foldl step none) (funext₂ fun best? r => ?_)
  cases best? with
  | none => rfl
  | some best => exact apply_ite some ..

theorem nearest?_eq_argmin (l : Ladder ℚ) (tone : ℚ) :
    l.nearest? tone = l.rungs.argmin (Rung.nearness tone) := by
  have hnear : (l.rungs.filter fun r => isFinite (distance tone r.midTone)) = l.rungs :=
    List.filter_eq_self.mpr fun r _ => isFinite_exact _
  rw [nearest?, hnear]
  refine congrArg (fun step => l.rungs.foldl step none) (funext₂ fun best? r => ?_)
  cases best? with
  | none => rfl
  | some best =>
      simp only [Rung.isNearer_iff]
      exact apply_ite some ..

/-- The rung that a tone belongs to: of the rungs whose bands hold it, the first of the narrowest;
if there is none, the first of those whose middles are nearest, for a dark tone the darkest of
these. -/
structure Suits (l : Ladder ℚ) (tone : ℚ) (r : Rung ℚ) : Prop where
  held : (∃ x ∈ l.rungs, x.holds tone = true) →
    FirstLeast Rung.width (l.rungs.filter fun x => x.holds tone) r
  dark : (∀ x ∈ l.rungs, x.holds tone = false) → tone < 50 →
    FirstLeast (fun x => toLex (|tone - x.midTone|, x.midTone)) l.rungs r
  light : (∀ x ∈ l.rungs, x.holds tone = false) → 50 ≤ tone →
    FirstLeast (fun x => |tone - x.midTone|) l.rungs r

theorem Suits.mem (h : l.Suits tone r) : r ∈ l.rungs := by
  by_cases hheld : ∃ x ∈ l.rungs, x.holds tone = true
  · exact (List.mem_filter.mp (h.held hheld).mem).1
  · have hfree : ∀ x ∈ l.rungs, x.holds tone = false := by simpa using hheld
    rcases lt_or_ge tone 50 with htone | htone
    · exact (h.dark hfree htone).mem
    · exact (h.light hfree htone).mem

theorem suits_of_placeOf? (h : l.placeOf? tone = some r) : l.Suits tone r := by
  unfold placeOf? at h
  split at h
  · next hnone =>
      have hfree : ∀ x ∈ l.rungs, x.holds tone = false := by
        simpa [List.filter_eq_nil_iff] using hnone
      rw [nearest?_eq_argmin] at h
      have hfirst := firstLeast_of_argmin h
      refine ⟨?_, fun _ hdark => ?_, fun _ hlight => ?_⟩
      · rintro ⟨x, hx, hheld⟩
        simp [hfree x hx] at hheld
      · rwa [Rung.nearness_of_dark hdark] at hfirst
      · rw [Rung.nearness_of_light hlight] at hfirst
        refine hfirst.congr (fun a b hab => ?_) fun a b hab => ?_
        · simpa [Prod.Lex.toLex_lt_toLex] using hab
        · simpa [Prod.Lex.toLex_le_toLex, ← le_iff_lt_or_eq] using hab
  · next hsome =>
      rw [narrowest?_eq_argmin] at h
      obtain ⟨x, hx⟩ := List.exists_mem_of_ne_nil _ hsome
      obtain ⟨hlisted, hheld⟩ := List.mem_filter.mp hx
      have hnot : ¬ ∀ x ∈ l.rungs, x.holds tone = false := fun hfree => by
        simp [hfree x hlisted] at hheld
      exact ⟨fun _ => firstLeast_of_argmin h, fun hfree => absurd hfree hnot,
        fun hfree => absurd hfree hnot⟩

/-! ### The palette of a seed -/

theorem exists_baseChroma_of_ne (hr : r.chromaShare ≠ 0) (chroma : ℚ) :
    ∃ base, l.baseChroma chroma r = .ok base := by
  unfold baseChroma
  split
  · exact ⟨chroma, rfl⟩
  · have hshare : ¬ (r.chromaShare ≤ 0.0 ∧ 0.0 ≤ r.chromaShare) := by
      rwa [zero_exact, ← le_antisymm_iff]
    rw [if_neg hshare]
    exact ⟨_, rfl⟩

/-- A palette has one colour for each rung, in the order of the ladder. -/
theorem exists_palette (hrungs : l.rungs ≠ []) (hsteps : (l.rungs.map Rung.step).Nodup)
    (hchroma : ∀ r ∈ l.rungs, r.chromaShare ≠ 0) {pinned? : Option (Rung ℚ)}
    (hpinned : l.pinned? mode = .ok pinned?) (space : ColorSpace ℚ) (seed : Color)
    (autoAdjust : Bool) :
    ∃ adjusted placement chroma, l.adjusted space seed autoAdjust mode = .ok adjusted ∧
      l.place (space.of adjusted) mode = .ok placement ∧ placement.base ∈ l.rungs ∧
      l.palette space seed autoAdjust mode = .ok ⟨adjusted, l.rungs.map fun r =>
        (r.step, l.colorOf space adjusted (adjusted != seed) placement chroma r)⟩ := by
  obtain ⟨adjusted, hadjusted⟩ := exists_adjusted space l hpinned seed autoAdjust
  obtain ⟨placement, hplace, hplaces⟩ := exists_place hpinned hrungs (space.of adjusted)
  obtain ⟨chroma, hbase⟩ := exists_baseChroma_of_ne (l := l) (hchroma _ hplaces.base_mem)
    (space.of adjusted).chroma
  refine ⟨adjusted, placement, chroma, hadjusted, hplace, hplaces.base_mem, ?_⟩
  refine (l.palette_eq_ok space).mpr ⟨adjusted, placement, chroma, hadjusted, hplace, hbase, ?_⟩
  rw [Palette.foldl_setStep_of_nodup (by simpa using hsteps), List.nil_append]

/-- A seed that is not moved is the colour of the rung it stands on. -/
theorem color?_of_kept (hsteps : (l.rungs.map Rung.step).Nodup) (space : ColorSpace ℚ)
    (seed : Color) {placement : Placement ℚ} (chroma : ℚ) (hbase : placement.base ∈ l.rungs) :
    Palette.color? ⟨seed, l.rungs.map fun r =>
      (r.step, l.colorOf space seed (seed != seed) placement chroma r)⟩ placement.base.step =
        some seed := by
  rw [Palette.color?, Entries.lookup_eq_some_iff (by simpa [Function.comp_def] using hsteps)]
  exact List.mem_map.mpr ⟨placement.base, hbase, by simp [colorOf, keepsSeed]⟩

theorem missingKey_of_pinned?_eq_error {f : Fault} (h : l.pinned? mode = .error f) :
    l.policy = .pinned ∧ ∃ step, f = .missingKey (.int step) := by
  have hrung : ∀ {step : Int}, some <$> l.rung step = .error f → f = .missingKey (.int step) := by
    intro step hmap
    cases hfind : l.rungs.find? fun r => r.step == step with
    | some r => simp [rung, hfind] at hmap
    | none => simpa [rung, hfind, eq_comm] using hmap
  unfold pinned? at h
  split at h
  · next hpolicy => exact ⟨hpolicy, 600, hrung h⟩
  · next hpolicy => exact ⟨hpolicy, 400, hrung h⟩
  · cases h

/-- A ladder that lacks the rung of a page mode makes no palettes in that mode, and says so. -/
theorem palette_eq_error {f : Fault} (h : l.pinned? mode = .error f) (space : ColorSpace ℚ)
    (seed : Color) (autoAdjust : Bool) : l.palette space seed autoAdjust mode = .error f := by
  have hadjust : ∀ seed, l.adjustSeed space seed mode = .error f := fun seed => by
    simp only [adjustSeed, (missingKey_of_pinned?_eq_error h).1, h]
    rfl
  have hplace : ∀ seed, l.place seed mode = .error f := fun seed => by
    simp only [place, exactRung?, h]
    rfl
  cases autoAdjust with
  | true => simp only [palette, if_true, hadjust]; rfl
  | false => simp only [palette, Bool.false_eq_true, if_false, hplace]; rfl

/-- Every tone has a rung of the ladder, and the one that suits it. So no seed is left without a
place: a palette has one colour for each rung, in order, and a seed that is not moved is itself the
colour of the pinned rung, if that holds its tone, and else of the rung its tone belongs to. -/
theorem seed_placed (l : Ladder ℚ) (hrungs : l.rungs ≠ [])
    (hsteps : (l.rungs.map Rung.step).Nodup) (hchroma : ∀ r ∈ l.rungs, r.chromaShare ≠ 0) :
    (∀ tone, ∃ r ∈ l.rungs, l.placeOf? tone = some r ∧ l.Suits tone r) ∧
    ∀ (space : ColorSpace ℚ) (text : String) (autoAdjust : Bool) (mode : Option PaletteMode),
      let made := Color.ofText text >>= fun seed => l.palette space seed autoAdjust mode
      (∀ hex, made ≠ .error (.unplacedSeed hex)) ∧
      ∀ seed pinned?, Color.ofText text = .ok seed → l.pinned? mode = .ok pinned? →
        ∃ p, made = .ok p ∧ p.steps.map Prod.fst = l.rungs.map Rung.step ∧
          ((autoAdjust = true →
              Hct.color <$> l.adjustSeed space (space.of seed) mode = .ok seed) →
            (∀ r, pinned? = some r → r.holds (space.of seed).tone = true →
              p.color? r.step = some seed) ∧
            ((∀ r, pinned? = some r → r.holds (space.of seed).tone = false) →
              ∀ r, l.placeOf? (space.of seed).tone = some r → p.color? r.step = some seed)) := by
  refine ⟨fun tone => ?_, fun space text autoAdjust mode => ⟨fun hex => ?_, ?_⟩⟩
  · obtain ⟨r, hr, -⟩ := exists_placeOf? hrungs none tone
    have hsuits := suits_of_placeOf? hr
    exact ⟨r, hsuits.mem, hr, hsuits⟩
  · intro hfail
    rcases hread : Color.ofText text with f | seed
    · obtain ⟨cause, rfl⟩ := Color.invalidColor_of_ofText_eq_error hread
      rw [hread] at hfail
      cases hfail
    · rw [hread] at hfail
      rcases hpinned : l.pinned? mode with f | pinned?
      · obtain ⟨-, step, rfl⟩ := missingKey_of_pinned?_eq_error hpinned
        cases (palette_eq_error hpinned space seed autoAdjust).symm.trans hfail
      · obtain ⟨adjusted, placement, chroma, -, -, -, hpalette⟩ :=
          exists_palette hrungs hsteps hchroma hpinned space seed autoAdjust
        cases hpalette.symm.trans hfail
  · intro seed pinned? hseed hpinned
    obtain ⟨adjusted, placement, chroma, hadjusted, hplace, hbase, hpalette⟩ :=
      exists_palette hrungs hsteps hchroma hpinned space seed autoAdjust
    refine ⟨_, Outcome.bind_eq_ok.mpr ⟨seed, hseed, hpalette⟩, by simp [Function.comp_def], ?_⟩
    intro hkept
    -- an unmoved seed is placed by its own tone
    obtain rfl : adjusted = seed := by
      cases autoAdjust with
      | true => exact Except.ok.inj (hadjusted.symm.trans (hkept rfl))
      | false => exact (Except.ok.inj hadjusted).symm
    have hcolor := color?_of_kept hsteps space adjusted chroma hbase
    rw [place_of_pinned? hpinned] at hplace
    refine ⟨?_, ?_⟩
    · rintro r rfl hheld
      rw [Option.filter_some, if_pos hheld] at hplace
      obtain rfl := Except.ok.inj hplace
      exact hcolor
    · intro hnot r hr
      have hnone : pinned?.filter (fun r => r.holds (space.of adjusted).tone) = none := by
        rw [Option.filter_eq_none_iff]
        intro q hq
        simp [hnot q hq]
      rw [hnone, hr] at hplace
      obtain rfl := Except.ok.inj hplace
      exact hcolor

/-- Bands that overlap, touch and leave gaps, and a rung whose share of chroma is below none. -/
def terraced : Ladder ℚ where
  rungs := [⟨50, 1, 90, 100⟩, ⟨400, 1, 60, 80⟩, ⟨600, -1, 40, 60⟩, ⟨700, 2, 40, 50⟩,
    ⟨900, 1, 10, 20⟩]
  maxChroma := 100
  policy := .pinned

theorem seed_placed_terraced :
    (∃ p, (Color.ofText "#2d0a00" >>= fun c => terraced.palette .redTones c false (some .light)) =
        .ok p ∧ p.steps.map Prod.fst = [50, 400, 600, 700, 900] ∧
      p.color? 600 = some ⟨45, 10, 0⟩) ∧
    ∃ p, (Color.ofText "#1e0a00" >>= fun c => terraced.palette .redTones c false (some .light)) =
        .ok p ∧ p.steps.map Prod.fst = [50, 400, 600, 700, 900] ∧
      p.color? 900 = some ⟨30, 10, 0⟩ := by
  obtain ⟨hplaces, hpalettes⟩ := seed_placed terraced (by decide +kernel) (by decide +kernel)
    (by decide +kernel)
  constructor
  · obtain ⟨p, hp, hnames, hkept⟩ := (hpalettes .redTones "#2d0a00" false (some .light)).2
      ⟨45, 10, 0⟩ (some ⟨600, -1, 40, 60⟩) rfl rfl
    exact ⟨p, hp, hnames, (hkept nofun).1 _ rfl (by decide +kernel)⟩
  · obtain ⟨p, hp, hnames, hkept⟩ := (hpalettes .redTones "#1e0a00" false (some .light)).2
      ⟨30, 10, 0⟩ (some ⟨600, -1, 40, 60⟩) rfl rfl
    have hfree : ∀ r, some (⟨600, -1, 40, 60⟩ : Rung ℚ) = some r → r.holds 30 = false := by
      rintro r ⟨⟩
      decide +kernel
    obtain ⟨r, -, hr, -⟩ := hplaces 30
    have hstep : (terraced.placeOf? 30).map Rung.step = some 900 := by decide +kernel
    rw [hr, Option.map_some, Option.some_inj] at hstep
    exact ⟨p, hp, hnames, hstep ▸ (hkept nofun).2 hfree r hr⟩

end Ladder

end DesignTokens
