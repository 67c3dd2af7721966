import DesignTokens.Proofs.Build.Multi
import DesignTokens.Proofs.Palette.Expansion

/-!
Themes to which the tokens of their palettes are added. What a theme declares itself stays in its
place, and once the tokens are added, adding those of other colours adds nothing. A build generates
palettes in its own way and declares the tokens that a theme lacks; a theme to which they were added
lacks none, so a build does not depend on its palettes.
-/

namespace DesignTokens

variable {N : Type} [Add N] [Sub N] [Mul N] [Div N] [LE N] [LT N] [DecidableLE N] [DecidableLT N]
  [OfScientific N] {space : ColorSpace N}

/-! ### Adding the tokens of palettes -/

namespace Theme

variable {t full : Theme} {config config' : Config} {generated generated' : OrdMap Value}

theorem keys_paletteTokens (h : t.paletteTokens space config = .ok generated)
    (h' : t.paletteTokens space config' = .ok generated') : generated'.keys = generated.keys := by
  unfold paletteTokens at h h'
  cases hpalettes : t.palettes with
  | none =>
      rw [hpalettes] at h h'
      rw [← Except.ok.inj h, ← Except.ok.inj h']
  | some palettes =>
      rw [hpalettes] at h h'
      rw [Palette.keys_tokens h, Palette.keys_tokens h']

theorem exists_paletteTokens (hspace : space.IsPlaceable)
    (h : t.paletteTokens space config = .ok generated) (config' : Config) :
    ∃ generated', t.paletteTokens space config' = .ok generated' := by
  unfold paletteTokens at h ⊢
  split at h
  · exact ⟨.empty, rfl⟩
  · exact Palette.exists_tokens hspace h config'

/-- Generated values as assignments. -/
def assignments (generated : OrdMap Value) : List (String × Assignment) :=
  generated.entries.map fun e => (e.1, .ofValue e.2)

theorem keys_assignments (generated : OrdMap Value) :
    (assignments generated).map Prod.fst = generated.keys := by
  simp [assignments, OrdMap.keys, Function.comp_def]

theorem withPaletteTokens_eq_ok : t.withPaletteTokens space config = .ok full ↔
    ∃ generated, t.paletteTokens space config = .ok generated ∧
      full = { t with tokens :=
        (assignments generated).foldl (fun tokens e => tokens.insertNew e.1 e.2) t.tokens } := by
  simp only [withPaletteTokens, assignments, List.foldl_map, Outcome.bind_eq_ok,
    Outcome.pure_eq_ok, eq_comm (a := full)]

theorem mem_keys_withPaletteTokens (h : t.withPaletteTokens space config = .ok full)
    (hgenerated : t.paletteTokens space config' = .ok generated) {token : String}
    (htoken : token ∈ generated.keys) : token ∈ full.tokens.keys := by
  obtain ⟨own, hown, rfl⟩ := withPaletteTokens_eq_ok.mp h
  rw [keys_paletteTokens hown hgenerated, ← keys_assignments] at htoken
  exact (OrdMap.mem_keys_foldl_insertNew _).mpr (.inr htoken)

/-- Palettes of texts add texts. -/
theorem text_of_paletteTokens
    (hpalettes : ∀ palettes, t.palettes = some palettes → ∀ v ∈ palettes.values, Palette.IsTyped v)
    (h : t.paletteTokens space config = .ok generated) {token : String} {v : Value}
    (hv : generated.get? token = some v) : ∃ s, v = .text s := by
  unfold paletteTokens at h
  split at h
  · obtain rfl := Except.ok.inj h
    cases hv
  · next palettes hfound =>
      refine Palette.forall_tokens (P := fun v => ∃ s, v = .text s) (fun e he steps hsteps => ?_)
        h hv
      refine Palette.allRungs_expand (fun s => ⟨s, rfl⟩) (fun fields hfields w hw _ => ?_) hsteps
      obtain ⟨s, hs⟩ | ⟨fields', hfields', htexts⟩ :=
        hpalettes palettes hfound e.2 (List.mem_map_of_mem he)
      · rw [hs] at hfields
        cases hfields
      · obtain rfl := Option.some.inj (hfields'.symm.trans hfields)
        exact htexts w hw

theorem plain_withPaletteTokens (hplain : PlainTokens t.tokens)
    (hpalettes : ∀ palettes, t.palettes = some palettes → ∀ v ∈ palettes.values, Palette.IsTyped v)
    (h : t.withPaletteTokens space config = .ok full) : PlainTokens full.tokens := by
  obtain ⟨generated, hgenerated, rfl⟩ := withPaletteTokens_eq_ok.mp h
  intro token a ha
  rw [OrdMap.get?_foldl_insertNew, Option.or_eq_some_iff] at ha
  obtain ha | ⟨-, ha⟩ := ha
  · exact hplain token a ha
  · have hnodup : ((assignments generated).map Prod.fst).Nodup :=
      keys_assignments generated ▸ generated.nodup
    obtain ⟨⟨key, v⟩, he, heq⟩ := List.mem_map.mp ((Entries.lookup_eq_some_iff hnodup).mp ha)
    obtain ⟨rfl, rfl⟩ := Prod.ext_iff.mp heq
    obtain ⟨s, rfl⟩ := text_of_paletteTokens hpalettes hgenerated (OrdMap.mem_entries_iff.mp he)
    trivial

end Theme

/-! ### Builds that read no palettes -/

/-- Runs over items that pairwise have the same steps are the same. -/
theorem Outcome.foldlM_eq_of_forall₂ {α β γ ε : Type} {R : α → β → Prop} {f : γ → α → Except ε γ}
    {g : γ → β → Except ε γ} {xs : List α} {ys : List β} (h : List.Forall₂ R xs ys)
    (step : ∀ c x y, R x y → f c x = g c y) (c : γ) : xs.foldlM f c = ys.foldlM g c := by
  induction h generalizing c with
  | nil => rfl
  | cons hxy _ ih =>
      rw [List.foldlM_cons, List.foldlM_cons, step c _ _ hxy]
      exact congrArg _ (funext ih)

namespace Theme

def withoutPalettes (t : Theme) : Theme := { t with palettes := none }

theorem resolve_withoutPalettes (t : Theme) (base : Option Theme) (options : ResolveOptions) :
    t.withoutPalettes.resolve base options = t.resolve base options := by
  cases base <;> rfl

theorem project_withoutPalettes (t : Theme) (r : Resolution) (p : Projection)
    (base : Option Theme) : r.project t.withoutPalettes p base = r.project t p base := by
  cases base <;> rfl

theorem within_withoutPalettes (t : Theme) (c : Context) (base : Option Theme)
    (changed : Option Resolution) : t.withoutPalettes.within c base changed =
      withoutPalettes <$> t.within c base changed := by
  cases base with
  | none =>
      rw [within, within, map_bind]
      rfl
  | some b =>
      rw [within, within, map_bind]
      refine bind_congr fun own => ?_
      change (b.counterpart? c >>= _) = withoutPalettes <$> (b.counterpart? c >>= _)
      rw [map_bind]
      refine bind_congr fun counterpart? => ?_
      cases changed with
      | none => rfl
      | some changed =>
          cases counterpart? with
          | none => rfl
          | some baseContext =>
              change (b.collapseAll c _ >>= _) = withoutPalettes <$> (b.collapseAll c _ >>= _)
              rw [map_bind]
              rfl

theorem resolveIn_withoutPalettes (t : Theme) (c : Context) (base : Option Theme)
    (changed : Option Resolution) (options : ResolveOptions) :
    t.withoutPalettes.resolveIn c base changed options =
      t.resolveIn c base changed options := by
  rw [resolveIn, within_withoutPalettes, bind_map_left]
  exact bind_congr fun inside => resolve_withoutPalettes inside base options

theorem contextValues_withoutPalettes (t : Theme) (c : Context) (base : Option Theme)
    (changed : Option Resolution) (options : ResolveOptions) (p : Projection) :
    t.withoutPalettes.contextValues c base changed options p =
      t.contextValues c base changed options p := by
  rw [contextValues, resolveIn_withoutPalettes]
  exact bind_congr fun r => project_withoutPalettes t r p base

end Theme

namespace SingleBuild

def withoutPalettes (b : SingleBuild) : SingleBuild := { b with theme := b.theme.withoutPalettes }

theorem valuesIn_withoutPalettes (b : SingleBuild) : b.withoutPalettes.valuesIn = b.valuesIn := by
  funext c p
  exact b.theme.contextValues_withoutPalettes c b.base b.changed b.options p

theorem steps_withoutPalettes (b : SingleBuild) : b.withoutPalettes.addState = b.addState ∧
    b.withoutPalettes.addContext = b.addContext ∧
    b.withoutPalettes.addContextState = b.addContextState := by
  refine ⟨?_, ?_, ?_⟩
  · funext root s state
    simp only [addState, withoutPalettes, Theme.project_withoutPalettes]
    rfl
  · funext root s c
    simp only [addContext, valuesIn_withoutPalettes]
    rfl
  · funext root s state c
    simp only [addContextState, valuesIn_withoutPalettes]
    rfl

/-- The steps of a build read no palettes. -/
theorem steps_eq {b b' : SingleBuild} (h : b.withoutPalettes = b'.withoutPalettes) :
    b.addState = b'.addState ∧ b.addContext = b'.addContext ∧
      b.addContextState = b'.addContextState := by
  obtain ⟨hstate, hcontext, hboth⟩ := b.steps_withoutPalettes
  obtain ⟨hstate', hcontext', hboth'⟩ := b'.steps_withoutPalettes
  rw [← hstate, ← hcontext, ← hboth, h]
  exact ⟨hstate', hcontext', hboth'⟩

end SingleBuild

namespace SecondaryBuild

def withoutPalettes (b : SecondaryBuild) : SecondaryBuild :=
  { b with primary := b.primary.withoutPalettes, theme := b.theme.withoutPalettes }

theorem valuesIn_withoutPalettes (b : SecondaryBuild) :
    b.withoutPalettes.valuesIn = b.valuesIn := by
  funext c p
  exact b.theme.contextValues_withoutPalettes c none none b.options p

theorem steps_withoutPalettes (b : SecondaryBuild) : b.withoutPalettes.addRoot = b.addRoot ∧
    b.withoutPalettes.addState = b.addState ∧ b.withoutPalettes.addContext = b.addContext ∧
    b.withoutPalettes.addContextState = b.addContextState := by
  refine ⟨rfl, ?_, ?_, ?_⟩
  · funext roots s state
    simp only [addState, withoutPalettes, Theme.project_withoutPalettes]
    rfl
  · funext roots s c
    simp only [addContext, valuesIn_withoutPalettes]
    rfl
  · funext roots s state c
    simp only [addContextState, valuesIn_withoutPalettes]
    rfl

theorem steps_eq {b b' : SecondaryBuild} (h : b.withoutPalettes = b'.withoutPalettes) :
    b.addRoot = b'.addRoot ∧ b.addState = b'.addState ∧ b.addContext = b'.addContext ∧
      b.addContextState = b'.addContextState := by
  obtain ⟨hroot, hstate, hcontext, hboth⟩ := b.steps_withoutPalettes
  obtain ⟨hroot', hstate', hcontext', hboth'⟩ := b'.steps_withoutPalettes
  rw [← hroot, ← hstate, ← hcontext, ← hboth, h]
  exact ⟨hroot', hstate', hcontext', hboth'⟩

end SecondaryBuild

namespace Theme

/-- Themes that differ in their palettes at most, and whose own rules declare the same. -/
structure SameBut (space : ColorSpace N) (options : ResolveOptions) (t u : Theme) : Prop where
  fields : u.withoutPalettes = t.withoutPalettes
  root : ∀ r, t.resolve none options = .ok r →
    u.rootValues space r none options = t.rootValues space r none options

namespace SameBut

variable {t u : Theme} {options : ResolveOptions} {maker : RuleMaker} {base : Option Theme}

theorem refl (t : Theme) : t.SameBut space options t := ⟨rfl, fun _ _ => rfl⟩

/-- What does not read palettes is the same for both. -/
theorem congr (h : t.SameBut space options u) {α : Type} (f : Theme → α)
    (hf : ∀ t : Theme, f t.withoutPalettes = f t) : f u = f t := by
  rw [← hf u, h.fields, hf]

theorem selector (h : t.SameBut space options u) : u.selector = t.selector :=
  h.congr Theme.selector fun _ => rfl

theorem optionalStates (h : t.SameBut space options u) : u.optionalStates = t.optionalStates :=
  h.congr Theme.optionalStates fun _ => rfl

theorem contexts (h : t.SameBut space options u) : u.contexts = t.contexts :=
  h.congr Theme.contexts fun _ => rfl

theorem rootValues (h : t.SameBut space options u) {r : Resolution}
    (hres : t.resolve base options = .ok r) :
    u.rootValues space r base options = t.rootValues space r base options := by
  cases base with
  | none => exact h.root r hres
  | some b =>
      exact h.congr (fun t => t.rootValues space r (some b) options) fun t => by
        rw [Theme.rootValues, project_withoutPalettes]
        rfl

theorem buildSingle (h : t.SameBut space options u) :
    buildSingle space maker u base options = buildSingle space maker t base options := by
  unfold DesignTokens.buildSingle
  rw [h.congr (·.resolve base options) (resolve_withoutPalettes · base options)]
  cases hres : t.resolve base options with
  | error f => rfl
  | ok r =>
      change (u.rootValues space r base options >>= _) = (t.rootValues space r base options >>= _)
      rw [h.rootValues hres]
      have hbuild : (⟨maker, u, base, options, r⟩ : SingleBuild).withoutPalettes =
          (⟨maker, t, base, options, r⟩ : SingleBuild).withoutPalettes := by
        simp [SingleBuild.withoutPalettes, h.fields]
      obtain ⟨hstate, hcontext, hboth⟩ := SingleBuild.steps_eq hbuild
      simp only [h.selector, h.optionalStates, h.contexts, hstate, hcontext, hboth]

theorem addSecondary {p q : Theme} (hp : p.SameBut space options q)
    (h : t.SameBut space options u) (s : Stylesheet) :
    addSecondary space maker q options s u = addSecondary space maker p options s t := by
  unfold DesignTokens.addSecondary
  rw [h.congr (·.resolve none options) (resolve_withoutPalettes · none options)]
  cases hres : t.resolve none options with
  | error f => rfl
  | ok r =>
      change (u.rootValues space r none options >>= _) = (t.rootValues space r none options >>= _)
      rw [h.rootValues hres]
      have hbuild : (⟨maker, q, u, options, r⟩ : SecondaryBuild).withoutPalettes =
          (⟨maker, p, t, options, r⟩ : SecondaryBuild).withoutPalettes := by
        simp [SecondaryBuild.withoutPalettes, hp.fields, h.fields]
      obtain ⟨hroot, hstate, hcontext, hboth⟩ := SecondaryBuild.steps_eq hbuild
      simp only [h.optionalStates, h.contexts, hroot, hstate, hcontext, hboth]

/-- Themes that are pairwise the same but for palettes make the same sheet. -/
theorem buildMulti {ts us : List Theme} (h : List.Forall₂ (SameBut space options) ts us) :
    buildMulti space maker us options = buildMulti space maker ts options := by
  have hglobal : ∀ {t u : Theme}, t.SameBut space options u → u.isGlobal = t.isGlobal :=
    fun h => h.congr Theme.isGlobal fun _ => rfl
  have hprimary : List.Forall₂ (SameBut space options) (ts.filter Theme.isGlobal)
      (us.filter Theme.isGlobal) :=
    List.rel_filter (fun t u htu => by simp [hglobal htu]) h
  have hsecondary : List.Forall₂ (SameBut space options) (ts.filter fun t => !t.isGlobal)
      (us.filter fun u => !u.isGlobal) :=
    List.rel_filter (fun t u htu => by simp [hglobal htu]) h
  have hids : (us.filter Theme.isGlobal).map Theme.id =
      (ts.filter Theme.isGlobal).map Theme.id := by
    rw [← List.forall₂_eq_eq_eq]
    exact List.rel_map (fun t u htu => htu.congr Theme.id fun _ => rfl) hprimary.flip
  unfold DesignTokens.buildMulti Cast.ofThemes
  generalize ts.filter Theme.isGlobal = ps at hprimary hids ⊢
  generalize us.filter Theme.isGlobal = qs at hprimary hids ⊢
  cases hprimary with
  | nil =>
      change us.foldlM _ _ = ts.foldlM _ _
      refine Outcome.foldlM_eq_of_forall₂ h.flip (fun s u t htu => ?_) _
      rw [SameBut.buildSingle htu]
  | cons hp hrest =>
      cases hrest with
      | nil =>
          change (DesignTokens.buildSingle space maker _ none options >>= _) =
            (DesignTokens.buildSingle space maker _ none options >>= _)
          rw [hp.buildSingle]
          refine bind_congr fun s => ?_
          exact Outcome.foldlM_eq_of_forall₂ hsecondary.flip
            (fun s u t htu => addSecondary hp htu s) s
      | cons =>
          change ((Selector.fragmentTexts (List.map Theme.id _) >>= _) >>= _) =
            ((Selector.fragmentTexts (List.map Theme.id _) >>= _) >>= _)
          rw [hids]

end SameBut

/-! ### Themes with the tokens of their palettes -/

variable {t full : Theme} {config : Config}

/-- At the default states every token has a value. -/
theorem mem_keys_project {options : ResolveOptions} {r : Resolution} {values : Projected}
    (hplain : PlainTokens t.tokens) (hres : t.resolve none options = .ok r)
    (h : r.project t .defaults = .ok values) {token : String} (htoken : token ∈ t.tokens.keys) :
    token ∈ values.keys := by
  have hfits : r.Fits t := fits_of_resolve hplain hres
  obtain ⟨resolved, hget⟩ := OrdMap.mem_keys_iff.mp ((mem_keys_resolve hres).mpr htoken)
  obtain ⟨state, hstate⟩ := Resolution.stateFor_defaults h hget hfits
  obtain ⟨f, rfl, htext⟩ := hfits.states token resolved hget
  obtain ⟨hvalue, -⟩ := Resolution.get?_project h hget htext
  rw [hstate, Option.map_some] at hvalue
  exact OrdMap.mem_keys_of_get? hvalue

/-- The own rule of a theme that has the tokens of its palettes does not declare them anew. -/
theorem sameBut_withoutPalettes (hplain : PlainTokens full.tokens) {generated : OrdMap Value}
    (hgenerated : full.paletteTokens space = .ok generated)
    (hmem : ∀ token ∈ generated.keys, token ∈ full.tokens.keys) (options : ResolveOptions) :
    full.SameBut space options full.withoutPalettes where
  fields := rfl
  root r hres := by
    unfold rootValues
    rw [project_withoutPalettes]
    cases hvalues : r.project full .defaults with
    | error f => rfl
    | ok values =>
        have hadded : full.withPaletteValues space options values = .ok values := by
          unfold withPaletteValues
          split
          · rw [hgenerated]
            refine congrArg Except.ok (OrdMap.foldl_insertNew_of_mem fun e he => ?_)
            exact mem_keys_project hplain hres hvalues (hmem e.1 (List.mem_map_of_mem he))
          · rfl
        have hbare : full.withoutPalettes.withPaletteValues space options values = .ok values := by
          unfold withPaletteValues
          split <;> rfl
        exact hbare.trans hadded.symm

/-- Adding the tokens of a theme's palettes leaves what the theme declares in its place and puts
what it lacks at the end. Adding them once more, generated in any way, adds nothing. A build of the
theme, alone, on top of a base or with other themes, is then the build of the theme without
palettes, if the build can generate them; and it can if every tone has a rung. -/
theorem expanded_once (t full : Theme) (config : Config)
    (h : t.withPaletteTokens space config = .ok full) (hplain : PlainTokens t.tokens)
    (hpalettes : ∀ palettes, t.palettes = some palettes →
      ∀ v ∈ palettes.values, Palette.IsTyped v) :
    (∃ generated, t.paletteTokens space config = .ok generated ∧
      full = { t with tokens := full.tokens } ∧
      full.tokens.entries = t.tokens.entries ++
        (generated.entries.filter fun e => !t.tokens.contains e.1).map
          fun e => (e.1, .ofValue e.2)) ∧
    (∀ config' generated, t.paletteTokens space config' = .ok generated →
      full.withPaletteTokens space config' = .ok full) ∧
    (space.IsPlaceable → ∃ generated, t.paletteTokens space = .ok generated) ∧
    ((∃ generated, t.paletteTokens space = .ok generated) → ∀ maker options,
      (∀ base, buildSingle space maker full base options =
        buildSingle space maker full.withoutPalettes base options) ∧
      ∀ before after, buildMulti space maker (before ++ full :: after) options =
        buildMulti space maker (before ++ full.withoutPalettes :: after) options) := by
  obtain ⟨own, hown, hfull⟩ := withPaletteTokens_eq_ok.mp h
  have hsame : ∀ config, full.paletteTokens space config = t.paletteTokens space config :=
    fun config => by rw [hfull]; rfl
  refine ⟨⟨own, hown, by rw [hfull], ?_⟩, fun config' generated hgenerated => ?_,
    fun hspace => exists_paletteTokens hspace hown {}, ?_⟩
  · have hnodup : ((assignments own).map Prod.fst).Nodup := keys_assignments own ▸ own.nodup
    rw [hfull, OrdMap.entries_foldl_insertNew _ _ hnodup, assignments, List.filter_map]
    rfl
  · refine withPaletteTokens_eq_ok.mpr ⟨generated, (hsame config').trans hgenerated, ?_⟩
    rw [OrdMap.foldl_insertNew_of_mem fun e he => ?_]
    refine mem_keys_withPaletteTokens h hgenerated ?_
    rw [← keys_assignments]
    exact List.mem_map_of_mem he
  · rintro ⟨generated, hgenerated⟩ maker options
    have hbut : full.SameBut space options full.withoutPalettes :=
      sameBut_withoutPalettes (plain_withPaletteTokens hplain hpalettes h)
        ((hsame {}).trans hgenerated)
        (fun token htoken => mem_keys_withPaletteTokens h hgenerated htoken) options
    refine ⟨fun base => hbut.buildSingle.symm, fun before after => ?_⟩
    refine (SameBut.buildMulti ?_).symm
    have hrefl : ∀ ts : List Theme, List.Forall₂ (SameBut space options) ts ts :=
      fun ts => List.forall₂_same.mpr fun t _ => .refl t
    exact List.rel_append (hrefl before) (.cons hbut (hrefl after))

/-- A theme that declares one rung of a palette itself, for two states. -/
def tinted : Theme where
  id := "tinted"
  selector := ".t"
  tokens := .ofList [("ink", .text "\x7bcolorPrimary600\x7d"),
    ("colorPrimary50", .states (.ofList [("light", "white"), ("dark", "black")]))]
  modes := .ofList [("lighting", lighting)]
  bindings := .ofList [("colorPrimary50", "lighting")]
  palettes := some (.ofList [("primary", "#1e0a00"),
    ("neutral", .object [("100", "#eee"), ("seed", "#2d0a00")])])

theorem tinted_palettes : ∀ palettes, tinted.palettes = some palettes →
    ∀ v ∈ palettes.values, Palette.IsTyped v := by
  rintro palettes ⟨⟩
  refine List.forall_mem_cons.mpr ⟨.inl ⟨_, rfl⟩, List.forall_mem_singleton.mpr (.inr ⟨_, rfl, ?_⟩)⟩
  exact List.forall_mem_cons.mpr ⟨⟨_, rfl⟩, List.forall_mem_singleton.mpr ⟨_, rfl⟩⟩

theorem tinted_plain : PlainTokens tinted.tokens := by
  refine .of_entries (List.forall_mem_cons.mpr ⟨trivial, List.forall_mem_singleton.mpr ?_⟩)
  exact List.forall_mem_cons.mpr ⟨⟨_, rfl⟩, List.forall_mem_singleton.mpr ⟨_, rfl⟩⟩

theorem expanded_once_tinted : ∃ full,
    tinted.withPaletteTokens .redTones { paletteMode := some .light } = .ok full ∧
    full.withPaletteTokens .redTones { autoAdjust := .bool false } = .ok full ∧
    buildMulti .redTones panelMaker [site, full]
        { useVars := true, properties := panelMaker.registry.properties } =
      buildMulti .redTones panelMaker [site, full.withoutPalettes]
        { useVars := true, properties := panelMaker.registry.properties } := by
  obtain ⟨full, hfull⟩ : ∃ full,
      tinted.withPaletteTokens .redTones { paletteMode := some .light } = .ok full :=
    Outcome.exists_of_isOk (by decide +kernel)
  obtain ⟨generated, hgenerated⟩ : ∃ generated,
      tinted.paletteTokens .redTones { autoAdjust := .bool false } = .ok generated :=
    Outcome.exists_of_isOk (by decide +kernel)
  obtain ⟨-, hagain, hdefault, hbuild⟩ :=
    expanded_once tinted full { paletteMode := some .light } hfull tinted_plain tinted_palettes
  refine ⟨full, hfull, hagain _ generated hgenerated, ?_⟩
  exact (hbuild (hdefault (ColorSpace.isPlaceable_exact _)) panelMaker _).2 [site] []

end Theme

end DesignTokens
