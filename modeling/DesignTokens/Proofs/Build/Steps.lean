import DesignTokens.Proofs.Build.Values

/-!
The build of a theme as a run of steps, whatever its selectors are. A step makes the rule of one
place and adds it below the theme's own rule. Here both places of a context count, for any theme,
and two places may have one selector; what every step keeps holds of the sheet that is built.
-/

namespace DesignTokens

/-! ### All places -/

namespace Theme

/-- The places of all rules that are made for a theme, in order. Unlike in `places`, both places of
a context count for a theme at `:root`. -/
def allPlaces (t : Theme) : List Place :=
  [.root] ++ t.optionalStates.map .state ++
    t.contexts.values.flatMap (fun c => [.context c false, .context c true]) ++
    t.optionalStates.flatMap fun x => t.contexts.values.flatMap (contextStatePlaces x)

theorem mem_allPlaces {t : Theme} {q : Place} : q ∈ t.allPlaces ↔ q.IsOf t := by
  cases q with
  | root => simp [allPlaces, Place.IsOf]
  | state x => simp [allPlaces, contextStatePlaces, Place.IsOf]
  | context c on => cases on <;> simp [allPlaces, contextStatePlaces, Place.IsOf]
  | contextState x c on => cases on <;> simp [allPlaces, contextStatePlaces, Place.IsOf]

end Theme

variable {N : Type} [Add N] [Sub N] [Mul N] [Div N] [LE N] [LT N] [DecidableLE N] [DecidableLT N]
  [OfScientific N] {space : ColorSpace N}

namespace SingleBuild

variable {b : SingleBuild} {s s' : Stylesheet} {done : List Place}

/-- The number of the theme's own rule; none if that declares nothing. -/
def root? (space : ColorSpace N) (b : SingleBuild) : Option RuleId :=
  (({} : Stylesheet).add (b.rule space .root) []).2

/-- A sheet after some steps of a build. -/
inductive Steps (space : ColorSpace N) (b : SingleBuild) : List Place → Stylesheet → Prop
  | root : b.makeRule space .root = .ok (b.rule space .root) →
      Steps space b [.root] (({} : Stylesheet).add (b.rule space .root) []).1
  | place {done : List Place} {s : Stylesheet} (q : Place) (path : List (Option RuleId)) :
      Steps space b done s → q.IsOf b.theme → q ≠ .root →
      b.makeRule space q = .ok (b.rule space q) →
      Steps space b (done ++ [q]) (s.add (b.rule space q) (b.root? space :: path)).1

namespace Steps

theorem made (h : b.Steps space done s) :
    ∀ q ∈ done, b.makeRule space q = .ok (b.rule space q) := by
  induction h with
  | root hmade => exact List.forall_mem_singleton.mpr hmade
  | place q path _ _ _ hmade ih =>
      exact List.forall_mem_append.mpr ⟨ih, List.forall_mem_singleton.mpr hmade⟩

/-- One more rule is made and added. -/
theorem add (h : b.Steps space done s) {q : Place} (hq : q.IsOf b.theme) (hne : q ≠ .root)
    {values : Projected} {r : Rule} (hvalues : b.values space q = .ok values)
    (hr : b.maker.make (q.fragments b.theme) q.media values = .ok r)
    (path : List (Option RuleId)) :
    b.Steps space (done ++ [q]) (s.add r (b.root? space :: path)).1 := by
  have hmade : b.makeRule space q = .ok r := Outcome.bind_eq_ok.mpr ⟨values, hvalues, hr⟩
  obtain rfl := rule_eq hmade
  exact h.place q path hq hne hmade

theorem addState (h : b.Steps space done s) {x : OptionalState} (hx : x ∈ b.theme.optionalStates)
    (hs' : b.addState (b.root? space) s x = .ok s') : b.Steps space (done ++ [.state x]) s' := by
  simp only [SingleBuild.addState, Outcome.bind_eq_ok, Outcome.pure_eq_ok] at hs'
  obtain ⟨values, hvalues, r, hr, rfl⟩ := hs'
  exact h.add (q := .state x) hx Place.noConfusion hvalues hr []

theorem addContext (h : b.Steps space done s) {c : Context} (hc : c ∈ b.theme.contexts.values)
    (hs' : b.addContext (b.root? space) s c = .ok s') :
    b.Steps space (done ++ [.context c false, .context c true]) s' := by
  simp only [SingleBuild.addContext, Outcome.bind_eq_ok, Outcome.pure_eq_ok] at hs'
  obtain ⟨values, hvalues, r, hr, r', hr', rfl⟩ := hs'
  rw [List.append_cons]
  have hinside := h.add (q := .context c false) hc Place.noConfusion hvalues hr []
  exact hinside.add (q := .context c true) hc Place.noConfusion hvalues hr' []

theorem addContextState (h : b.Steps space done s) {x : OptionalState} {c : Context}
    (hx : x ∈ b.theme.optionalStates) (hc : c ∈ b.theme.contexts.values)
    (hs' : b.addContextState (b.root? space) s x c = .ok s') :
    b.Steps space (done ++ Theme.contextStatePlaces x c) s' := by
  simp only [SingleBuild.addContextState, Outcome.bind_eq_ok, Outcome.pure_eq_ok] at hs'
  obtain ⟨values, hvalues, inside?, -, state?, -, on?, -, r, hr, r', hr', rfl⟩ := hs'
  have hplaces : done ++ Theme.contextStatePlaces x c =
      done ++ [.contextState x c false] ++ [.contextState x c true] := by
    simp [Theme.contextStatePlaces]
  rw [hplaces]
  have hinside := h.add (q := .contextState x c false) ⟨hx, hc⟩ Place.noConfusion hvalues hr
    [state?, inside?]
  exact hinside.add (q := .contextState x c true) ⟨hx, hc⟩ Place.noConfusion hvalues hr'
    [state?, on?]

/-- A run over some items, each of which adds the rules of its places. -/
theorem foldlM (h : b.Steps space done s) {α : Type} {places : α → List Place}
    {f : Stylesheet → α → Except Fault Stylesheet} {xs : List α}
    (hstep : ∀ x ∈ xs, ∀ done s s', b.Steps space done s → f s x = .ok s' →
      b.Steps space (done ++ places x) s')
    (hs' : xs.foldlM f s = .ok s') : b.Steps space (done ++ xs.flatMap places) s' := by
  refine Outcome.foldlM_induction (fun ys s => b.Steps space (done ++ ys.flatMap places) s)
    (by simpa using h) ?_ hs'
  rintro ys x rest u u' rfl hu hu'
  rw [List.flatMap_append, List.flatMap_singleton, ← List.append_assoc]
  exact hstep x (by simp) _ u u' hu hu'

theorem addContextStates (h : b.Steps space done s) {x : OptionalState}
    (hx : x ∈ b.theme.optionalStates) (hs' : b.theme.contexts.values.foldlM
      (fun s c => b.addContextState (b.root? space) s x c) s = .ok s') :
    b.Steps space (done ++ b.theme.contexts.values.flatMap (Theme.contextStatePlaces x)) s' :=
  h.foldlM (fun _ hc _ _ _ hu => hu.addContextState hx hc) hs'

end Steps

/-! ### Steps that succeed -/

section Succeed

variable {q : Place} {x : OptionalState} {c : Context}
  (hmade : ∀ q : Place, q.IsOf b.theme → ∃ r, b.makeRule space q = .ok r)

include hmade

theorem exists_make (hq : q.IsOf b.theme) : ∃ values rule, b.values space q = .ok values ∧
    b.maker.make (q.fragments b.theme) q.media values = .ok rule := by
  obtain ⟨rule, hrule⟩ := hmade q hq
  obtain ⟨values, hvalues, hrule⟩ := Outcome.bind_eq_ok.mp hrule
  exact ⟨values, rule, hvalues, hrule⟩

theorem exists_find? (s : Stylesheet) (hq : q.IsOf b.theme) :
    ∃ found, b.maker.find? s (q.fragments b.theme) = .ok found := by
  obtain ⟨values, rule, -, hrule⟩ := exists_make hmade hq
  exact ⟨_, Outcome.bind_eq_ok.mpr ⟨_, (RuleMaker.make_selector hrule).1, rfl⟩⟩

theorem exists_addState (hx : x ∈ b.theme.optionalStates) (root : Option RuleId) (s : Stylesheet) :
    ∃ s', b.addState root s x = .ok s' := by
  obtain ⟨values, rule, hvalues, hrule⟩ := exists_make hmade (q := .state x) hx
  exact ⟨_, Outcome.bind_eq_ok.mpr ⟨values, hvalues, Outcome.bind_eq_ok.mpr ⟨rule, hrule, rfl⟩⟩⟩

/-- Both rules of a context declare the same values. -/
theorem exists_addContext (hc : c ∈ b.theme.contexts.values) (root : Option RuleId)
    (s : Stylesheet) : ∃ s', b.addContext root s c = .ok s' := by
  obtain ⟨values, rule, hvalues, hrule⟩ := exists_make hmade (q := .context c false) hc
  obtain ⟨values', rule', hvalues', hrule'⟩ := exists_make hmade (q := .context c true) hc
  obtain rfl := Except.ok.inj (hvalues.symm.trans hvalues')
  exact ⟨_, Outcome.bind_eq_ok.mpr ⟨values, hvalues, Outcome.bind_eq_ok.mpr ⟨rule, hrule,
    Outcome.bind_eq_ok.mpr ⟨rule', hrule', rfl⟩⟩⟩⟩

theorem exists_addContextState (hx : x ∈ b.theme.optionalStates)
    (hc : c ∈ b.theme.contexts.values) (root : Option RuleId) (s : Stylesheet) :
    ∃ s', b.addContextState root s x c = .ok s' := by
  obtain ⟨values, rule, hvalues, hrule⟩ :=
    exists_make hmade (q := .contextState x c false) ⟨hx, hc⟩
  obtain ⟨values', rule', hvalues', hrule'⟩ :=
    exists_make hmade (q := .contextState x c true) ⟨hx, hc⟩
  obtain rfl := Except.ok.inj (hvalues.symm.trans hvalues')
  obtain ⟨inside, hinside⟩ := exists_find? hmade s (q := .context c false) hc
  obtain ⟨state, hstate⟩ := exists_find? hmade s (q := .state x) hx
  obtain ⟨on, hon⟩ := exists_find? hmade s (q := .context c true) hc
  simp only [SingleBuild.addContextState, Outcome.bind_eq_ok, Outcome.pure_eq_ok]
  exact ⟨_, values, hvalues, inside, hinside, state, hstate, on, hon, rule, hrule, rule', hrule',
    rfl⟩

end Succeed

end SingleBuild

variable {maker : RuleMaker} {t : Theme} {base : Option Theme} {options : ResolveOptions}
  {s : Stylesheet}

open SingleBuild in
/-- A theme is built by steps over all of its places. -/
theorem exists_steps_of_buildSingle (h : buildSingle space maker t base options = .ok s) :
    ∃ resolution, t.resolve base options = .ok resolution ∧
      Steps space ⟨maker, t, base, options, resolution⟩ t.allPlaces s := by
  simp only [buildSingle, Outcome.bind_eq_ok] at h
  obtain ⟨resolution, hresolution, values, hvalues, r, hr, s₁, hs₁, s₂, hs₂, hs⟩ := h
  let b : SingleBuild := ⟨maker, t, base, options, resolution⟩
  have hmade : b.makeRule space .root = .ok r := Outcome.bind_eq_ok.mpr ⟨values, hvalues, hr⟩
  obtain rfl := rule_eq hmade
  have hroot : b.Steps space [.root] (({} : Stylesheet).add (b.rule space .root) []).1 :=
    .root hmade
  have hstates : b.Steps space ([.root] ++ t.optionalStates.flatMap fun x => [.state x]) s₁ :=
    hroot.foldlM (f := b.addState (b.root? space)) (fun x hx _ _ _ hu => hu.addState hx) hs₁
  have hcontexts := hstates.foldlM (f := b.addContext (b.root? space))
    (fun c hc _ _ _ hu => hu.addContext hc) hs₂
  have hall := hcontexts.foldlM
    (f := fun s x =>
      t.contexts.values.foldlM (fun s c => b.addContextState (b.root? space) s x c) s)
    (fun x hx _ _ _ hu => hu.addContextStates hx) hs
  refine ⟨resolution, hresolution, ?_⟩
  rwa [Theme.allPlaces, List.map_eq_flatMap]

open SingleBuild in
/-- A theme can be built just if it resolves and the rules of all its places can be made. -/
theorem exists_buildSingle_iff : (∃ s, buildSingle space maker t base options = .ok s) ↔
    ∃ resolution, t.resolve base options = .ok resolution ∧ ∀ q : Place, q.IsOf t →
      ∃ r, makeRule space ⟨maker, t, base, options, resolution⟩ q = .ok r := by
  constructor
  · rintro ⟨s, hs⟩
    obtain ⟨resolution, hresolution, hsteps⟩ := exists_steps_of_buildSingle hs
    exact ⟨resolution, hresolution, fun q hq => ⟨_, hsteps.made q (Theme.mem_allPlaces.mpr hq)⟩⟩
  · rintro ⟨resolution, hresolution, hmade⟩
    let b : SingleBuild := ⟨maker, t, base, options, resolution⟩
    replace hmade : ∀ q : Place, q.IsOf b.theme → ∃ r, b.makeRule space q = .ok r := hmade
    obtain ⟨values, rule, hvalues, hrule⟩ := exists_make hmade (q := .root) trivial
    let start := ({} : Stylesheet).add rule []
    -- all steps succeed on any sheet, so the runs do
    obtain ⟨s₁, hs₁⟩ := Outcome.exists_foldlM_of_forall start.1
      fun x hx => exists_addState hmade hx start.2
    obtain ⟨s₂, hs₂⟩ := Outcome.exists_foldlM_of_forall s₁
      fun c hc => exists_addContext hmade hc start.2
    obtain ⟨s₃, hs₃⟩ := Outcome.exists_foldlM_of_forall s₂ fun x hx s =>
      Outcome.exists_foldlM_of_forall s fun c hc => exists_addContextState hmade hx hc start.2
    refine ⟨s₃, ?_⟩
    simp only [buildSingle, Outcome.bind_eq_ok]
    exact ⟨resolution, hresolution, values, hvalues, rule, hrule, s₁, hs₁, s₂, hs₂, hs₃⟩

end DesignTokens
