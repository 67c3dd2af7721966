import DesignTokens.Proofs.Build.Buildable

/-!
Projections of what a theme resolves to, by itself or on top of a base, alone or inside a context.
The walks, the context's maps and the projection ask three different themes for the mode of a token;
they get the same answer, so a projection never meets a token of another shape than its mode has.
-/

namespace DesignTokens

/-! ### Tables in another order -/

namespace OrdMap

variable {α : Type} {eq : α → α → Bool} {m n : OrdMap α}

theorem exists_of_sameWith (h : m.sameWith eq n = true) {key : String} {a : α}
    (ha : m.get? key = some a) : ∃ b, n.get? key = some b ∧ eq a b = true := by
  obtain ⟨-, hall⟩ := Bool.and_eq_true_iff.mp h
  exact (Option.any_eq_true ..).mp (List.all_eq_true.mp hall (key, a) (mem_entries_iff.mpr ha))

/-- As many names, all of them found, are all names. -/
theorem mem_keys_of_sameWith (h : m.sameWith eq n = true) {key : String} (hkey : key ∈ n.keys) :
    key ∈ m.keys := by
  have hsub : m.keys ⊆ n.keys := by
    intro key hkey
    obtain ⟨a, ha⟩ := mem_keys_iff.mp hkey
    obtain ⟨b, hb, -⟩ := exists_of_sameWith h ha
    exact mem_keys_of_get? hb
  have hsize : m.size = n.size := by
    simpa using (Bool.and_eq_true_iff.mp h).1
  have hlength : n.keys.length ≤ m.keys.length := by
    simpa [keys, size] using Nat.le_of_eq hsize.symm
  exact (List.subperm_of_subset m.nodup hsub).perm_of_length_le hlength |>.mem_iff.mpr hkey

end OrdMap

theorem Value.text?_of_alike {v w : Value} (h : v.alike w = true) : v.text? = w.text? := by
  cases v <;> cases w <;> simp_all [alike, sameLeaf, wholeNumber?, isNaN, text?]

/-! ### Results -/

namespace Theme

variable {t b : Theme} {base : Option Theme} {options : ResolveOptions} {r : Resolution}

/-- What a theme resolves to, by itself or inside a context. -/
inductive ResolvesTo (t : Theme) (base : Option Theme) (options : ResolveOptions) :
    Resolution → Prop where
  | alone {r : Resolution} (h : t.resolve base options = .ok r) : ResolvesTo t base options r
  | inside {r : Resolution} (c : Context) (changed : Option Resolution)
      (plain : PlainTokens c.tokens) (h : t.resolveIn c base changed options = .ok r) :
      ResolvesTo t base options r

theorem ResolvesTo.fits (h : t.ResolvesTo base options r) (hown : PlainTokens t.tokens)
    (hbase : ∀ b ∈ base, b.IsPlain) : r.Fits (base.getD t) := by
  cases h with
  | alone h => exact fits_of_resolve_onto hown (fun b hb => (hbase b hb).tokens) h
  | inside c changed plain h => exact fits_of_resolveIn_onto hown plain hbase h

/-! ### Themes with the same modes -/

/-- The same modes, and the same ones for all tokens, whatever the order of the tables. -/
structure SharesModes (b t : Theme) : Prop where
  modes : b.modes.sameWith Mode.same t.modes = true
  bindings : b.bindings.sameWith Value.alike t.bindings = true

/-- The name of the mode that a token is bound to. -/
def modeKey? (t : Theme) (token : String) : Option String := do
  let key ← (← t.bindings.get? token).text?
  if t.modes.contains key then some key else none

theorem modeOf_eq (t : Theme) (token : String) :
    t.modeOf token = (t.modeKey? token).bind t.modes.get? := by
  unfold modeOf modeKey?
  cases t.bindings.get? token with
  | none => rfl
  | some v =>
      cases hkey : v.text? with
      | none => simp [hkey]
      | some key =>
          cases hmode : t.modes.get? key with
          | none => simp [hkey, hmode, OrdMap.contains_eq_isSome]
          | some mode => simp [hkey, hmode, OrdMap.contains_eq_isSome]

namespace SharesModes

variable (h : b.SharesModes t)

include h

theorem get?_modes {key : String} {mode' : Mode} (hmode : b.modes.get? key = some mode') :
    ∃ mode, t.modes.get? key = some mode ∧ mode'.same mode = true :=
  OrdMap.exists_of_sameWith h.modes hmode

theorem exists_mode {key : String} {mode : Mode} (hmode : t.modes.get? key = some mode) :
    ∃ mode', b.modes.get? key = some mode' ∧ mode'.same mode = true := by
  obtain ⟨mode', hmode'⟩ := OrdMap.mem_keys_iff.mp
    (OrdMap.mem_keys_of_sameWith h.modes (OrdMap.mem_keys_of_get? hmode))
  obtain ⟨found, hfound, hsame⟩ := h.get?_modes hmode'
  obtain rfl := Option.some.inj (hmode.symm.trans hfound)
  exact ⟨mode', hmode', hsame⟩

theorem contains_modes (key : String) : b.modes.contains key = t.modes.contains key := by
  rw [Bool.eq_iff_iff, OrdMap.contains_iff, OrdMap.contains_iff]
  constructor
  · intro hkey
    obtain ⟨mode', hmode'⟩ := OrdMap.mem_keys_iff.mp hkey
    obtain ⟨mode, hmode, -⟩ := h.get?_modes hmode'
    exact OrdMap.mem_keys_of_get? hmode
  · exact OrdMap.mem_keys_of_sameWith h.modes

theorem modeKey?_eq (token : String) : b.modeKey? token = t.modeKey? token := by
  have htext : (b.bindings.get? token).bind Value.text? =
      (t.bindings.get? token).bind Value.text? := by
    cases hb : b.bindings.get? token with
    | none =>
        have hnone : t.bindings.get? token = none := by
          rw [OrdMap.get?_eq_none_iff] at hb ⊢
          exact fun htoken => hb (OrdMap.mem_keys_of_sameWith h.bindings htoken)
        rw [hnone]
    | some v =>
        obtain ⟨w, hw, halike⟩ := OrdMap.exists_of_sameWith h.bindings hb
        rw [hw, Option.bind_some, Option.bind_some, Value.text?_of_alike halike]
  have hbind : ∀ u : Theme, u.modeKey? token = ((u.bindings.get? token).bind Value.text?).bind
      fun key => if u.modes.contains key then some key else none := by
    intro u
    simp [modeKey?, Option.bind_assoc]
  rw [hbind b, hbind t, htext]
  simp only [h.contains_modes]

theorem modesUnderIds (hids : t.ModesUnderIds) : b.ModesUnderIds := by
  intro key mode' hmode'
  obtain ⟨mode, hmode, hsame⟩ := h.get?_modes hmode'
  have htext := Value.text?_of_alike (Bool.and_eq_true_iff.mp hsame).1
  rw [hids key mode hmode] at htext
  cases hid : mode'.id <;> simp_all [Value.text?]

end SharesModes

end Theme

namespace Mode

variable {mode mode' : Mode} {state : String}

theorem mem_states_of_same (h : mode'.same mode = true) (hstate : state ∈ mode.states.keys) :
    state ∈ mode'.states.keys :=
  OrdMap.mem_keys_of_sameWith (Bool.and_eq_true_iff.mp h).2 hstate

/-- Which state is the first default one may depend on the order, but not whether there is one. -/
theorem exists_default_of_same (h : mode'.same mode = true)
    (hdefault : mode.defaultState? = some state) : ∃ state', mode'.defaultState? = some state' := by
  have hstates := (Bool.and_eq_true_iff.mp h).2
  obtain ⟨⟨name, s⟩, hfind, rfl⟩ := Option.map_eq_some_iff.mp hdefault
  have hs : mode.states.get? name = some s :=
    OrdMap.mem_entries_iff.mp (List.mem_of_find?_eq_some hfind)
  have hmarked : s.isDefault = true := by simpa using List.find?_some hfind
  obtain ⟨s', hs'⟩ := OrdMap.mem_keys_iff.mp
    (OrdMap.mem_keys_of_sameWith hstates (OrdMap.mem_keys_of_get? hs))
  obtain ⟨found, hfound, hsame⟩ := OrdMap.exists_of_sameWith hstates hs'
  obtain rfl := Option.some.inj (hs.symm.trans hfound)
  have hmarked' : s'.isDefault = true := by
    cases s' <;> cases s <;> simp_all [ModeState.same, ModeState.isDefault]
  have hsome : (mode'.states.entries.find? fun e => e.2.isDefault).isSome := by
    rw [List.find?_isSome]
    exact ⟨(name, s'), OrdMap.mem_entries_iff.mpr hs', hmarked'⟩
  obtain ⟨e, he⟩ := Option.isSome_iff_exists.mp hsome
  exact ⟨e.1, by rw [defaultState?, he, Option.map_some]⟩

end Mode

/-! ### What a projection shows -/

/-- The value of a token at a state; a token without mode has one value and no states. -/
def Resolved.at? : Resolved → Option String → Option Value
  | single v, none => some v
  | perState values, some state => values.get? state
  | _, _ => none

namespace Resolution

variable {r : Resolution} {t : Theme} {p : Projection} {values : Projected}
  {choose : String → Option (Option String)}

/-- One text for each token for which a state is chosen, in the order of the resolution: the value
that the token has at this state. -/
structure ShownAt (r : Resolution) (values : Projected) (choose : String → Option (Option String)) :
    Prop where
  keys : values.keys = r.keys.filter fun token => (choose token).isSome
  text : ∀ token ∈ r.keys, ∀ state, choose token = some state → ∃ resolved text,
    r.get? token = some resolved ∧ resolved.at? state = some (.text text) ∧
      values.get? token = some (.text text)

theorem at?_ofStates {mode? : Option Mode} {f : Option String → Value} {state : Option String}
    (h : state ∈ statesOf mode?) : (Resolved.ofStates mode? f).at? state = some (f state) := by
  cases mode? with
  | none =>
      obtain rfl := List.mem_singleton.mp h
      rfl
  | some mode =>
      obtain ⟨name, hname, rfl⟩ := List.mem_map.mp h
      obtain ⟨a, ha⟩ := OrdMap.mem_keys_iff.mp hname
      simp [Resolved.ofStates, Resolved.at?, OrdMap.get?_mapWith, ha]

theorem keys_project (h : r.project t p = .ok values) :
    values.keys = r.keys.filter fun token => (values.get? token).isSome := by
  obtain ⟨g, -, rfl⟩ := OrdMap.filterMapM_eq_ok.mp h
  simp only [OrdMap.keys_filterMap, OrdMap.get?_filterMap]

/-- A projection shows each token at the state that it picks. -/
theorem shownAt_of_project (hfits : r.Fits t) (h : r.project t p = .ok values) :
    r.ShownAt values fun token => p.stateFor (t.modeOf token) := by
  have hshown : ∀ token ∈ r.keys, ∃ f, r.get? token = some (.ofStates (t.modeOf token) f) ∧
      (∀ state ∈ statesOf (t.modeOf token), ∃ text, f state = .text text) ∧
      values.get? token = (p.stateFor (t.modeOf token)).map f ∧
      ∀ state, p.stateFor (t.modeOf token) = some state → state ∈ statesOf (t.modeOf token) := by
    intro token htoken
    obtain ⟨resolved, hget⟩ := OrdMap.mem_keys_iff.mp htoken
    obtain ⟨f, rfl, htext⟩ := hfits.states token resolved hget
    exact ⟨f, hget, htext, get?_project h hget htext⟩
  constructor
  · rw [keys_project h]
    refine List.filter_congr fun token htoken => ?_
    obtain ⟨f, -, -, hvalue, -⟩ := hshown token htoken
    rw [hvalue, Option.isSome_map]
  · intro token htoken state hstate
    obtain ⟨f, hget, htext, hvalue, hmem⟩ := hshown token htoken
    obtain ⟨text, hf⟩ := htext state (hmem state hstate)
    refine ⟨_, text, hget, ?_, ?_⟩
    · rw [at?_ofStates (hmem state hstate), hf]
    · rw [hvalue, hstate, Option.map_some, hf]

theorem ShownAt.congr {choose' : String → Option (Option String)} (h : r.ShownAt values choose)
    (hchoose : ∀ token, choose token = choose' token) : r.ShownAt values choose' := by
  obtain rfl : choose = choose' := funext hchoose
  exact h

end Resolution

/-! ### Projections of results -/

namespace Theme

variable {t : Theme} {base : Option Theme} {options : ResolveOptions} {r : Resolution}

/-- The state to show a token at in one state of a mode. A token of another mode is not shown. -/
def shownIn (t : Theme) (key state token : String) : Option (Option String) :=
  match t.modeKey? token with
  | none => some none
  | some key' => if key' = key then some (some state) else none

/-- The state to show a token at by default. -/
def shownByDefault (t : Theme) (token : String) : Option (Option String) :=
  match t.modeOf token with
  | none => some none
  | some mode => mode.defaultState?.map some

theorem exists_mode_of_modeKey? {key token : String} (h : t.modeKey? token = some key) :
    ∃ mode, t.modes.get? key = some mode ∧ t.modeOf token = some mode := by
  have hcontains : t.modes.contains key = true := by
    simp only [modeKey?, Option.bind_eq_bind, Option.bind_eq_some_iff] at h
    obtain ⟨v, -, found, -, h⟩ := h
    split at h
    · next hfound => exact Option.some.inj h ▸ hfound
    · cases h
  obtain ⟨mode, hmode⟩ := OrdMap.mem_keys_iff.mp (OrdMap.contains_iff.mp hcontains)
  exact ⟨mode, hmode, by rw [modeOf_eq, h, Option.bind_some, hmode]⟩

theorem stateFor_eq_shownIn (hids : t.ModesUnderIds) (key state token : String) :
    (Projection.state (.text key) state).stateFor (t.modeOf token) = t.shownIn key state token := by
  unfold shownIn
  cases hkey : t.modeKey? token with
  | none => simp [modeOf_eq, hkey, Projection.stateFor]
  | some key' =>
      obtain ⟨mode, hmode, hbound⟩ := exists_mode_of_modeKey? hkey
      simp [hbound, Projection.stateFor, hids key' mode hmode]

/-- A theme with the modes of another one, for all that a projection asks of them. -/
structure HasModesOf (s t : Theme) : Prop where
  ids : s.ModesUnderIds
  bound : ∀ token, s.modeKey? token = t.modeKey? token
  mode : ∀ key mode, t.modes.get? key = some mode → ∃ mode', s.modes.get? key = some mode' ∧
    (∀ state ∈ mode.states.keys, state ∈ mode'.states.keys) ∧
    ∀ state, mode.defaultState? = some state → ∃ state', mode'.defaultState? = some state'

theorem hasModesOf_source (hids : t.ModesUnderIds) (hbase : ∀ b ∈ base, b.SharesModes t) :
    (base.getD t).HasModesOf t := by
  cases base with
  | none =>
      exact ⟨hids, fun _ => rfl, fun key mode hmode =>
        ⟨mode, hmode, fun _ hstate => hstate, fun state hstate => ⟨state, hstate⟩⟩⟩
  | some b =>
      have hshared : b.SharesModes t := hbase b rfl
      refine ⟨hshared.modesUnderIds hids, hshared.modeKey?_eq, fun key mode hmode => ?_⟩
      obtain ⟨mode', hmode', hsame⟩ := hshared.exists_mode hmode
      exact ⟨mode', hmode', fun _ => Mode.mem_states_of_same hsame,
        fun _ => Mode.exists_default_of_same hsame⟩

namespace HasModesOf

variable {s : Theme} (h : s.HasModesOf t)

include h

theorem shownIn_eq (key state token : String) :
    s.shownIn key state token = t.shownIn key state token := by
  rw [shownIn, shownIn, h.bound]

/-- A state of a mode is there to be picked for each token that is bound to the mode. -/
theorem picks {key state : String} {mode bound : Mode} (hmode : t.modes.get? key = some mode)
    (hstate : state ∈ mode.states.keys) {token : String} (hbound : s.modeOf token = some bound) :
    (Projection.state (.text key) state).Picks bound := by
  intro hsame
  obtain ⟨key', hkey'⟩ := get?_modes_of_modeOf hbound
  rw [h.ids key' bound hkey', Value.same_text, beq_iff_eq] at hsame
  obtain ⟨mode', hmode', hstates, -⟩ := h.mode key mode hmode
  obtain rfl := Option.some.inj (hmode'.symm.trans (hsame ▸ hkey'))
  exact hstates state hstate

theorem picks_default
    (hdefaults : ∀ mode ∈ t.modes.values, ∃ state, mode.defaultState? = some state)
    {token : String} {bound : Mode} (hbound : s.modeOf token = some bound) :
    Projection.defaults.Picks bound := by
  rw [modeOf_eq, h.bound] at hbound
  obtain ⟨key, hkey, hbound⟩ := Option.bind_eq_some_iff.mp hbound
  obtain ⟨mode, hmode, -⟩ := exists_mode_of_modeKey? hkey
  obtain ⟨state, hstate⟩ := hdefaults mode (OrdMap.mem_values_iff.mpr ⟨key, hmode⟩)
  obtain ⟨mode', hmode', -, hdefault⟩ := h.mode key mode hmode
  obtain rfl := Option.some.inj (hmode'.symm.trans hbound)
  exact hdefault state hstate

end HasModesOf

/-- What a theme resolves to is projected onto each state of its modes, and onto the default states
if all modes have one. -/
theorem ResolvesTo.projects (h : t.ResolvesTo base options r) (hids : t.ModesUnderIds)
    (hplain : PlainTokens t.tokens) (hbase : ∀ b ∈ base, b.IsPlain ∧ b.SharesModes t) :
    (∀ key mode state, t.modes.get? key = some mode → state ∈ mode.states.keys →
      ∃ values, r.project t (.state mode.id state) base = .ok values ∧
        r.ShownAt values (t.shownIn key state)) ∧
    ((∀ mode ∈ t.modes.values, ∃ state, mode.defaultState? = some state) →
      ∃ values, r.project t .defaults base = .ok values ∧ values.keys = r.keys ∧
        r.ShownAt values (base.getD t).shownByDefault) := by
  have hfits : r.Fits (base.getD t) := h.fits hplain fun b hb => (hbase b hb).1
  have hmodes : (base.getD t).HasModesOf t := hasModesOf_source hids fun b hb => (hbase b hb).2
  constructor
  · intro key mode state hmode hstate
    rw [hids key mode hmode]
    obtain ⟨values, hvalues⟩ := Resolution.exists_project (p := .state (.text key) state) hfits
      fun token _ bound hbound => hmodes.picks hmode hstate hbound
    refine ⟨values, hvalues, (Resolution.shownAt_of_project hfits hvalues).congr fun token => ?_⟩
    rw [stateFor_eq_shownIn hmodes.ids, hmodes.shownIn_eq]
  · intro hdefaults
    have hpicks : ∀ token bound, (base.getD t).modeOf token = some bound →
        Projection.defaults.Picks bound := fun _ _ hbound => hmodes.picks_default hdefaults hbound
    obtain ⟨values, hvalues⟩ := Resolution.exists_project (p := .defaults) hfits
      fun token _ bound hbound => hpicks token bound hbound
    have hshown : r.ShownAt values (base.getD t).shownByDefault :=
      (Resolution.shownAt_of_project hfits hvalues).congr fun _ => by
        unfold shownByDefault Projection.stateFor
        rfl
    refine ⟨values, hvalues, ?_, hshown⟩
    rw [hshown.keys, List.filter_eq_self]
    intro token _
    cases hbound : (base.getD t).modeOf token with
    | none => simp [shownByDefault, hbound]
    | some bound =>
        obtain ⟨state, hstate⟩ := hpicks token bound hbound
        simp [shownByDefault, hbound, hstate]

/-- The mode of `panel`, with its states in the other order. -/
def flippedLighting : Mode :=
  { lighting with states := .ofList [("dark", .optional ".d" .null), ("light", .fallback true)] }

/-- The card of `panel` again, with an ink for each state. -/
def inkedCard : Context where
  id := "card"
  selector := ".c"
  tokens := .ofList [("ink", .states (.ofList [("light", "teal"), ("dark", "white")]))]

/-- A theme on top of `panel` with lines of its own. -/
def lined : Theme where
  id := "lined"
  selector := ".l"
  tokens := .ofList [("line", .states (.ofList [("dark", "\x7bink\x7d"), ("light", "silver")]))]
  modes := .ofList [("lighting", flippedLighting)]
  bindings := .ofList [("line", "lighting")]
  contexts := .ofList [("card", inkedCard)]

/-- What the lines of `lined` stand for on top of `panel`. -/
def shownOnPanel : Resolution :=
  .ofList [("line", .perState (.ofList [("light", "silver"), ("dark", "black")]))]

/-- Inside the card the ink is taken at the default state, also where the lines are dark. -/
def shownInCard : Resolution :=
  .ofList [("ink", .single "teal"),
    ("line", .perState (.ofList [("light", "silver"), ("dark", "teal")]))]

theorem lined_projects :
    lined.ResolvesTo (some panel) {} shownInCard ∧ lined.ModesUnderIds ∧
    PlainTokens lined.tokens ∧ (∀ b ∈ some panel, b.IsPlain ∧ b.SharesModes lined) ∧
    (∀ key mode state, lined.modes.get? key = some mode → state ∈ mode.states.keys →
      ∃ values, shownInCard.project lined (.state mode.id state) (some panel) = .ok values ∧
        shownInCard.ShownAt values (lined.shownIn key state)) ∧
    ((∀ mode ∈ lined.modes.values, ∃ state, mode.defaultState? = some state) →
      ∃ values, shownInCard.project lined .defaults (some panel) = .ok values ∧
        values.keys = shownInCard.keys ∧
        shownInCard.ShownAt values panel.shownByDefault) := by
  have hinked : PlainTokens inkedCard.tokens := .of_entries
    (List.forall_mem_singleton.mpr
      (List.forall_mem_cons.mpr ⟨⟨_, rfl⟩, List.forall_mem_singleton.mpr ⟨_, rfl⟩⟩))
  have hresolves : lined.ResolvesTo (some panel) {} shownInCard :=
    .inside inkedCard (some shownOnPanel) hinked (rfl)
  have hids : lined.ModesUnderIds := by
    intro key mode h
    obtain ⟨rfl, rfl⟩ := Prod.mk.inj (List.mem_singleton.mp (OrdMap.mem_entries_iff.mpr h))
    rfl
  have hlined : PlainTokens lined.tokens := .of_entries
    (List.forall_mem_singleton.mpr
      (List.forall_mem_cons.mpr ⟨⟨_, rfl⟩, List.forall_mem_singleton.mpr ⟨_, rfl⟩⟩))
  have hbase : ∀ b ∈ some panel, b.IsPlain ∧ b.SharesModes lined := by
    rintro b ⟨⟩
    exact ⟨panel_buildable.plain, ⟨rfl, rfl⟩⟩
  exact ⟨hresolves, hids, hlined, hbase, hresolves.projects hids hlined hbase⟩

end Theme

end DesignTokens
