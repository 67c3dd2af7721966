import DesignTokens.Proofs.Selector.Compose

/-!
Spots: where rules apply, told by the fragments of their selectors. A spot belongs to a theme, lies
perhaps in one of its states and in a context, on the theme's element or inside it. If no fragment
stands for two things, a selector belongs to one spot.

A spot inherits from spots of its own theme and, below a theme at `:root`, from those of that theme.
These have lower ranks, and whatever they inherit from is inherited too.
-/

namespace DesignTokens

/-- Where a rule applies. A context comes with a flag that is set on the theme's element. -/
structure Spot where
  theme : String
  state : Option String := none
  context : Option (String × Bool) := none
  deriving DecidableEq

/-- The fragments in use, by what they stand for. -/
structure Vocabulary where
  IsTheme : String → Prop
  IsState : String → Prop
  IsContext : String → Prop
  theme_class : ∀ s, IsTheme s → s = ":root" ∨ Selector.isClass s = true
  state_class : ∀ s, IsState s → Selector.isClass s = true
  context_class : ∀ s, IsContext s → Selector.isClass s = true
  theme_state : ∀ s, IsTheme s → ¬IsState s
  theme_context : ∀ s, IsTheme s → ¬IsContext s
  state_context : ∀ s, IsState s → ¬IsContext s

namespace Spot

/-! ### Selectors -/

/-- The context on the theme's element. -/
def on? (a : Spot) : Option String :=
  match a.context with
  | some (context, true) => some context
  | _ => none

/-- The context inside the theme's element. -/
def inside? (a : Spot) : Option String :=
  match a.context with
  | some (context, false) => some context
  | _ => none

def outer (a : Spot) : List String := a.theme :: (a.state.toList ++ a.on?.toList)

def inner (a : Spot) : List String := a.inside?.toList

def selector (customizer : Customizer) (a : Spot) : String :=
  customizer (Selector.compose a.outer a.inner)

/-- A spot at `:root` in no state: nothing is seen of it but a context. -/
def IsBare (a : Spot) : Prop := a.theme = ":root" ∧ a.state = none

/-- A spot made of fragments in use. A context on `:root` itself reads as one inside it, and it
counts as inside. -/
structure Of (v : Vocabulary) (a : Spot) : Prop where
  theme : v.IsTheme a.theme
  state : ∀ x ∈ a.state, v.IsState x
  context : ∀ c ∈ a.context, v.IsContext c.1
  canonical : a.IsBare → a.on? = none

variable {v : Vocabulary} {a b : Spot} {s : String}

theorem context_eq (hon : a.on? = b.on?) (hinside : a.inside? = b.inside?) :
    a.context = b.context := by
  obtain ⟨_, _, context⟩ := a
  obtain ⟨_, _, context'⟩ := b
  match context, context', hon, hinside with
  | none, none, _, _ => rfl
  | none, some (c, true), hon, _ => simp [on?] at hon
  | none, some (c, false), _, hinside => simp [inside?] at hinside
  | some (c, true), none, hon, _ => simp [on?] at hon
  | some (c, false), none, _, hinside => simp [inside?] at hinside
  | some (c, true), some (d, true), hon, _ => simpa [on?] using hon
  | some (c, true), some (d, false), hon, _ => simp [on?] at hon
  | some (c, false), some (d, true), hon, _ => simp [on?] at hon
  | some (c, false), some (d, false), _, hinside => simpa [inside?] using hinside

namespace Of

theorem isContext_on (ha : a.Of v) (h : a.on? = some s) : v.IsContext s := by
  unfold on? at h
  split at h
  · next context heq => exact Option.some.inj h ▸ ha.context _ heq
  · cases h

theorem isContext_inside (ha : a.Of v) (h : a.inside? = some s) : v.IsContext s := by
  unfold inside? at h
  split at h
  · next context heq => exact Option.some.inj h ▸ ha.context _ heq
  · cases h

theorem isClass_outer (ha : a.Of v) : ∀ s ∈ a.outer, s = ":root" ∨ Selector.isClass s = true := by
  intro s hs
  simp only [outer, List.mem_cons, List.mem_append, Option.mem_toList] at hs
  obtain rfl | hs | hs := hs
  · exact v.theme_class _ ha.theme
  · exact .inr (v.state_class s (ha.state s hs))
  · exact .inr (v.context_class s (ha.isContext_on hs))

theorem isClass_inner (ha : a.Of v) : ∀ s ∈ a.inner, Selector.isClass s = true := by
  intro s hs
  exact v.context_class s (ha.isContext_inside (Option.mem_toList.mp hs))

/-- What is seen on the element. -/
theorem mem_front (ha : a.Of v) : s ∈ a.outer.filter (· != ":root") ↔
    (a.theme = s ∧ a.theme ≠ ":root") ∨ a.state = some s ∨ a.on? = some s := by
  have hstate : a.state = some s → s ≠ ":root" :=
    fun h => Selector.isClass_ne_root (v.state_class s (ha.state s h))
  have hon : a.on? = some s → s ≠ ":root" :=
    fun h => Selector.isClass_ne_root (v.context_class s (ha.isContext_on h))
  simp only [outer, List.mem_filter, List.mem_cons, List.mem_append, Option.mem_toList, bne_iff_ne]
  constructor
  · rintro ⟨rfl | h, hne⟩
    · exact .inl ⟨rfl, hne⟩
    · exact .inr h
  · rintro (⟨rfl, hne⟩ | h | h)
    · exact ⟨.inl rfl, hne⟩
    · exact ⟨.inr (.inl h), hstate h⟩
    · exact ⟨.inr (.inr h), hon h⟩

theorem compounds_of_bare (ha : a.Of v) (hbare : a.IsBare) :
    Selector.compounds a.outer a.inner = (a.inside?.toList, []) := by
  simp [Selector.compounds, outer, inner, hbare.1, hbare.2, ha.canonical hbare]

theorem compounds_of_not_bare (ha : a.Of v) (hbare : ¬a.IsBare) :
    Selector.compounds a.outer a.inner =
      (a.outer.filter (· != ":root"), a.inside?.toList) := by
  obtain ⟨s, hs⟩ : ∃ s, s ∈ a.outer.filter (· != ":root") := by
    by_cases htheme : a.theme = ":root"
    · cases hstate : a.state with
      | none => exact absurd ⟨htheme, hstate⟩ hbare
      | some x => exact ⟨x, ha.mem_front.mpr (.inr (.inl hstate))⟩
    · exact ⟨_, ha.mem_front.mpr (.inl ⟨rfl, htheme⟩)⟩
  simp only [Selector.compounds, inner]
  split
  · next hnil =>
      rw [hnil] at hs
      cases hs
  · rfl

/-- What stands on the element tells a spot's theme, its state and the context on it. -/
theorem eq_of_front (ha : a.Of v) (hb : b.Of v)
    (hfront : ∀ s, s ∈ a.outer.filter (· != ":root") ↔ s ∈ b.outer.filter (· != ":root")) :
    a.theme = b.theme ∧ a.state = b.state ∧ a.on? = b.on? := by
  have hone : ∀ {a b : Spot}, a.Of v → b.Of v →
      (∀ s, s ∈ a.outer.filter (· != ":root") → s ∈ b.outer.filter (· != ":root")) →
      (a.theme ≠ ":root" → b.theme = a.theme) ∧ (∀ s, a.state = some s → b.state = some s) ∧
        ∀ s, a.on? = some s → b.on? = some s := by
    intro a b ha hb hsub
    refine ⟨fun hne => ?_, fun s hs => ?_, fun s hs => ?_⟩
    · obtain ⟨heq, -⟩ | hstate | hon :=
        hb.mem_front.mp (hsub _ (ha.mem_front.mpr (.inl ⟨rfl, hne⟩)))
      · exact heq
      · exact absurd (hb.state _ hstate) (v.theme_state _ ha.theme)
      · exact absurd (hb.isContext_on hon) (v.theme_context _ ha.theme)
    · have hstate := ha.state s hs
      obtain ⟨rfl, -⟩ | hs | hon := hb.mem_front.mp (hsub _ (ha.mem_front.mpr (.inr (.inl hs))))
      · exact absurd hstate (v.theme_state _ hb.theme)
      · exact hs
      · exact absurd (hb.isContext_on hon) (v.state_context s hstate)
    · have hcontext := ha.isContext_on hs
      obtain ⟨rfl, -⟩ | hstate | hs := hb.mem_front.mp (hsub _ (ha.mem_front.mpr (.inr (.inr hs))))
      · exact absurd hcontext (v.theme_context _ hb.theme)
      · exact absurd hcontext (v.state_context s (hb.state s hstate))
      · exact hs
  obtain ⟨htheme, hstate, hon⟩ := hone ha hb fun s => (hfront s).mp
  obtain ⟨htheme', hstate', hon'⟩ := hone hb ha fun s => (hfront s).mpr
  refine ⟨?_, Option.ext fun s => ⟨hstate s, hstate' s⟩, Option.ext fun s => ⟨hon s, hon' s⟩⟩
  by_cases hroot : a.theme = ":root"
  · by_cases hroot' : b.theme = ":root"
    · rw [hroot, hroot']
    · exact htheme' hroot'
  · exact (htheme hroot).symm

theorem not_front_of_inside (ha : a.Of v) (hb : b.Of v) (hbare : ¬b.IsBare)
    (hfront : ∀ s, a.inside? = some s ↔ s ∈ b.outer.filter (· != ":root")) : False := by
  by_cases htheme : b.theme = ":root"
  · cases hstate : b.state with
    | none => exact hbare ⟨htheme, hstate⟩
    | some x =>
        have hinside := (hfront x).mpr (hb.mem_front.mpr (.inr (.inl hstate)))
        exact v.state_context x (hb.state x hstate) (ha.isContext_inside hinside)
  · have hinside := (hfront _).mpr (hb.mem_front.mpr (.inl ⟨rfl, htheme⟩))
    exact v.theme_context _ hb.theme (ha.isContext_inside hinside)

/-- Different spots have different selectors. -/
theorem eq_of_selector_eq (ha : a.Of v) (hb : b.Of v) {customizer : Customizer}
    (hcustomizer : Function.Injective customizer)
    (h : a.selector customizer = b.selector customizer) : a = b := by
  obtain ⟨hfirst, hsecond⟩ := Selector.compounds_perm_of_compose_eq ha.isClass_outer
    ha.isClass_inner hb.isClass_outer hb.isClass_inner (hcustomizer h)
  have htoList : ∀ {x y : Option String}, x.toList.Perm y.toList → x = y := by
    intro x y hperm
    refine Option.ext fun s => ?_
    rw [← Option.mem_toList, ← Option.mem_toList, hperm.mem_iff]
  have hsame : ∀ {a b : Spot}, a.theme = b.theme → a.state = b.state → a.context = b.context →
      a = b := by
    rintro ⟨-, -, -⟩ ⟨-, -, -⟩ rfl rfl rfl
    rfl
  by_cases hbare : a.IsBare <;> by_cases hbare' : b.IsBare
  · rw [ha.compounds_of_bare hbare, hb.compounds_of_bare hbare'] at hfirst
    refine hsame (hbare.1.trans hbare'.1.symm) (hbare.2.trans hbare'.2.symm) (context_eq ?_ ?_)
    · rw [ha.canonical hbare, hb.canonical hbare']
    · exact htoList hfirst
  · rw [ha.compounds_of_bare hbare, hb.compounds_of_not_bare hbare'] at hfirst
    exact (ha.not_front_of_inside hb hbare' fun s => by
      rw [← hfirst.mem_iff, Option.mem_toList]).elim
  · rw [ha.compounds_of_not_bare hbare, hb.compounds_of_bare hbare'] at hfirst
    exact (hb.not_front_of_inside ha hbare fun s => by
      rw [hfirst.mem_iff, Option.mem_toList]).elim
  · rw [ha.compounds_of_not_bare hbare, hb.compounds_of_not_bare hbare'] at hfirst hsecond
    obtain ⟨htheme, hstate, hon⟩ := ha.eq_of_front hb fun s => hfirst.mem_iff
    exact hsame htheme hstate (context_eq hon (htoList hsecond))

end Of

/-! ### Inheritance -/

/-- What a spot inherits from within its theme, the farthest first. -/
def own : Spot → List Spot
  | ⟨_, none, none⟩ => []
  | ⟨t, some _, none⟩ => [⟨t, none, none⟩]
  | ⟨t, none, some _⟩ => [⟨t, none, none⟩]
  | ⟨t, some x, some (c, on)⟩ =>
    [⟨t, none, none⟩, ⟨t, some x, none⟩, ⟨t, none, some (c, on && t != ":root")⟩]

/-- What a spot inherits from below a theme at `:root`. -/
def below : Spot → List Spot
  | ⟨_, none, none⟩ => [⟨":root", none, none⟩]
  | ⟨t, some x, none⟩ => [⟨":root", none, none⟩, ⟨":root", some x, none⟩, ⟨t, none, none⟩]
  | ⟨t, none, some (c, false)⟩ =>
    [⟨":root", none, none⟩, ⟨t, none, none⟩, ⟨":root", none, some (c, false)⟩]
  | ⟨t, none, some (c, true)⟩ =>
    [⟨":root", none, none⟩, ⟨":root", none, some (c, false)⟩, ⟨t, none, none⟩]
  | ⟨t, some x, some (c, false)⟩ =>
    [⟨":root", none, none⟩, ⟨":root", some x, none⟩, ⟨t, none, none⟩, ⟨t, some x, none⟩,
      ⟨":root", none, some (c, false)⟩, ⟨":root", some x, some (c, false)⟩,
      ⟨t, none, some (c, false)⟩]
  | ⟨t, some x, some (c, true)⟩ =>
    [⟨":root", none, none⟩, ⟨":root", some x, none⟩, ⟨":root", none, some (c, false)⟩,
      ⟨t, none, none⟩, ⟨t, none, some (c, true)⟩, ⟨t, some x, none⟩, ⟨t, none, some (c, false)⟩]

/-- What a spot inherits from, with or without a theme at `:root`. -/
def parents (primary : Bool) (a : Spot) : List Spot :=
  if primary && a.theme != ":root" then a.below else a.own

/-- Spots in order of what they may inherit from. -/
def rank (a : Spot) : Nat :=
  (if a.theme = ":root" then 0 else 4) + (if a.state.isSome then 1 else 0) +
    (if a.context.isSome then 2 else 0)

variable {primary : Bool}

theorem parents_of_root (h : a.theme = ":root") : a.parents primary = a.own := by
  simp [parents, h]

theorem parents_below (h : a.theme ≠ ":root") : a.parents true = a.below := by
  simp [parents, h]

@[simp] theorem parents_false (a : Spot) : a.parents false = a.own := by
  simp [parents]

/-- Either a spot inherits within its theme, or its theme is below one at `:root`. -/
theorem parents_cases (primary : Bool) (a : Spot) :
    ((primary = true → a.theme = ":root") ∧ a.parents primary = a.own) ∨
      primary = true ∧ a.theme ≠ ":root" ∧ a.parents primary = a.below := by
  by_cases hroot : a.theme = ":root"
  · exact .inl ⟨fun _ => hroot, parents_of_root hroot⟩
  · cases primary with
    | false => exact .inl ⟨fun h => Bool.noConfusion h, parents_false a⟩
    | true => exact .inr ⟨rfl, hroot, parents_below hroot⟩

theorem mem_own (h : b ∈ a.own) : b.theme = a.theme ∧ b.rank < a.rank ∧ b.own ⊆ a.own := by
  match a with
  | ⟨t, none, none⟩ => cases h
  | ⟨t, some x, none⟩ =>
      obtain rfl := List.mem_singleton.mp h
      simp [own, rank]
  | ⟨t, none, some c⟩ =>
      obtain rfl := List.mem_singleton.mp h
      simp [own, rank]
  | ⟨t, some x, some (c, on)⟩ =>
      simp only [own, List.mem_cons, List.not_mem_nil, or_false] at h
      obtain rfl | rfl | rfl := h
      · simp only [own, rank]
        simp
        omega
      · simp [own, rank]
      · simp [own, rank]

theorem mem_below (htheme : a.theme ≠ ":root") (h : b ∈ a.below) :
    (b.theme = a.theme ∨ b.theme = ":root") ∧ b.rank < a.rank ∧ b.parents true ⊆ a.below := by
  match a with
  | ⟨t, none, none⟩ =>
      obtain rfl := List.mem_singleton.mp h
      simp [own, rank, parents, htheme]
  | ⟨t, some x, none⟩ =>
      simp only [below, List.mem_cons, List.not_mem_nil, or_false] at h
      obtain rfl | rfl | rfl := h <;> simp [own, below, rank, parents, htheme]
  | ⟨t, none, some (c, false)⟩ =>
      simp only [below, List.mem_cons, List.not_mem_nil, or_false] at h
      obtain rfl | rfl | rfl := h <;> simp [own, below, rank, parents, htheme]
  | ⟨t, none, some (c, true)⟩ =>
      simp only [below, List.mem_cons, List.not_mem_nil, or_false] at h
      obtain rfl | rfl | rfl := h <;> simp [own, below, rank, parents, htheme]
  | ⟨t, some x, some (c, false)⟩ =>
      simp only [below, List.mem_cons, List.not_mem_nil, or_false] at h
      obtain rfl | rfl | rfl | rfl | rfl | rfl | rfl := h <;>
        simp [own, below, rank, parents, htheme]
  | ⟨t, some x, some (c, true)⟩ =>
      simp only [below, List.mem_cons, List.not_mem_nil, or_false] at h
      obtain rfl | rfl | rfl | rfl | rfl | rfl | rfl := h <;>
        simp [own, below, rank, parents, htheme]

theorem Of.of_mem_own (ha : a.Of v) (h : b ∈ a.own) : b.Of v := by
  have htheme := ha.theme
  match a with
  | ⟨t, none, none⟩ => cases h
  | ⟨t, some x, none⟩ =>
      obtain rfl := List.mem_singleton.mp h
      exact ⟨htheme, by simp, by simp, fun _ => rfl⟩
  | ⟨t, none, some c⟩ =>
      obtain rfl := List.mem_singleton.mp h
      exact ⟨htheme, by simp, by simp, fun _ => rfl⟩
  | ⟨t, some x, some (c, on)⟩ =>
      have hstate : v.IsState x := ha.state x rfl
      have hcontext : v.IsContext c := ha.context (c, on) rfl
      simp only [own, List.mem_cons, List.not_mem_nil, or_false] at h
      obtain rfl | rfl | rfl := h
      · exact ⟨htheme, by simp, by simp, fun _ => rfl⟩
      · exact ⟨htheme, by simpa using hstate, by simp, fun _ => rfl⟩
      · refine ⟨htheme, by simp, by simpa using hcontext, fun hbare => ?_⟩
        simp [on?, show t = ":root" from hbare.1]

theorem Of.of_mem_below (ha : a.Of v) (hroot : v.IsTheme ":root") (hne : a.theme ≠ ":root")
    (h : b ∈ a.below) : b.Of v := by
  have htheme := ha.theme
  match a with
  | ⟨t, none, none⟩ =>
      obtain rfl := List.mem_singleton.mp h
      exact ⟨hroot, by simp, by simp, fun _ => rfl⟩
  | ⟨t, some x, none⟩ =>
      have hstate : v.IsState x := ha.state x rfl
      simp only [below, List.mem_cons, List.not_mem_nil, or_false] at h
      obtain rfl | rfl | rfl := h <;> constructor <;> simp [hroot, htheme, hstate, on?]
  | ⟨t, none, some (c, false)⟩ =>
      have hcontext : v.IsContext c := ha.context (c, false) rfl
      simp only [below, List.mem_cons, List.not_mem_nil, or_false] at h
      obtain rfl | rfl | rfl := h <;> constructor <;> simp [hroot, htheme, hcontext, on?]
  | ⟨t, none, some (c, true)⟩ =>
      have hcontext : v.IsContext c := ha.context (c, true) rfl
      simp only [below, List.mem_cons, List.not_mem_nil, or_false] at h
      obtain rfl | rfl | rfl := h <;> constructor <;> simp [hroot, htheme, hcontext, on?]
  | ⟨t, some x, some (c, false)⟩ =>
      have hstate : v.IsState x := ha.state x rfl
      have hcontext : v.IsContext c := ha.context (c, false) rfl
      simp only [below, List.mem_cons, List.not_mem_nil, or_false] at h
      obtain rfl | rfl | rfl | rfl | rfl | rfl | rfl := h <;> constructor <;>
        simp [hroot, htheme, hstate, hcontext, on?]
  | ⟨t, some x, some (c, true)⟩ =>
      have hstate : v.IsState x := ha.state x rfl
      have hcontext : v.IsContext c := ha.context (c, true) rfl
      have hbare : ¬(⟨t, none, some (c, true)⟩ : Spot).IsBare := fun hbare => hne hbare.1
      simp only [below, List.mem_cons, List.not_mem_nil, or_false] at h
      obtain rfl | rfl | rfl | rfl | rfl | rfl | rfl := h <;> constructor <;>
        simp [hroot, htheme, hstate, hcontext, on?, hbare]

/-- Parents are made of fragments in use. -/
theorem Of.of_mem_parents (ha : a.Of v) (hroot : primary = true → v.IsTheme ":root")
    (h : b ∈ a.parents primary) : b.Of v := by
  obtain ⟨-, heq⟩ | ⟨hprimary, htheme, heq⟩ := parents_cases primary a
  · exact ha.of_mem_own (heq ▸ h)
  · exact ha.of_mem_below (hroot hprimary) htheme (heq ▸ h)

theorem rank_lt (h : b ∈ a.parents primary) : b.rank < a.rank := by
  obtain ⟨-, heq⟩ | ⟨-, htheme, heq⟩ := parents_cases primary a
  · exact (mem_own (heq ▸ h)).2.1
  · exact (mem_below htheme (heq ▸ h)).2.1

theorem theme_of_mem_parents (h : b ∈ a.parents primary) :
    b.theme = a.theme ∨ primary = true ∧ b.theme = ":root" := by
  obtain ⟨-, heq⟩ | ⟨hprimary, htheme, heq⟩ := parents_cases primary a
  · exact .inl (mem_own (heq ▸ h)).1
  · exact (mem_below htheme (heq ▸ h)).1.imp_right fun hroot => ⟨hprimary, hroot⟩

/-- What a parent inherits from is inherited. -/
theorem parents_subset (h : b ∈ a.parents primary) : b.parents primary ⊆ a.parents primary := by
  obtain ⟨hroot, heq⟩ | ⟨rfl, htheme, heq⟩ := parents_cases primary a
  · rw [heq] at h ⊢
    obtain ⟨htheme, -, hsub⟩ := mem_own h
    obtain ⟨-, heq'⟩ | ⟨hprimary, hne, -⟩ := parents_cases primary b
    · rwa [heq']
    · exact absurd (htheme.trans (hroot hprimary)) hne
  · rw [heq] at h ⊢
    exact (mem_below htheme h).2.2

theorem nodup_parents (primary : Bool) (a : Spot) : (a.parents primary).Nodup := by
  obtain ⟨-, heq⟩ | ⟨-, htheme, heq⟩ := parents_cases primary a
  · rw [heq]
    match a with
    | ⟨t, none, none⟩ => simp [own]
    | ⟨t, some x, none⟩ => simp [own]
    | ⟨t, none, some c⟩ => simp [own]
    | ⟨t, some x, some (c, on)⟩ => simp [own]
  · rw [heq]
    have hroot : ":root" ≠ a.theme := Ne.symm htheme
    match a with
    | ⟨t, none, none⟩ => simp [below]
    | ⟨t, some x, none⟩ => simpa [below] using hroot
    | ⟨t, none, some (c, false)⟩ => simpa [below] using hroot
    | ⟨t, none, some (c, true)⟩ => simpa [below] using hroot
    | ⟨t, some x, some (c, false)⟩ => simpa [below] using hroot
    | ⟨t, some x, some (c, true)⟩ => simpa [below] using hroot

end Spot

end DesignTokens
