import DesignTokens.Build.Css
import DesignTokens.Proofs.Build.Secondary
import DesignTokens.Proofs.Build.Steps
import DesignTokens.Proofs.Stylesheet.Ledger

/-!
Builds in two tables. A build makes rules, looks up the rules that a new one inherits from, and
appends the new one; two sheets are put together by further appends, and a sheet is made minimal by
changing and removing rules. So every sheet that is built could as well be kept in two tables, and
what is proved of it is true of these.
-/

namespace DesignTokens

namespace Stylesheet.Tracked

variable {s t : Stylesheet}

theorem add (h : s.Tracked) (r : Rule) (path : List (Option RuleId)) :
    (s.add r path).1.Tracked := by
  rw [Stylesheet.add]
  split
  · exact h
  · exact (h.make r).append (by simp [Stylesheet.make]) _

theorem makeAll (h : s.Tracked) (rules : List Rule) :
    Tracked { s with rules := s.rules ++ rules } := by
  induction rules generalizing s with
  | nil => simpa using h
  | cons r rules ih => simpa [Stylesheet.make] using ih (h.make r)

/-- The rules of another sheet are made before they are appended. -/
theorem absorb (h : s.Tracked) (ht : t.Tracked) : (s.absorb t).Tracked := by
  have happend : ∀ (places : List Placed) (u : Stylesheet), u.Tracked →
      (∀ p ∈ places, p.rule + s.rules.length < u.rules.length) →
      (places.foldl (fun u p => u.append (p.rule + s.rules.length)
        (p.path.map (· + s.rules.length))) u).Tracked := by
    intro places
    induction places with
    | nil => exact fun u hu _ => hu
    | cons p places ih =>
        intro u hu hmade
        rw [List.forall_mem_cons] at hmade
        exact ih _ (hu.append hmade.1 _) hmade.2
  refine happend _ _ (h.makeAll t.rules) fun p hp => ?_
  have hrule : p.rule < t.rules.length := ht.made p.rule (List.mem_map_of_mem hp)
  rw [List.length_append, Nat.add_comm]
  exact Nat.add_lt_add_left hrule _

end Stylesheet.Tracked

variable {N : Type} [Add N] [Sub N] [Mul N] [Div N] [LE N] [LT N] [DecidableLE N] [DecidableLT N]
  [OfScientific N] {space : ColorSpace N} {maker : RuleMaker} {options : ResolveOptions}
  {s s' : Stylesheet}

/-! ### One theme -/

theorem SingleBuild.Steps.tracked {b : SingleBuild} {done : List Place}
    (h : b.Steps space done s) : s.Tracked := by
  induction h with
  | root _ => exact Stylesheet.Tracked.start.add _ _
  | place _ _ _ _ _ _ ih => exact ih.add _ _

theorem tracked_of_buildSingle {t : Theme} {base : Option Theme}
    (h : buildSingle space maker t base options = .ok s) : s.Tracked := by
  obtain ⟨resolution, -, hsteps⟩ := exists_steps_of_buildSingle h
  exact hsteps.tracked

/-! ### A secondary theme -/

namespace SecondaryBuild

variable {b : SecondaryBuild} {roots : Roots} {x : OptionalState} {c : Context}

theorem tracked_addRoot (h : s.Tracked) {values : Projected}
    (hs' : b.addRoot s values = .ok (s', roots)) : s'.Tracked := by
  simp only [addRoot, Outcome.bind_eq_ok, Outcome.pure_eq_ok, Prod.mk.injEq] at hs'
  obtain ⟨parent, -, r, -, rfl, -⟩ := hs'
  exact h.add r _

theorem tracked_addState (h : s.Tracked) (hs' : b.addState roots s x = .ok s') : s'.Tracked := by
  simp only [addState, Outcome.bind_eq_ok, Outcome.pure_eq_ok] at hs'
  obtain ⟨values, -, r, -, parent, -, rfl⟩ := hs'
  exact h.add r _

theorem tracked_addContext (h : s.Tracked) (hs' : b.addContext roots s c = .ok s') :
    s'.Tracked := by
  simp only [addContext, Outcome.bind_eq_ok, Outcome.pure_eq_ok] at hs'
  obtain ⟨values, -, parent, -, inside, -, on, -, rfl⟩ := hs'
  exact (h.add inside _).add on _

theorem tracked_addContextState (h : s.Tracked) (hs' : b.addContextState roots s x c = .ok s') :
    s'.Tracked := by
  simp only [addContextState, Outcome.bind_eq_ok, Outcome.pure_eq_ok] at hs'
  obtain ⟨values, -, found, -, state, -, parent, -, parentState, -, both, -, inside, -, foundOn, -,
    on, -, rfl⟩ := hs'
  exact (h.add inside _).add on _

end SecondaryBuild

open SecondaryBuild in
theorem tracked_of_addSecondary {primary t : Theme} (h : s.Tracked)
    (hs' : addSecondary space maker primary options s t = .ok s') : s'.Tracked := by
  obtain ⟨resolution, hresolve, -⟩ := Outcome.bind_eq_ok.mp hs'
  obtain ⟨s₁, roots, ⟨values, -, hroot⟩, s₂, hs₂, s₃, hs₃, hs'⟩ :=
    (addSecondary_eq_ok_iff_stages space ⟨maker, primary, t, options, resolution⟩ hresolve).mp hs'
  have hstates := (tracked_addRoot h hroot).foldlM (fun _ _ _ => tracked_addState) hs₂
  have hcontexts := hstates.foldlM (fun _ _ _ => tracked_addContext) hs₃
  exact hcontexts.foldlM
    (fun _ _ _ hu hu' => hu.foldlM (fun _ _ _ => tracked_addContextState) hu') hs'

/-! ### Several themes -/

theorem tracked_of_buildMulti {themes : List Theme}
    (h : buildMulti space maker themes options = .ok s) : s.Tracked := by
  obtain ⟨cast, -, h⟩ := Outcome.bind_eq_ok.mp h
  cases cast with
  | apart themes =>
      refine Stylesheet.Tracked.start.foldlM (fun t u u' hu hu' => ?_) h
      obtain ⟨single, hsingle, rfl⟩ := Outcome.map_eq_ok.mp hu'
      exact hu.absorb (tracked_of_buildSingle hsingle)
  | under primary secondary =>
      obtain ⟨first, hfirst, h⟩ := Outcome.bind_eq_ok.mp h
      exact (tracked_of_buildSingle hfirst).foldlM (fun _ _ _ => tracked_of_addSecondary) h

/-! ### Both tables of a build -/

/-- The sheet of a build, made minimal as often as asked for, is shown by two tables that were
changed in the same way. -/
theorem exists_shows_of_buildSheet {primary : Theme} {secondary : List Theme}
    {properties : OrdMap Value} {customizer : Customizer} {used : List String} {passes : Nat}
    (h : buildSheet space primary secondary properties customizer used options passes = .ok s) :
    ∃ l : Ledger, l.Tracks s ∧ l.Shows s := by
  obtain ⟨built, hbuilt, hpasses⟩ := Outcome.bind_eq_ok.mp h
  have hs := (tracked_of_buildMulti hbuilt).foldlM (fun _ _ _ hu hu' => hu.minimal hu') hpasses
  obtain ⟨l, hl⟩ := hs
  exact ⟨l, hl, hl.shows⟩

theorem exists_shows_of_overrideSheet {base : Theme} {o : Override} {properties : OrdMap Value}
    {customizer : Customizer} {notes : List Note}
    (h : overrideSheet space base o properties customizer options = .ok (s, notes)) :
    ∃ l : Ledger, l.Tracks s ∧ l.Shows s := by
  obtain ⟨m, -, h⟩ := Outcome.bind_eq_ok.mp h
  obtain ⟨built, hbuilt, h⟩ := Outcome.bind_eq_ok.mp h
  obtain ⟨rfl, -⟩ := Prod.mk.inj (Outcome.pure_eq_ok.mp h)
  obtain ⟨l, hl⟩ := tracked_of_buildSingle hbuilt
  exact ⟨l, hl, hl.shows⟩

end DesignTokens
