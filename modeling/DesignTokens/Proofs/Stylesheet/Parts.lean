import DesignTokens.Proofs.Stylesheet.Lists

/-!
Parts of a plan. A part is closed if it has whatever its rules inherit from. The minimal form of a
sheet depends on closed parts only: its rules of a part are those that a sheet of the part alone
keeps, and it exists if the rules of the plan lie in closed parts with minimal forms.
-/

namespace DesignTokens

namespace Stylesheet

variable {s t m : Stylesheet} {plan part part' : List Planned} {e : Planned}
  {kept kept' : String → Declarations}

/-- A part of a plan with all rules of the plan that its rules inherit from. -/
structure IsPart (part plan : List Planned) : Prop where
  sublist : part.Sublist plan
  closed : ∀ e ∈ part, ∀ e' ∈ plan, e'.selector ∈ e.parents → e' ∈ part

namespace IsPart

/-- To a rule of a part it does not matter what else is in the plan. -/
theorem filter_parents (h : IsPart part plan) (he : e ∈ part) :
    e.parents.filter (IsFilled part) = e.parents.filter (IsFilled plan) := by
  refine List.filter_congr fun k hk => ?_
  rw [Bool.eq_iff_iff]
  simp only [IsFilled, List.any_eq_true, Bool.and_eq_true, beq_iff_eq]
  constructor
  · rintro ⟨e', he', hfilled⟩
    exact ⟨e', h.sublist.subset he', hfilled⟩
  · rintro ⟨e', he', hfilled, rfl⟩
    exact ⟨e', h.closed e he e' he' hk, hfilled, rfl⟩

theorem settles (h : IsPart part plan) (hkept : Settles plan kept) : Settles part kept := by
  intro e he
  rw [h.filter_parents he]
  exact hkept e (h.sublist.subset he)

end IsPart

section Layers

variable (hlayers : Layered (plan.map Planned.outline))

include hlayers

theorem length_parents_lt (he : e ∈ plan) {e' : Planned} (he' : e' ∈ plan)
    (hparent : e'.selector ∈ e.parents) : e'.parents.length < e.parents.length := by
  have hmem := fun {e : Planned} (he : e ∈ plan) => List.mem_map_of_mem (f := Planned.outline) he
  have hnodup : (e'.selector :: e'.parents).Nodup :=
    List.nodup_cons.mpr ⟨hlayers.irrefl _ (hmem he'), hlayers.nodup _ (hmem he')⟩
  have hsub : e'.selector :: e'.parents ⊆ e.parents :=
    List.cons_subset.mpr ⟨hparent, hlayers.closed _ (hmem he) _ (hmem he') hparent⟩
  exact (hnodup.subperm hsub).length_le

/-- What is kept of a rule does not depend on the part in which it is seen. -/
theorem IsPart.kept_eq (h : IsPart part plan) (h' : IsPart part' plan) (hkept : Settles part kept)
    (hkept' : Settles part' kept') (he : e ∈ part) (he' : e ∈ part') :
    kept e.selector = kept' e.selector := by
  suffices H : ∀ n, ∀ e ∈ part, e ∈ part' → e.parents.length < n →
      kept e.selector = kept' e.selector from H _ e he he' (Nat.lt_succ_self _)
  intro n
  induction n with
  | zero => exact fun e _ _ hlt => absurd hlt (Nat.not_lt_zero _)
  | succ n ih =>
      intro e he he' hlt
      have habove : (e.parents.filter (IsFilled plan)).map kept =
          (e.parents.filter (IsFilled plan)).map kept' := by
        refine List.map_congr_left fun k hk => ?_
        obtain ⟨hparent, hfilled⟩ := List.mem_filter.mp hk
        simp only [IsFilled, List.any_eq_true, Bool.and_eq_true, beq_iff_eq] at hfilled
        obtain ⟨a, ha, -, rfl⟩ := hfilled
        have hshort := length_parents_lt hlayers (h.sublist.subset he) ha hparent
        exact ih a (h.closed e he a ha hparent) (h'.closed e he' a ha hparent) (by omega)
      have hhere := hkept e he
      have hthere := hkept' e he'
      rw [h.filter_parents he] at hhere
      rw [h'.filter_parents he', ← habove] at hthere
      exact Except.ok.inj (hhere.symm.trans hthere)

theorem selector_inj (he : e ∈ plan) {e' : Planned} (he' : e' ∈ plan)
    (heq : e.selector = e'.selector) : e = e' :=
  List.inj_on_of_nodup_map (Lists.nodup_selectors_of_layered hlayers) he he' heq

/-- Rules that lie in closed parts are settled by what the parts keep. -/
theorem exists_settles_of_parts (hparts : ∀ e ∈ plan, ∃ part kept, IsPart part plan ∧ e ∈ part ∧
    Settles part kept) : ∃ kept, Settles plan kept := by
  choose! part kept hpart hmem hkept using hparts
  -- what is kept at a selector is read off in the part of the rule there
  let keptAt : String → Declarations := fun k =>
    ((plan.find? fun e => e.selector == k).map fun e => kept e k).getD .empty
  have hat : ∀ e ∈ plan, keptAt e.selector = kept e e.selector := by
    intro e he
    obtain ⟨e', hfind⟩ : ∃ e', plan.find? (fun a => a.selector == e.selector) = some e' := by
      rw [← Option.isSome_iff_exists, List.find?_isSome]
      exact ⟨e, he, beq_self_eq_true _⟩
    have heq := List.find?_some hfind
    obtain rfl := selector_inj hlayers (List.mem_of_find?_eq_some hfind) he (by simpa using heq)
    simp only [keptAt, hfind, Option.map_some, Option.getD_some]
  refine ⟨keptAt, fun e he => ?_⟩
  have hhere := hkept e he e (hmem e he)
  rw [(hpart e he).filter_parents (hmem e he)] at hhere
  have habove : (e.parents.filter (IsFilled plan)).map keptAt =
      (e.parents.filter (IsFilled plan)).map (kept e) := by
    refine List.map_congr_left fun k hk => ?_
    obtain ⟨hparent, hfilled⟩ := List.mem_filter.mp hk
    simp only [IsFilled, List.any_eq_true, Bool.and_eq_true, beq_iff_eq] at hfilled
    obtain ⟨a, ha, -, rfl⟩ := hfilled
    rw [hat a ha]
    exact (hpart a ha).kept_eq hlayers (hpart e he) (hkept a ha) (hkept e he) (hmem a ha)
      ((hpart e he).closed e (hmem e he) a ha hparent)
  rw [habove, hat e he]
  exact hhere

/-- A part is told by its selectors. -/
theorem IsPart.filter_selectors (h : IsPart part plan) :
    plan.filter (fun e => (part.map Planned.selector).contains e.selector) = part := by
  have hnodup : plan.Nodup := (Lists.nodup_selectors_of_layered hlayers).of_map
  have hmem : ∀ e ∈ plan, (part.map Planned.selector).contains e.selector = true ↔ e ∈ part := by
    intro e he
    rw [List.contains_iff_mem]
    constructor
    · intro hselector
      obtain ⟨e', he', heq⟩ := List.mem_map.mp hselector
      rwa [← selector_inj hlayers (h.sublist.subset he') he heq]
    · exact List.mem_map_of_mem
  have hsub := h.sublist.filter fun e => (part.map Planned.selector).contains e.selector
  rw [List.filter_eq_self.mpr fun e he => (hmem e (h.sublist.subset he)).mpr he] at hsub
  refine (hsub.eq_of_length (List.Perm.length_eq ?_)).symm
  refine (List.perm_ext_iff_of_nodup (hnodup.sublist h.sublist) (hnodup.filter _)).mpr fun e => ?_
  rw [List.mem_filter]
  exact ⟨fun he => ⟨h.sublist.subset he, (hmem e (h.sublist.subset he)).mpr he⟩,
    fun ⟨he, hselector⟩ => (hmem e he).mp hselector⟩

namespace Lists

theorem settles_of_minimal (h : s.Lists plan) (hm : s.minimal = .ok m) :
    m.IsSettledOf s ∧ Settles plan m.declared := by
  have hsettled := ((h.rooted hlayers).settling_of_minimal hm).isSettledOf
  exact ⟨hsettled, h.settles hlayers hsettled⟩

/-- A sheet of a part has a minimal form if that of the plan has one, with the rules of the part
there. -/
theorem exists_minimal_of_part (h : s.Lists plan) (ht : t.Lists part) (hpart : IsPart part plan)
    (hm : s.minimal = .ok m) : ∃ n, t.minimal = .ok n ∧
      m.listing.filter (fun r => (part.map Planned.selector).contains r.selector) = n.listing := by
  obtain ⟨hsettled, hkept⟩ := h.settles_of_minimal hlayers hm
  have hlayers' := hlayers.sublist (hpart.sublist.map Planned.outline)
  obtain ⟨n, hn, hsettled', hdeclared⟩ :=
    ht.exists_minimal_of_settles hlayers' (hpart.settles hkept)
  refine ⟨n, hn, ?_⟩
  rw [h.listing_minimal hlayers hsettled, ht.listing_minimal hlayers' hsettled',
    List.filter_comm, List.filter_map]
  have hcomp : (fun r : Rule => (part.map Planned.selector).contains r.selector) ∘
      (fun e : Planned => { e.rule with declarations := m.declared e.selector }) =
        fun e => (part.map Planned.selector).contains e.selector := rfl
  rw [hcomp, hpart.filter_selectors hlayers]
  congr 1
  exact List.map_congr_left fun e he => by rw [hdeclared e he]

/-- The minimal form exists if the plan falls into closed parts with minimal forms. -/
theorem exists_minimal_of_parts (h : s.Lists plan) (hparts : ∀ e ∈ plan, ∃ part, ∃ t n : Stylesheet,
    IsPart part plan ∧ e ∈ part ∧ t.Lists part ∧ t.minimal = .ok n) : ∃ m, s.minimal = .ok m := by
  obtain ⟨kept, hkept⟩ := exists_settles_of_parts hlayers fun e he => by
    obtain ⟨part, t, n, hpart, hmem, ht, hn⟩ := hparts e he
    have hlayers' := hlayers.sublist (hpart.sublist.map Planned.outline)
    exact ⟨part, n.declared, hpart, hmem, (ht.settles_of_minimal hlayers' hn).2⟩
  obtain ⟨m, hm, -⟩ := h.exists_minimal_of_settles hlayers hkept
  exact ⟨m, hm⟩

end Lists

end Layers

end Stylesheet

end DesignTokens
