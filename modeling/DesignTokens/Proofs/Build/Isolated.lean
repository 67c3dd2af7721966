import DesignTokens.Proofs.Build.Multi
import DesignTokens.Proofs.Stylesheet.Parts
import Mathlib.Data.List.Flatten

/-!
Themes below a theme at `:root` are built and minimised as if each were there alone. The rules of
the theme at `:root` are a closed part of the plan, and they are one together with those of any of
the others. So what the minimal form has for these themes is what a build of them alone gives, and
if minimising fails, it does so for one of the themes.
-/

namespace DesignTokens

/-! ### Rules by theme -/

/-- The selectors of a theme's rules. -/
def Theme.selectors (customizer : Customizer) (t : Theme) : List String :=
  t.places.map (Place.selector customizer t)

/-- The rules of a sheet that are made for some themes, told by their selectors. -/
def Stylesheet.rulesFor (s : Stylesheet) (customizer : Customizer) (themes : List Theme) :
    List Rule :=
  s.listing.filter fun r => (themes.flatMap (Theme.selectors customizer)).contains r.selector

variable {N : Type} [Add N] [Sub N] [Mul N] [Div N] [LE N] [LT N] [DecidableLE N] [DecidableLT N]
  [OfScientific N] {space : ColorSpace N} {maker : RuleMaker} {base : Option Theme}
  {options : ResolveOptions} {themes order : List Theme} {primary t : Theme} {u : Stylesheet}

theorem Theme.Makes.map_selector (h : t.Makes space maker base options) (below : Bool) :
    (t.plan space maker base options below).map Planned.selector =
      t.selectors maker.customizer := by
  rw [plan, selectors, List.map_map]
  exact List.map_congr_left fun q hq => h.selector_entry hq below

namespace Separated

variable (hsep : Separated maker.customizer themes)

include hsep

/-- A theme is told by any spot of it. -/
theorem theme_eq (ht : t ∈ themes) {t' : Theme} (ht' : t' ∈ themes) {a a' : Spot}
    (ha : a ∈ t.spots) (ha' : a' ∈ t'.spots) (heq : a'.theme = a.theme) : t' = t := by
  refine List.inj_on_of_nodup_map hsep.distinctThemes ht' ht ?_
  rw [hsep.selector_text ht, hsep.selector_text ht', ← Theme.theme_of_mem_spots ha,
    ← Theme.theme_of_mem_spots ha', heq]

/-- A selector belongs to one theme. -/
theorem theme_of_selector (ht : t ∈ themes) {t' : Theme} (ht' : t' ∈ themes) {k : String}
    (hk : k ∈ t.selectors maker.customizer) (hk' : k ∈ t'.selectors maker.customizer) :
    t' = t := by
  obtain ⟨q, hq, rfl⟩ := List.mem_map.mp hk
  obtain ⟨q', hq', heq⟩ := List.mem_map.mp hk'
  have hspot : q.spot t ∈ t.spots := List.mem_map_of_mem hq
  have hspot' : q'.spot t' ∈ t'.spots := List.mem_map_of_mem hq'
  rw [hsep.selector_eq ht (Place.isOf_of_mem hq),
    hsep.selector_eq ht' (Place.isOf_of_mem hq')] at heq
  have hsame := hsep.eq_of_selector_eq (hsep.of_mem_spots ht' hspot') (hsep.of_mem_spots ht hspot)
    heq
  exact hsep.theme_eq ht ht' hspot hspot' (congrArg Spot.theme hsame)

/-- The rules of some themes are a closed part of those of all themes, if the theme at `:root` is
among them. -/
theorem isPart (hprimary : primary ∈ themes) (hroot : primary.selector = .text ":root")
    (hsub : order.Sublist (primary :: secondary themes)) (hmem : primary ∈ order)
    (hmakes : ∀ t ∈ primary :: secondary themes, t.Makes space maker none options) :
    Stylesheet.IsPart (order.flatMap (Theme.plan space maker none options true))
      ((primary :: secondary themes).flatMap (Theme.plan space maker none options true)) := by
  have hthemes := hsep.order_subset hprimary
  refine ⟨hsub.flatMap _, fun e he e' he' hparent => ?_⟩
  obtain ⟨t, ht, he⟩ := List.mem_flatMap.mp he
  obtain ⟨t', ht', he'⟩ := List.mem_flatMap.mp he'
  have hof := hthemes (hsub.subset ht)
  have hof' := hthemes ht'
  obtain ⟨a, ha, -, hparents⟩ := hsep.exists_spot hof (hmakes t (hsub.subset ht)) he
  obtain ⟨a', ha', hselector', -⟩ := hsep.exists_spot hof' (hmakes t' ht') he'
  refine List.mem_flatMap.mpr ⟨t', ?_, he'⟩
  -- the parent has a spot of the same theme, or of that at `:root`
  rw [hparents, hselector'] at hparent
  obtain ⟨b, hb, heq⟩ := List.mem_map.mp hparent
  have hb' := (hsep.of_mem_spots hof ha).of_mem_parents
    (fun _ => ⟨primary, hprimary, hroot⟩) hb
  obtain rfl := hsep.eq_of_selector_eq hb' (hsep.of_mem_spots hof' ha') heq
  obtain hsame | ⟨-, hpage⟩ := Spot.theme_of_mem_parents hb
  · rwa [hsep.theme_eq hof hof' ha ha' hsame]
  · rw [Theme.theme_of_mem_spots ha'] at hpage
    have heq' : t'.selector = primary.selector := by rw [hsep.selector_text hof', hpage, hroot]
    rwa [List.inj_on_of_nodup_map hsep.distinctThemes hof' hprimary heq']

end Separated

/-! ### Two builds -/

section Below

variable (hsep : Separated maker.customizer themes) (hprimary : primary ∈ themes)
  (hroot : primary.selector = .text ":root")

include hsep hprimary hroot

/-- The theme at `:root` and one other are built from what all themes are built from. -/
theorem exists_buildMulti_pair {p : Stylesheet}
    (hp : buildSingle space maker primary none options = .ok p) (ht : t ∈ secondary themes)
    (hmakes : t.Makes space maker none options) :
    ∃ v, buildMulti space maker [primary, t] options = .ok v ∧
      v.Lists ([primary, t].flatMap (Theme.plan space maker none options true)) := by
  have hsub : [primary, t].Sublist (primary :: secondary themes) :=
    (List.singleton_sublist.mpr ht).cons_cons primary
  have hpair : Separated maker.customizer [primary, t] :=
    hsep.of_subset (List.Subset.trans hsub.subset (hsep.order_subset hprimary))
      ((hsep.nodup_order hroot).sublist (hsub.map Theme.selector))
  have hsecondary := hpair.secondary_pair hroot
  have hmakes' : ∀ t' ∈ secondary [primary, t], t'.Makes space maker none options := by
    rw [hsecondary]
    exact List.forall_mem_singleton.mpr hmakes
  have hbuild := (buildMulti_eq_ok hpair List.mem_cons_self hroot).mpr ⟨p, hp, hmakes', rfl⟩
  refine ⟨_, hbuild, ?_⟩
  have hlists := (lists_of_buildMulti hpair List.mem_cons_self hroot hbuild).2
  rwa [show primary :: secondary [primary, t] = [primary, t] by rw [hsecondary]] at hlists

variable (hmakes : ∀ t ∈ primary :: secondary themes, t.Makes space maker none options)
  (hu : u.Lists ((primary :: secondary themes).flatMap (Theme.plan space maker none options true)))
  {m : Stylesheet} (hm : u.minimal = .ok m)

include hmakes hu hm

/-- What the minimal form has for some themes is the minimal form of a sheet of these themes. -/
theorem exists_minimal_rulesFor {v : Stylesheet}
    (hsub : order.Sublist (primary :: secondary themes)) (hmem : primary ∈ order)
    (hv : v.Lists (order.flatMap (Theme.plan space maker none options true))) :
    ∃ n, v.minimal = .ok n ∧ m.rulesFor maker.customizer order = n.listing := by
  have hlayers := hsep.layered_below hprimary hroot (List.Sublist.refl _) hmakes
  have hpart := hsep.isPart hprimary hroot hsub hmem hmakes
  obtain ⟨n, hn, hlisting⟩ := hu.exists_minimal_of_part hlayers hv hpart hm
  refine ⟨n, hn, ?_⟩
  rw [← hlisting, Stylesheet.rulesFor, List.map_flatMap,
    List.flatMap_congr fun t ht => (hmakes t (hsub.subset ht)).map_selector true]

/-- A rule of the minimal form is made for one theme. -/
theorem existsUnique_theme {r : Rule} (hr : r ∈ m.listing) :
    ∃! t, t ∈ themes ∧ r.selector ∈ t.selectors maker.customizer := by
  have hlayers := hsep.layered_below hprimary hroot (List.Sublist.refl _) hmakes
  rw [hu.listing_minimal hlayers (hu.settles_of_minimal hlayers hm).1] at hr
  obtain ⟨e, he, rfl⟩ := List.mem_map.mp (List.mem_filter.mp hr).1
  obtain ⟨t, ht, hplanned⟩ := List.mem_flatMap.mp he
  have hselector : e.selector ∈ t.selectors maker.customizer := by
    rw [← (hmakes t ht).map_selector true]
    exact List.mem_map_of_mem hplanned
  have hmem := hsep.order_subset hprimary ht
  exact ⟨t, ⟨hmem, hselector⟩, fun t' ⟨ht', hk⟩ =>
    hsep.theme_of_selector hmem ht' hselector hk⟩

end Below

/-- Below a theme at `:root` the others do not interfere, neither with it nor with one another. Each
rule of the minimal form is made for one theme. Those of the theme at `:root` are the minimal form
of its own sheet, and those of it and one other are the minimal form of the sheet of the two. It is
only for one of these sheets that the minimal form may fail. -/
theorem buildMulti_minimal_isolated (hsep : Separated maker.customizer themes)
    (hprimary : primary ∈ themes) (hroot : primary.selector = .text ":root")
    (h : buildMulti space maker themes options = .ok u) :
    ∃ p, ∃ pair : Theme → Stylesheet, buildSingle space maker primary none options = .ok p ∧
      (∀ t ∈ themes, t ≠ primary →
        buildMulti space maker [primary, t] options = .ok (pair t)) ∧
      ((∃ m, u.minimal = .ok m) ↔ (∃ n, p.minimal = .ok n) ∧
        ∀ t ∈ themes, t ≠ primary → ∃ n, (pair t).minimal = .ok n) ∧
      ∀ m, u.minimal = .ok m →
        (∀ r ∈ m.listing, ∃! t, t ∈ themes ∧ r.selector ∈ t.selectors maker.customizer) ∧
        (∃ n, p.minimal = .ok n ∧ m.rulesFor maker.customizer [primary] = n.listing) ∧
        ∀ t ∈ themes, t ≠ primary → ∃ n, (pair t).minimal = .ok n ∧
          m.rulesFor maker.customizer [primary, t] = n.listing := by
  obtain ⟨p, hp, hmakes', -⟩ := (buildMulti_eq_ok hsep hprimary hroot).mp h
  obtain ⟨hmakes, hlists⟩ := lists_of_buildMulti hsep hprimary hroot h
  have hothers : ∀ t ∈ themes, t ≠ primary → t ∈ secondary themes := by
    intro t ht hne
    refine hsep.mem_secondary.mpr ⟨ht, fun heq => hne ?_⟩
    exact List.inj_on_of_nodup_map hsep.distinctThemes ht hprimary (heq.trans hroot.symm)
  have hsub : ∀ t ∈ secondary themes, [primary, t].Sublist (primary :: secondary themes) :=
    fun t ht => (List.singleton_sublist.mpr ht).cons_cons primary
  -- the sheets of the parts
  have hsheet : Nonempty Stylesheet := ⟨{}⟩
  have hpairs : ∀ t ∈ themes, t ≠ primary → ∃ v,
      buildMulti space maker [primary, t] options = .ok v ∧
        v.Lists ([primary, t].flatMap (Theme.plan space maker none options true)) :=
    fun t ht hne => exists_buildMulti_pair hsep hprimary hroot hp (hothers t ht hne)
      (hmakes' t (hothers t ht hne))
  choose! pair hpair hpairLists using hpairs
  have hpLists : p.Lists ([primary].flatMap (Theme.plan space maker none options true)) := by
    simpa using (lists_of_buildSingle hsep hprimary hp).2 true fun _ => hroot
  have hfirst : ∀ m, u.minimal = .ok m →
      ∃ n, p.minimal = .ok n ∧ m.rulesFor maker.customizer [primary] = n.listing :=
    fun m hm => exists_minimal_rulesFor hsep hprimary hroot hmakes hlists hm (by simp) (by simp)
      hpLists
  have hboth : ∀ m, u.minimal = .ok m → ∀ t ∈ themes, t ≠ primary → ∃ n,
      (pair t).minimal = .ok n ∧ m.rulesFor maker.customizer [primary, t] = n.listing :=
    fun m hm t ht hne => exists_minimal_rulesFor hsep hprimary hroot hmakes hlists hm
      (hsub t (hothers t ht hne)) (by simp) (hpairLists t ht hne)
  refine ⟨p, pair, hp, hpair, ⟨?_, ?_⟩, fun m hm => ⟨fun r hr => ?_, hfirst m hm, hboth m hm⟩⟩
  · rintro ⟨m, hm⟩
    refine ⟨(hfirst m hm).imp fun n hn => hn.1, fun t ht hne => ?_⟩
    exact (hboth m hm t ht hne).imp fun n hn => hn.1
  · rintro ⟨⟨n, hn⟩, hall⟩
    have hlayers := hsep.layered_below hprimary hroot (List.Sublist.refl _) hmakes
    refine hlists.exists_minimal_of_parts hlayers fun e he => ?_
    obtain ⟨t, ht, hplanned⟩ := List.mem_flatMap.mp he
    obtain rfl | ht := List.mem_cons.mp ht
    · exact ⟨_, p, n, hsep.isPart hprimary hroot (by simp) (by simp) hmakes,
        List.mem_flatMap.mpr ⟨t, by simp, hplanned⟩, hpLists, hn⟩
    · have hmem := (hsep.mem_secondary.mp ht).1
      have hne : t ≠ primary := fun heq => (hsep.mem_secondary.mp ht).2 (heq ▸ hroot)
      obtain ⟨n, hn⟩ := hall t hmem hne
      exact ⟨_, pair t, n, hsep.isPart hprimary hroot (hsub t ht) (by simp) hmakes,
        List.mem_flatMap.mpr ⟨t, by simp, hplanned⟩, hpairLists t hmem hne, hn⟩
  · exact existsUnique_theme hsep hprimary hroot hmakes hlists hm hr

theorem buildMulti_minimal_isolated_site :
    Separated panelMaker.customizer [site, sidebar, panel] ∧ site.selector = .text ":root" ∧
      ∃ u m, buildMulti Cam16.space panelMaker [site, sidebar, panel] = .ok u ∧
        u.minimal = .ok m ∧
        (∃ p n, buildSingle Cam16.space panelMaker site = .ok p ∧ p.minimal = .ok n ∧
          m.rulesFor panelMaker.customizer [site] = n.listing) ∧
        ∃ v n, buildMulti Cam16.space panelMaker [site, panel] = .ok v ∧ v.minimal = .ok n ∧
          m.rulesFor panelMaker.customizer [site, panel] = n.listing := by
  obtain ⟨u, hu⟩ := exists_buildMulti_site
  have hfirst : site ∈ [site, sidebar, panel] := List.mem_cons_self
  obtain ⟨m, hm, -⟩ := exists_minimal_of_plain separated_site hfirst rfl isPlain_site
    (Registry.injective_of_nodup (by decide)) rfl hu
  obtain ⟨p, pair, hp, hpair, -, hall⟩ := buildMulti_minimal_isolated separated_site hfirst rfl hu
  obtain ⟨-, ⟨n, hn, hpage⟩, hboth⟩ := hall m hm
  have hmem : panel ∈ [site, sidebar, panel] := by simp
  have hne : panel ≠ site := by
    intro heq
    have hselector : Value.text ".p" = .text ":root" := congrArg Theme.selector heq
    simp at hselector
  obtain ⟨n', hn', hpanel⟩ := hboth panel hmem hne
  exact ⟨separated_site, rfl, u, m, hu, hm, ⟨p, n, hp, hn, hpage⟩, pair panel, n',
    hpair panel hmem hne, hn', hpanel⟩

end DesignTokens
