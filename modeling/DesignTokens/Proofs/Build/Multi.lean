import DesignTokens.Proofs.Build.Buildable
import DesignTokens.Proofs.Build.Secondary

/-!
The stylesheet of several themes. Whether one of them is at `:root` or not, the sheet lists the
plans of all themes, one after the other. Without a theme at `:root` each theme has a sheet of its
own, and these are put together; rules get other numbers then, and nothing else changes.

So the layers of the themes are layers of the sheet, and its paths are sound.
-/

namespace DesignTokens

/-! ### Sheets put together -/

/-- A place in a sheet that is put behind another one with so many rules. -/
def Placed.shift (offset : Nat) (p : Placed) : Placed := ⟨p.rule + offset, p.path.map (· + offset)⟩

namespace Stylesheet

variable {s t : Stylesheet} {plan plan' : List Planned}

/-- Rules of new selectors that are placed one after another stand behind the others. -/
theorem foldl_append {s : Stylesheet} {places : List (String × Placed)}
    (hselector : ∀ e ∈ places, (s.rule e.2.rule).selector = e.1)
    (hnodup : (s.placed.keys ++ places.map Prod.fst).Nodup) :
    (places.foldl (fun s e => s.append e.2.rule e.2.path) s).rules = s.rules ∧
      (places.foldl (fun s e => s.append e.2.rule e.2.path) s).placed.entries =
        s.placed.entries ++ places := by
  induction places generalizing s with
  | nil => simp
  | cons e places ih =>
      obtain ⟨hhead, htail⟩ := List.forall_mem_cons.mp hselector
      have hfresh : e.1 ∉ s.placed.keys := by
        rw [List.nodup_append] at hnodup
        exact fun hmem => hnodup.2.2 _ hmem e.1 (by simp) rfl
      have hentries : (s.append e.2.rule e.2.path).placed.entries = s.placed.entries ++ [e] := by
        simp only [append, hhead]
        rw [OrdMap.entries_insert_erase, List.filter_eq_self.mpr]
        intro d hd
        rw [bne_iff_ne]
        rintro heq
        exact hfresh (heq ▸ List.mem_map_of_mem hd)
      have hnodup' : ((s.append e.2.rule e.2.path).placed.keys ++ places.map Prod.fst).Nodup := by
        rw [OrdMap.keys, hentries, List.map_append, List.append_assoc]
        exact hnodup
      obtain ⟨hrules, hplaced⟩ := ih (s := s.append e.2.rule e.2.path) htail hnodup'
      rw [List.foldl_cons, hrules, hplaced, hentries, List.append_assoc]
      exact ⟨rfl, rfl⟩

theorem absorb_eq (s t : Stylesheet) : s.absorb t =
    (t.placed.entries.map fun e => (e.1, e.2.shift s.rules.length)).foldl
      (fun s e => s.append e.2.rule e.2.path) { s with rules := s.rules ++ t.rules } := by
  rw [absorb, OrdMap.values, List.foldl_map, List.foldl_map]
  rfl

/-- A sheet put behind another keeps its places, but for the numbers. -/
theorem placed_absorb (h : s.Lists plan) (h' : t.Lists plan')
    (hfresh : ∀ e ∈ plan', e.selector ∉ plan.map Planned.selector) :
    (s.absorb t).rules = s.rules ++ t.rules ∧ (s.absorb t).placed.entries =
      s.placed.entries ++ t.placed.entries.map fun e => (e.1, e.2.shift s.rules.length) := by
  rw [absorb_eq]
  refine foldl_append ?_ ?_
  · intro e he
    obtain ⟨d, hd, rfl⟩ := List.mem_map.mp he
    obtain ⟨e', -, -, hselector, -, hrule, -⟩ :=
      h'.exists_of_get?_placed (OrdMap.mem_entries_iff.mp hd)
    simp only [rule, Placed.shift] at hrule ⊢
    rw [List.getElem?_append_right (Nat.le_add_left _ _), Nat.add_sub_cancel, hrule]
    exact hselector
  · rw [List.map_map]
    refine List.nodup_append.mpr ⟨s.placed.nodup, t.placed.nodup, ?_⟩
    rintro k hk k' hk' rfl
    obtain ⟨e, he, -, rfl⟩ := h.mem_keys_iff.mp hk
    obtain ⟨e', he', -, heq⟩ := h'.mem_keys_iff.mp hk'
    exact hfresh e' he' (heq ▸ List.mem_map_of_mem he)

/-- Sheets of plans that do not meet are put together. -/
theorem Lists.absorb (h : s.Lists plan) (h' : t.Lists plan')
    (hfresh : ∀ e ∈ plan', e.selector ∉ plan.map Planned.selector)
    (hparents : ∀ e ∈ plan, ∀ k ∈ e.parents, k ∉ plan'.map Planned.selector)
    (hparents' : ∀ e ∈ plan', ∀ k ∈ e.parents, k ∉ plan.map Planned.selector) :
    (s.absorb t).Lists (plan ++ plan') := by
  obtain ⟨hrules, hentries⟩ := placed_absorb h h' hfresh
  have hget : ∀ k, (s.absorb t).placed.get? k =
      (s.placed.get? k).or ((t.placed.get? k).map (Placed.shift s.rules.length)) := by
    intro k
    rw [OrdMap.get?, hentries, List.lookup_append,
      Entries.lookup_mapValues fun _ => Placed.shift s.rules.length]
    rfl
  have hnone : ∀ k, s.find? k = none → s.placed.get? k = none :=
    fun k hk => Option.map_eq_none_iff.mp hk
  have hnone' : ∀ k, t.find? k = none → t.placed.get? k = none :=
    fun k hk => Option.map_eq_none_iff.mp hk
  refine ⟨?_, ?_⟩
  · have hkeys : (s.absorb t).placed.keys = s.placed.keys ++ t.placed.keys := by
      rw [OrdMap.keys, hentries, List.map_append, List.map_map]
      rfl
    rw [hkeys, h.order, h'.order, List.filter_append, List.map_append]
  · intro e he hfilled
    obtain he | he := List.mem_append.mp he
    · obtain ⟨id, hid, hrule, hplace⟩ := h.place e he hfilled
      refine ⟨id, ?_, ?_, ?_⟩
      · rw [hrules, List.length_append]
        omega
      · rw [rule, hrules, List.getElem?_append_left hid]
        exact hrule
      · have hpath : e.parents.filterMap (s.absorb t).find? = e.parents.filterMap s.find? := by
          refine List.filterMap_congr fun k hk => ?_
          rw [find?, find?, hget, hnone' k (h'.find?_eq_none (hparents e he k hk))]
          simp
        rw [hget, hplace, hpath]
        rfl
    · obtain ⟨id, hid, hrule, hplace⟩ := h'.place e he hfilled
      refine ⟨id + s.rules.length, ?_, ?_, ?_⟩
      · rw [hrules, List.length_append]
        omega
      · rw [rule, hrules, List.getElem?_append_right (Nat.le_add_left _ _), Nat.add_sub_cancel]
        exact hrule
      · have hpath : e.parents.filterMap (s.absorb t).find? =
            (e.parents.filterMap t.find?).map (· + s.rules.length) := by
          rw [List.map_filterMap]
          refine List.filterMap_congr fun k hk => ?_
          rw [find?, find?, hget, hnone k (h.find?_eq_none (hparents' e he k hk)), Option.none_or,
            Option.map_map, Option.map_map]
          rfl
        rw [hget, hplace, hnone _ (h.find?_eq_none (hfresh e he)), hpath]
        rfl

end Stylesheet

/-! ### Themes by their part -/

namespace Separated

variable {customizer : Customizer} {themes : List Theme} {primary t : Theme}

/-- Of classes and `:root` only `:root` is page-wide. -/
theorem isGlobal_eq (h : Separated customizer themes) (ht : t ∈ themes) :
    t.isGlobal = decide (t.selector.display = ":root") := by
  obtain heq | ⟨s, heq, hclass⟩ := h.theme t ht
  · rw [Theme.isGlobal, heq]
    rfl
  · obtain ⟨name, hname, -⟩ := Selector.exists_name_of_isClass hclass
    have hne : ∀ word ∈ Selector.globals, s ≠ word := by
      rintro word hword rfl
      simp only [Selector.globals, List.mem_cons, List.not_mem_nil, or_false] at hword
      obtain rfl | rfl | rfl := hword <;> cases hname
    have hglobal : Selector.isGlobal s = false := by
      rw [Selector.isGlobal, ← Bool.not_eq_true, List.contains_iff_mem]
      exact fun hmem => hne s hmem rfl
    have hroot : s ≠ ":root" := hne ":root" (by simp [Selector.globals])
    rw [Theme.isGlobal, heq]
    simp [Value.text?, Value.display, hglobal, hroot]

/-- There is one theme at `:root`. -/
theorem filter_isGlobal (h : Separated customizer themes) (hprimary : primary ∈ themes)
    (hroot : primary.selector = .text ":root") : themes.filter Theme.isGlobal = [primary] := by
  have hglobal : primary.isGlobal = true := by
    rw [h.isGlobal_eq hprimary, hroot]
    rfl
  have hsame : ∀ t ∈ themes.filter Theme.isGlobal, t = primary := by
    intro t ht
    obtain ⟨ht, hpage⟩ := List.mem_filter.mp ht
    rw [h.isGlobal_eq ht, decide_eq_true_eq] at hpage
    refine List.inj_on_of_nodup_map h.distinctThemes ht hprimary ?_
    rw [h.selector_text ht, hpage, hroot]
  have hnodup : (themes.filter Theme.isGlobal).Nodup := h.distinctThemes.of_map.filter _
  have hmem : primary ∈ themes.filter Theme.isGlobal := List.mem_filter.mpr ⟨hprimary, hglobal⟩
  match hfilter : themes.filter Theme.isGlobal with
  | [] =>
      rw [hfilter] at hmem
      cases hmem
  | [t] => rw [hsame t (by simp [hfilter])]
  | t :: u :: rest =>
      rw [hfilter] at hnodup hsame
      have heq : t = u := (hsame t (by simp)).trans (hsame u (by simp)).symm
      simp [heq] at hnodup

/-- Without a theme at `:root` no theme is page-wide. -/
theorem filter_isGlobal_eq_nil (h : Separated customizer themes)
    (hroot : ∀ t ∈ themes, t.selector ≠ .text ":root") : themes.filter Theme.isGlobal = [] := by
  refine List.filter_eq_nil_iff.mpr fun t ht => ?_
  rw [h.isGlobal_eq ht, decide_eq_true_eq]
  intro hdisplay
  exact hroot t ht (by rw [h.selector_text ht, hdisplay])

end Separated

/-- The themes but for the page-wide ones. -/
def secondary (themes : List Theme) : List Theme := themes.filter fun t => !t.isGlobal

namespace Separated

variable {customizer : Customizer} {themes : List Theme} {primary t : Theme}

theorem mem_secondary (h : Separated customizer themes) :
    t ∈ secondary themes ↔ t ∈ themes ∧ t.selector ≠ .text ":root" := by
  rw [secondary, List.mem_filter]
  refine and_congr_right fun ht => ?_
  rw [h.isGlobal_eq ht, Bool.not_eq_true', decide_eq_false_iff_not, not_iff_not]
  constructor
  · intro hdisplay
    rw [h.selector_text ht, hdisplay]
  · intro hroot
    rw [hroot]
    rfl

/-- The order in which themes are built: the one at `:root` first. -/
theorem nodup_order (h : Separated customizer themes)
    (hroot : primary.selector = .text ":root") :
    ((primary :: secondary themes).map Theme.selector).Nodup := by
  rw [List.map_cons, List.nodup_cons]
  refine ⟨fun hmem => ?_, ?_⟩
  · obtain ⟨t, ht, heq⟩ := List.mem_map.mp hmem
    exact (h.mem_secondary.mp ht).2 (heq.trans hroot)
  · exact h.distinctThemes.sublist (List.filter_sublist.map _)

theorem order_subset (h : Separated customizer themes) (hprimary : primary ∈ themes) :
    primary :: secondary themes ⊆ themes :=
  List.cons_subset.mpr ⟨hprimary, fun _ ht => (h.mem_secondary.mp ht).1⟩

theorem pairwise_order (h : Separated customizer themes) (primary : Theme) :
    (primary :: secondary themes).Pairwise fun _ t => t.selector ≠ .text ":root" := by
  have hother : ∀ t ∈ secondary themes, t.selector ≠ .text ":root" :=
    fun t ht => (h.mem_secondary.mp ht).2
  exact List.pairwise_cons.mpr
    ⟨hother, List.pairwise_of_forall_mem_list fun _ _ t ht => hother t ht⟩

/-- Below a theme at `:root` one other is all there is. -/
theorem secondary_pair (h : Separated customizer [primary, t])
    (hroot : primary.selector = .text ":root") : secondary [primary, t] = [t] := by
  have hglobal : primary.isGlobal = true := by
    rw [h.isGlobal_eq (by simp), hroot]
    rfl
  have hother : t.selector ≠ .text ":root" := by
    have hnodup := h.distinctThemes
    simp only [List.map_cons, List.map_nil, List.nodup_cons, List.mem_singleton] at hnodup
    exact fun heq => hnodup.1 (hroot.trans heq.symm)
  have hdisplay : t.selector.display ≠ ":root" := fun heq =>
    hother ((h.selector_text (by simp)).trans (congrArg Value.text heq))
  have hlocal : t.isGlobal = false := by
    rw [h.isGlobal_eq (by simp), decide_eq_false hdisplay]
  simp [secondary, hglobal, hlocal]

end Separated

/-! ### Sheets of themes -/

variable {N : Type} [Add N] [Sub N] [Mul N] [Div N] [LE N] [LT N] [DecidableLE N] [DecidableLT N]
  [OfScientific N] {space : ColorSpace N} {maker : RuleMaker} {base : Option Theme}
  {options : ResolveOptions} {themes order : List Theme} {primary t : Theme} {s u : Stylesheet}

/-- A theme alone makes its rules, and its sheet lists them. -/
theorem lists_of_buildSingle (hsep : Separated maker.customizer themes) (ht : t ∈ themes)
    (h : buildSingle space maker t base options = .ok s) :
    t.Makes space maker base options ∧ ∀ below : Bool,
      (below = true → t.selector = .text ":root") →
        s.Lists (t.plan space maker base options below) := by
  obtain ⟨resolution, root?, hresolve, hbuilt⟩ :=
    built_of_buildSingle (hsep.distinctSelectors ht) h
  have hbuild : t.build maker base options = ⟨maker, t, base, options, resolution⟩ :=
    Theme.build_eq hresolve
  refine ⟨⟨⟨resolution, hresolve⟩, fun q hq =>
    ⟨(t.build maker base options).rule space q, ?_⟩⟩, fun below hbelow => ?_⟩
  · rw [hbuild]
    exact hbuilt.made q hq
  · have hplan : t.plan space maker base options below =
        t.places.map ((t.build maker base options).planned space) := by
      rw [Theme.plan, hbuild]
      exact List.map_congr_left fun q hq =>
        SingleBuild.entry_eq_planned hsep ht (Place.isOf_of_mem hq) hbelow
    rw [hplan, hbuild]
    exact hbuilt.follows.lists

namespace Separated

variable (hsep : Separated maker.customizer themes) {below : Bool}

include hsep

/-- A planned rule of a theme has a spot. -/
theorem exists_spot (ht : t ∈ themes) (hmakes : t.Makes space maker base options) {e : Planned}
    (he : e ∈ t.plan space maker base options below) :
    ∃ a ∈ t.spots, e.selector = a.selector maker.customizer ∧
      e.parents = (a.parents below).map (Spot.selector maker.customizer) := by
  have hmem : e.outline ∈ (t.plan space maker base options below).map Planned.outline :=
    List.mem_map_of_mem he
  rw [hmakes.map_outline hsep ht] at hmem
  obtain ⟨a, ha, heq⟩ := List.mem_map.mp hmem
  exact ⟨a, ha, (congrArg Prod.fst heq).symm, (congrArg Prod.snd heq).symm⟩

/-- No rule of a theme has the selector of a spot of another. -/
theorem notMem_plans (hsub : order ⊆ themes)
    (hmakes : ∀ t ∈ order, t.Makes space maker base options) {a : Spot} (ha : a.Of hsep.vocabulary)
    (hother : ∀ t ∈ order, a.theme ≠ t.selector.display) : a.selector maker.customizer ∉
      (order.flatMap (Theme.plan space maker base options below)).map Planned.selector := by
  intro hmem
  obtain ⟨e, he, heq⟩ := List.mem_map.mp hmem
  obtain ⟨t, ht, he⟩ := List.mem_flatMap.mp he
  obtain ⟨a', ha', hselector, -⟩ := hsep.exists_spot (hsub ht) (hmakes t ht) he
  obtain rfl := hsep.eq_of_selector_eq ha (hsep.of_mem_spots (hsub ht) ha')
    (heq.symm.trans hselector)
  exact hother t ht (Theme.theme_of_mem_spots ha')

/-- Without a theme at `:root` themes have nothing to do with the rules of one another. -/
theorem notMem_plans_of_mem {order' : List Theme} (hsub : order ⊆ themes) (hsub' : order' ⊆ themes)
    (hmakes : ∀ t ∈ order, t.Makes space maker base options)
    (hmakes' : ∀ t ∈ order', t.Makes space maker base options)
    (hdisjoint : ∀ t ∈ order, ∀ t' ∈ order', t.selector ≠ t'.selector) {e : Planned}
    (he : e ∈ order.flatMap (Theme.plan space maker base options false)) :
    ∀ k ∈ e.selector :: e.parents, k ∉
      (order'.flatMap (Theme.plan space maker base options false)).map Planned.selector := by
  obtain ⟨t, ht, he⟩ := List.mem_flatMap.mp he
  obtain ⟨a, ha, hselector, hparents⟩ := hsep.exists_spot (hsub ht) (hmakes t ht) he
  have hof := hsep.of_mem_spots (hsub ht) ha
  intro k hk
  obtain ⟨b, hb, htheme, rfl⟩ : ∃ b : Spot, b.Of hsep.vocabulary ∧ b.theme = a.theme ∧
      b.selector maker.customizer = k := by
    rw [hselector, hparents] at hk
    obtain rfl | hk := List.mem_cons.mp hk
    · exact ⟨a, hof, rfl, rfl⟩
    · obtain ⟨b, hb, rfl⟩ := List.mem_map.mp hk
      have hfalse : ¬(false = true ∧ b.theme = ":root") := fun h => Bool.noConfusion h.1
      exact ⟨b, hof.of_mem_parents (fun h => Bool.noConfusion h) hb,
        (Spot.theme_of_mem_parents hb).resolve_right hfalse, rfl⟩
  refine hsep.notMem_plans hsub' hmakes' hb fun t' ht' heq => hdisjoint t ht t' ht' ?_
  rw [hsep.selector_text (hsub ht), hsep.selector_text (hsub' ht'), ← heq, htheme,
    Theme.theme_of_mem_spots ha]

theorem layered_plans (hsub : order ⊆ themes) (hnodup : (order.map Theme.selector).Nodup)
    (hbelow : below = true → (∃ t ∈ themes, t.selector = .text ":root") ∧
      order.Pairwise fun _ t => t.selector ≠ .text ":root")
    (hmakes : ∀ t ∈ order, t.Makes space maker base options) :
    Layered ((order.flatMap (Theme.plan space maker base options below)).map Planned.outline) := by
  have hframe : (order.flatMap (Theme.plan space maker base options below)).map Planned.outline =
      frame maker.customizer below order := by
    rw [frame, List.map_flatMap, List.map_flatMap]
    exact List.flatMap_congr fun t ht => (hmakes t ht).map_outline hsep (hsub ht) below
  rw [hframe]
  exact hsep.layered hsub hnodup hbelow

end Separated

/-! ### Several themes -/

section Below

variable (hsep : Separated maker.customizer themes) (hprimary : primary ∈ themes)
  (hroot : primary.selector = .text ":root")

include hsep hprimary hroot

theorem Separated.layered_below (hsub : order.Sublist (primary :: secondary themes))
    (hmakes : ∀ t ∈ order, t.Makes space maker none options) :
    Layered ((order.flatMap (Theme.plan space maker none options true)).map Planned.outline) := by
  have hnodup := (hsep.nodup_order hroot).sublist (hsub.map Theme.selector)
  exact hsep.layered_plans (List.Subset.trans hsub.subset (hsep.order_subset hprimary)) hnodup
    (fun _ => ⟨⟨primary, hprimary, hroot⟩, (hsep.pairwise_order primary).sublist hsub⟩) hmakes

/-- The plans of some more themes are put below that of the theme at `:root`. -/
theorem lists_foldl_put (done : List Theme) {more : List Theme}
    (hsub : (primary :: done ++ more).Sublist (primary :: secondary themes))
    (hmakes : ∀ t ∈ primary :: done ++ more, t.Makes space maker none options)
    (hs : s.Lists ((primary :: done).flatMap (Theme.plan space maker none options true))) :
    ((more.flatMap (Theme.plan space maker none options true)).foldl Stylesheet.put s).Lists
      ((primary :: done ++ more).flatMap (Theme.plan space maker none options true)) := by
  have hlayers := hsep.layered_below hprimary hroot hsub hmakes
  rw [List.flatMap_append] at hlayers ⊢
  exact hs.foldl_put hlayers

/-- With a theme at `:root` the plans of the others are put into its sheet. -/
theorem buildMulti_eq_ok : buildMulti space maker themes options = .ok u ↔
    ∃ s, buildSingle space maker primary none options = .ok s ∧
      (∀ t ∈ secondary themes, t.Makes space maker none options) ∧
      u = ((secondary themes).flatMap (Theme.plan space maker none options true)).foldl
        Stylesheet.put s := by
  have hcast : Cast.ofThemes themes = .ok (.under primary (secondary themes)) := by
    rw [Cast.ofThemes, hsep.filter_isGlobal hprimary hroot]
    rfl
  rw [buildMulti, hcast]
  simp only [Outcome.bind_eq_ok, Except.ok.injEq, exists_eq_left']
  refine exists_congr fun s => and_congr_right fun hs => ?_
  obtain ⟨hmakes, hlists⟩ := lists_of_buildSingle hsep hprimary hs
  rw [List.foldl_flatMap]
  refine Outcome.foldlM_eq_ok (fun done s => (∀ t ∈ primary :: done,
    t.Makes space maker none options) ∧
      s.Lists ((primary :: done).flatMap (Theme.plan space maker none options true))) ?_ ?_
  · exact ⟨by simpa using hmakes, by simpa using hlists true fun _ => hroot⟩
  · rintro done t rest s' hsecondary ⟨hdone, hs'⟩
    have hsub : (primary :: done ++ [t]).Sublist (primary :: secondary themes) := by
      have hsplit : secondary themes = done ++ [t] ++ rest := by rw [hsecondary, List.append_cons]
      rw [hsplit, List.cons_append]
      exact (List.sublist_append_left _ rest).cons_cons primary
    have hsub' : primary :: done ⊆ themes := fun t ht =>
      hsep.order_subset hprimary (hsub.subset (List.mem_append_left _ ht))
    obtain ⟨ht, hother⟩ := hsep.mem_secondary.mp (hsecondary ▸ by simp : t ∈ secondary themes)
    -- the theme differs from those before it, so its own rule is not in the sheet
    have hfresh : s'.find? (Spot.selector maker.customizer ⟨t.selector.display, none, none⟩) =
        none := by
      refine hs'.find?_eq_none (hsep.notMem_plans hsub' hdone ?_ fun t' ht' heq => ?_)
      · exact ⟨⟨t, ht, hsep.selector_text ht⟩, by simp, by simp, fun _ => rfl⟩
      · have hnodup := (hsep.nodup_order hroot).sublist (hsub.map Theme.selector)
        rw [List.map_append, List.nodup_append] at hnodup
        refine hnodup.2.2 _ (List.mem_map_of_mem ht') t.selector (by simp) ?_
        rw [hsep.selector_text ht, hsep.selector_text (hsub' ht')]
        exact congrArg Value.text heq.symm
    refine ⟨fun u => addSecondary_eq_ok hsep hprimary ht hroot hother hfresh, fun hmake => ?_⟩
    have hall : ∀ t' ∈ primary :: done ++ [t], t'.Makes space maker none options := by
      intro t' ht'
      obtain ht' | rfl := List.mem_append.mp ht' |>.imp_right List.mem_singleton.mp
      · exact hdone t' ht'
      · exact hmake
    have hput := lists_foldl_put hsep hprimary hroot done hsub hall hs'
    rw [List.flatMap_singleton] at hput
    exact ⟨hall, hput⟩

/-- The sheet lists the plan of the theme at `:root` and then those of the others. -/
theorem lists_of_buildMulti (h : buildMulti space maker themes options = .ok u) :
    (∀ t ∈ primary :: secondary themes, t.Makes space maker none options) ∧
      u.Lists ((primary :: secondary themes).flatMap
        (Theme.plan space maker none options true)) := by
  obtain ⟨s, hs, hmakes, rfl⟩ := (buildMulti_eq_ok hsep hprimary hroot).mp h
  obtain ⟨hmakes', hlists⟩ := lists_of_buildSingle hsep hprimary hs
  have hall : ∀ t ∈ primary :: secondary themes, t.Makes space maker none options :=
    List.forall_mem_cons.mpr ⟨hmakes', hmakes⟩
  refine ⟨hall, lists_foldl_put hsep hprimary hroot [] (by simp) hall ?_⟩
  simpa using hlists true fun _ => hroot

/-- The sheet of plain themes has a minimal form. -/
theorem exists_minimal_of_plain (hplain : ∀ t ∈ themes, t.IsPlain)
    (hinj : maker.registry.Injective) (hvars : options.useVars = false)
    (h : buildMulti space maker themes options = .ok u) :
    ∃ m, u.minimal = .ok m ∧ m.IsSettledOf u := by
  obtain ⟨hmakes, hlists⟩ := lists_of_buildMulti hsep hprimary hroot h
  have hlayers := hsep.layered_below hprimary hroot (List.Sublist.refl _) hmakes
  have htextual := Theme.textual_plans true hmakes
    (fun t ht => hplain t (hsep.order_subset hprimary ht)) hinj hvars
  exact hlists.exists_minimal_of_textual hlayers htextual

end Below

/-- Without a theme at `:root` the sheet of one more theme is put behind those of others. -/
theorem lists_absorb (hsep : Separated maker.customizer themes) {done : List Theme}
    (hsub : done ++ [t] ⊆ themes) (hnodup : ((done ++ [t]).map Theme.selector).Nodup)
    (hmakes : ∀ t' ∈ done ++ [t], t'.Makes space maker none options)
    (hs : s.Lists (done.flatMap (Theme.plan space maker none options false)))
    (hu : u.Lists (t.plan space maker none options false)) :
    (s.absorb u).Lists ((done ++ [t]).flatMap (Theme.plan space maker none options false)) := by
  obtain ⟨hdone, hself⟩ := List.forall_mem_append.mp hmakes
  have hsubDone : done ⊆ themes := fun t' ht' => hsub (List.mem_append_left _ ht')
  have hsubSelf : [t] ⊆ themes := fun t' ht' => hsub (List.mem_append_right _ ht')
  have hother : ∀ t' ∈ done, ∀ t'' ∈ [t], t'.selector ≠ t''.selector := by
    rw [List.map_append] at hnodup
    exact fun t' ht' t'' ht'' => (List.nodup_append.mp hnodup).2.2 _ (List.mem_map_of_mem ht') _
      (List.mem_map_of_mem ht'')
  rw [← List.flatMap_singleton (Theme.plan space maker none options false) t] at hu
  rw [List.flatMap_append]
  -- neither has anything to do with the rules of the other
  have hforth : ∀ e ∈ done.flatMap (Theme.plan space maker none options false),
      ∀ k ∈ e.selector :: e.parents, k ∉
        ([t].flatMap (Theme.plan space maker none options false)).map Planned.selector :=
    fun e he => hsep.notMem_plans_of_mem hsubDone hsubSelf hdone hself hother he
  have hback : ∀ e ∈ [t].flatMap (Theme.plan space maker none options false),
      ∀ k ∈ e.selector :: e.parents, k ∉
        (done.flatMap (Theme.plan space maker none options false)).map Planned.selector :=
    fun e he => hsep.notMem_plans_of_mem hsubSelf hsubDone hself hdone
      (fun t'' ht'' t' ht' => (hother t' ht' t'' ht'').symm) he
  exact hs.absorb hu (fun e he => hback e he _ List.mem_cons_self)
    (fun e he k hk => hforth e he k (List.mem_cons_of_mem _ hk))
    fun e he k hk => hback e he k (List.mem_cons_of_mem _ hk)

/-- The sheets of the themes are put together as they come then. -/
theorem buildMulti_apart (hsep : Separated maker.customizer themes)
    (hroot : ∀ t ∈ themes, t.selector ≠ .text ":root") : buildMulti space maker themes options =
      themes.foldlM (fun s t => s.absorb <$> buildSingle space maker t none options) {} := by
  rw [buildMulti, Cast.ofThemes, hsep.filter_isGlobal_eq_nil hroot]
  rfl

/-- So the sheet lists the plans of the themes in this order. -/
theorem lists_of_buildMulti_apart (hsep : Separated maker.customizer themes)
    (hroot : ∀ t ∈ themes, t.selector ≠ .text ":root")
    (h : buildMulti space maker themes options = .ok u) :
    (∀ t ∈ themes, t.Makes space maker none options) ∧
      u.Lists (themes.flatMap (Theme.plan space maker none options false)) := by
  rw [buildMulti_apart hsep hroot] at h
  refine Outcome.foldlM_induction (fun done s => (∀ t ∈ done, t.Makes space maker none options) ∧
    s.Lists (done.flatMap (Theme.plan space maker none options false))) ?_ ?_ h
  · exact ⟨by simp, Stylesheet.Lists.start⟩
  · rintro done t rest s' u' hthemes ⟨hdone, hs'⟩ hstep
    obtain ⟨s, hs, rfl⟩ := Outcome.map_eq_ok.mp hstep
    have hfront : (done ++ [t]).Sublist themes := by
      have hsplit : themes = done ++ [t] ++ rest := by rw [hthemes, List.append_cons]
      exact hsplit ▸ List.sublist_append_left _ rest
    have ht : t ∈ themes := hfront.subset (by simp)
    obtain ⟨hmake, hlists⟩ := lists_of_buildSingle hsep ht hs
    have hmakes : ∀ t' ∈ done ++ [t], t'.Makes space maker none options :=
      List.forall_mem_append.mpr ⟨hdone, List.forall_mem_singleton.mpr hmake⟩
    exact ⟨hmakes, lists_absorb hsep hfront.subset
      (hsep.distinctThemes.sublist (hfront.map Theme.selector)) hmakes hs'
      (hlists false fun hfalse => Bool.noConfusion hfalse)⟩

/-! ### Paths -/

/-- Paths are sound in all sheets of themes that can be told apart: in those of several themes, and
in those of one theme, alone or on top of a base. -/
theorem Stylesheet.soundPaths_of_build (space : ColorSpace N) :
    (∀ (maker : RuleMaker) (themes : List Theme) (options : ResolveOptions) (u : Stylesheet),
      Separated maker.customizer themes → buildMulti space maker themes options = .ok u →
        u.SoundPaths) ∧
    ∀ (maker : RuleMaker) (t : Theme) (base : Option Theme) (options : ResolveOptions)
      (s : Stylesheet), Separated maker.customizer [t] →
        buildSingle space maker t base options = .ok s → s.SoundPaths := by
  refine ⟨fun maker themes options u hsep hbuild => ?_,
    fun maker t base options s hsep hbuild => ?_⟩
  · by_cases hroot : ∃ primary ∈ themes, primary.selector = .text ":root"
    · obtain ⟨primary, hprimary, hroot⟩ := hroot
      obtain ⟨hmakes, hlists⟩ := lists_of_buildMulti hsep hprimary hroot hbuild
      exact hlists.soundPaths (hsep.layered_below hprimary hroot (List.Sublist.refl _) hmakes)
    · have hother : ∀ t ∈ themes, t.selector ≠ .text ":root" :=
        fun t ht heq => hroot ⟨t, ht, heq⟩
      obtain ⟨hmakes, hlists⟩ := lists_of_buildMulti_apart hsep hother hbuild
      exact hlists.soundPaths (hsep.layered_plans (List.Subset.refl _) hsep.distinctThemes
        (fun hfalse => Bool.noConfusion hfalse) hmakes)
  · obtain ⟨hmakes, hlists⟩ := lists_of_buildSingle hsep (List.mem_singleton_self t) hbuild
    have hsheet : s.Lists ([t].flatMap (Theme.plan space maker base options false)) := by
      simpa using hlists false fun hfalse => Bool.noConfusion hfalse
    exact hsheet.soundPaths (hsep.layered_plans (List.Subset.refl _) hsep.distinctThemes
      (fun hfalse => Bool.noConfusion hfalse) (by simpa using hmakes))

/-! ### A site with a panel -/

/-- A site whose ink is light where it is dark. -/
def site : Theme where
  id := "site"
  selector := ":root"
  tokens := .ofList [("ink", .states (.ofList [("light", "black"), ("dark", "white")]))]
  modes := .ofList [("lighting", lighting)]
  bindings := .ofList [("ink", "lighting")]

/-- A part of the site with an ink that does not depend on light. -/
def sidebar : Theme where
  id := "sidebar"
  selector := ".s"
  tokens := .ofList [("ink", .text "black")]

theorem separated_site : Separated panelMaker.customizer [site, sidebar, panel] := by
  have hselector : site.selector = .text ":root" ∧ sidebar.selector = .text ".s" ∧
      panel.selector = .text ".p" := ⟨rfl, rfl, rfl⟩
  have hpage : site.optionalStates = [dark] ∧ site.contexts.values = [] := ⟨rfl, rfl⟩
  have hsidebar : sidebar.optionalStates = [] ∧ sidebar.contexts.values = [] := ⟨rfl, rfl⟩
  have hpanel : panel.optionalStates = [dark] ∧ panel.contexts.values = [card] := ⟨rfl, rfl⟩
  have hclass : Selector.isClass ".s" = true ∧ Selector.isClass ".p" = true ∧
      Selector.isClass ".d" = true ∧ Selector.isClass ".c" = true := by decide
  refine ⟨fun _ _ h => h, ?_, ?_, ?_, ?_, ?_, ?_, ?_, ?_, ?_⟩ <;>
    simp [hselector, hpage, hsidebar, hpanel, hclass, Value.IsClass, dark, card]

theorem isPlain_site : ∀ t ∈ [site, sidebar, panel], t.IsPlain := by
  have hstates : ∀ light dark : String, ∀ e ∈ [("light", Value.text light), ("dark", .text dark)],
      ∃ s, e.2 = .text s := by simp
  intro t ht
  simp only [List.mem_cons, List.not_mem_nil, or_false] at ht
  obtain rfl | rfl | rfl := ht
  · refine ⟨PlainTokens.of_entries (List.forall_mem_singleton.mpr (hstates _ _)), fun c hc => ?_⟩
    cases hc
  · refine ⟨PlainTokens.of_entries (List.forall_mem_singleton.mpr trivial), fun c hc => ?_⟩
    cases hc
  · exact panel_buildable.plain

theorem exists_buildMulti_site :
    ∃ u, buildMulti Cam16.space panelMaker [site, sidebar, panel] = .ok u :=
  Outcome.exists_of_isOk rfl

theorem Stylesheet.soundPaths_of_build_site :
    Separated panelMaker.customizer [site, sidebar, panel] ∧
      (∃ u, buildMulti Cam16.space panelMaker [site, sidebar, panel] = .ok u ∧ u.SoundPaths) ∧
      ∃ s, buildSingle Cam16.space panelMaker panel (some site) = .ok s ∧ s.SoundPaths := by
  obtain ⟨hmulti, hsingle⟩ := soundPaths_of_build Cam16.space
  obtain ⟨u, hu⟩ := exists_buildMulti_site
  obtain ⟨s, hs⟩ : ∃ s, buildSingle Cam16.space panelMaker panel (some site) = .ok s :=
    Outcome.exists_of_isOk rfl
  have hpanel : Separated panelMaker.customizer [panel] :=
    separated_site.of_subset (by simp) (List.nodup_singleton _)
  exact ⟨separated_site, ⟨u, hu, hmulti _ _ _ u separated_site hu⟩,
    s, hs, hsingle _ _ _ _ s hpanel hs⟩

end DesignTokens
