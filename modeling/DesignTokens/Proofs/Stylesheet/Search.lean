import DesignTokens.Proofs.Stylesheet.Change
import DesignTokens.Proofs.Text.Digits
import DesignTokens.Stylesheet.Depth
import Mathlib.Data.List.Perm.Subperm

/-!
What the search for a change decides. From a property, references lead to the first property that
its text names, from that one to the next, and so on; they may lead round in a circle. The search
tells whether a property on this chain has another value than it is given. It visits no property
twice and none behind the first one that is not declared, so it ends, within as many steps as there
are declarations. Only a value that is no text stops it without an answer.
-/

namespace DesignTokens

/-! ### References in texts -/

/-- A text starts with a reference to a property: two hyphens and a name, which ends at the first
closing parenthesis. -/
def StartsWithVar (cs property : List Char) : Prop :=
  ∃ name rest, property = '-' :: '-' :: name ∧ name ≠ [] ∧ ')' ∉ name ∧
    cs = "var(".toList ++ property ++ ')' :: rest

/-- The first reference in a text is to a property. -/
def FirstVar (cs property : List Char) : Prop :=
  ∃ before after, cs = before ++ after ∧ StartsWithVar after property ∧
    ∀ earlier later other, earlier.length < before.length → cs = earlier ++ later →
      ¬ StartsWithVar later other

theorem varAtFront?_eq_some_iff {cs property : List Char} :
    varAtFront? cs = some property ↔ StartsWithVar cs property := by
  unfold varAtFront?
  rw [Option.bind_eq_bind, Option.bind_eq_some_iff]
  constructor
  · rintro ⟨rest, hrest, h⟩
    rw [Text.dropFront?_eq_some_iff] at hrest
    dsimp only at h
    split at h
    · cases h
    · next hnot =>
        obtain rfl := Option.some.inj h
        obtain ⟨name, tail, hsplit, hname, -, hfree, htail⟩ :=
          Text.exists_run (· != ')') rest
        simp only [hname, Bool.or_eq_true, List.isEmpty_iff, beq_iff_eq, not_or] at hnot ⊢
        -- the rest is longer than the name, so that a closing parenthesis follows
        cases tail with
        | nil => exact absurd (by rw [hsplit, List.append_nil]) hnot.2
        | cons c tail =>
            obtain rfl : c = ')' := by simpa using htail c rfl
            refine ⟨name, tail, rfl, hnot.1, fun hmem => by simpa using hfree _ hmem, ?_⟩
            rw [hrest, hsplit]
            rfl
  · rintro ⟨name, rest, rfl, hne, hfree, rfl⟩
    refine ⟨name ++ ')' :: rest, Text.dropFront?_eq_some_iff.mpr rfl, ?_⟩
    have hpass : ∀ c ∈ name, (c != ')') = true := by
      intro c hc
      rw [bne_iff_ne]
      rintro rfl
      exact hfree hc
    rw [Text.takeWhile_run hpass (by simp), if_neg]
    simp [hne]

theorem firstVarChars?_eq_some_iff {cs property : List Char} :
    firstVarChars? cs = some property ↔ FirstVar cs property := by
  induction cs generalizing property with
  | nil =>
      constructor
      · intro h
        cases h
      · rintro ⟨before, after, happend, ⟨name, rest, -, -, -, hafter⟩, -⟩
        simp [hafter] at happend
  | cons c cs ih =>
      rw [firstVarChars?, Option.or_eq_some_iff, ih, varAtFront?_eq_some_iff]
      constructor
      · rintro (hhere | ⟨hnot, before, after, rfl, hafter, hfirst⟩)
        · exact ⟨[], c :: cs, rfl, hhere, by simp⟩
        · refine ⟨c :: before, after, rfl, hafter, ?_⟩
          intro earlier later other hlength happend hlater
          cases earlier with
          | nil =>
              rw [← List.nil_append later, ← happend, ← varAtFront?_eq_some_iff, hnot] at hlater
              cases hlater
          | cons d earlier =>
              obtain ⟨-, happend⟩ := List.cons.inj happend
              exact hfirst earlier later other (Nat.lt_of_succ_lt_succ hlength) happend hlater
      · rintro ⟨before, after, happend, hafter, hfirst⟩
        cases before with
        | nil => exact .inl (happend ▸ hafter)
        | cons b before =>
            obtain ⟨rfl, rfl⟩ := List.cons.inj happend
            refine .inr ⟨?_, before, after, rfl, hafter, ?_⟩
            · rw [Option.eq_none_iff_forall_ne_some]
              intro other hother
              exact hfirst [] _ other (by simp) rfl (varAtFront?_eq_some_iff.mp hother)
            · intro earlier later other hlength happend
              exact hfirst (c :: earlier) later other (Nat.succ_lt_succ hlength)
                (congrArg (c :: ·) happend)

theorem Value.firstVar?_eq_ok_some_iff {v : Value} {property : String} :
    v.firstVar? = .ok (some property) ↔
      ∃ text, v = .text text ∧ FirstVar text.toList property.toList := by
  have hchars : ∀ text, DesignTokens.firstVar? text = some property ↔
      firstVarChars? text.toList = some property.toList := by
    intro text
    rw [DesignTokens.firstVar?, Option.map_eq_some_iff]
    constructor
    · rintro ⟨cs, hcs, rfl⟩
      rw [hcs, String.toList_ofList]
    · intro h
      exact ⟨property.toList, h, String.ofList_toList⟩
  cases v with
  | text text => simp [Value.firstVar?, hchars, firstVarChars?_eq_some_iff]
  | _ => simp [Value.firstVar?]

namespace Declarations

variable {own parent : Declarations} {property last : String} {path seen : List String}

/-! ### Chains of references -/

/-- The text of a property names another property first. -/
def RefersTo (own : Declarations) (property target : String) : Prop :=
  ∃ text, own.get? property = some (.text text) ∧ FirstVar text.toList target.toList

/-- The properties that references lead to from one up to a last one, none of them twice. -/
structure Visits (own : Declarations) (property : String) (path : List String) (last : String) :
    Prop where
  way : Way own.RefersTo property path last
  fresh : (path ++ [last]).Nodup

theorem refersTo_iff {target : String} : own.RefersTo property target ↔
    ∃ v, own.get? property = some v ∧ v.firstVar? = .ok (some target) := by
  simp only [RefersTo, Value.firstVar?_eq_ok_some_iff]
  constructor
  · rintro ⟨text, hget, hvar⟩
    exact ⟨_, hget, text, rfl, hvar⟩
  · rintro ⟨_, hget, text, rfl, hvar⟩
    exact ⟨text, hget, hvar⟩

theorem passesTo_iff {target : String} : own.PassesTo parent property target ↔
    own.differAt parent property = false ∧ own.RefersTo property target := by
  rw [PassesTo, refersTo_iff]

theorem refersTo_rightUnique : Relator.RightUnique own.RefersTo := by
  intro property target target' h h'
  obtain ⟨v, hv, hvar⟩ := refersTo_iff.mp h
  obtain ⟨v', hv', hvar'⟩ := refersTo_iff.mp h'
  obtain rfl := Option.some.inj (hv.symm.trans hv')
  exact Option.some.inj (Except.ok.inj (hvar.symm.trans hvar'))

theorem ChangesVia.visits (h : own.ChangesVia parent property path last) :
    own.Visits property path last :=
  ⟨h.way.mono fun _ _ _ hpasses => (passesTo_iff.mp hpasses).2, h.nodup⟩

/-- On a chain to a changed property, references pass through unchanged ones up to the first that is
changed. -/
theorem exists_changesVia (way : Way own.RefersTo property path last)
    (hchanged : own.differAt parent last = true) :
    ∃ path' last', own.ChangesVia parent property path' last' := by
  induction way with
  | here last => exact ⟨[], last, .here last, hchanged⟩
  | @step property target last path hrefers _ ih =>
      by_cases hhere : own.differAt parent property = true
      · exact ⟨[], property, .here property, hhere⟩
      · obtain ⟨path', last', hway, hchanged'⟩ := ih hchanged
        rw [Bool.not_eq_true] at hhere
        exact ⟨property :: path', last', .step (passesTo_iff.mpr ⟨hhere, hrefers⟩) hway, hchanged'⟩

/-! ### The search -/

/-- Through unchanged properties the search goes on as from the last of them. -/
theorem changesAlong_of_way (way : Way (own.PassesTo parent) property path last)
    (hnodup : (path ++ [last]).Nodup) (hfresh : ∀ x ∈ path, x ∉ seen) :
    own.changesAlong parent seen property = own.changesAlong parent (seen ++ path) last := by
  induction way generalizing seen with
  | here last => rw [List.append_nil]
  | @step property target last path hpasses _ ih =>
      obtain ⟨hsame, v, hv, hvar⟩ := hpasses
      obtain ⟨hnot, hnodup⟩ := List.nodup_cons.mp hnodup
      rw [changesAlong, dif_neg (hfresh property List.mem_cons_self)]
      split
      · next hnone => simp [hv] at hnone
      · next v' hv' =>
          obtain rfl := Option.some.inj (hv.symm.trans hv')
          rw [if_neg (by simp [hsame]), hvar]
          have hrest : ∀ x ∈ path, x ∉ seen ++ [property] := by
            intro x hx hmem
            rcases List.mem_append.mp hmem with hmem | hmem
            · exact hfresh x (List.mem_cons_of_mem property hx) hmem
            · obtain rfl := List.mem_singleton.mp hmem
              exact hnot (List.mem_append_left _ hx)
          calc own.changesAlong parent (seen ++ [property]) target
              = own.changesAlong parent (seen ++ [property] ++ path) last := ih hnodup hrest
            _ = own.changesAlong parent (seen ++ property :: path) last := by
                rw [List.append_assoc, List.singleton_append]

/-- The search fails exactly if unchanged properties lead to a value that cannot be searched. -/
theorem changesAlong_eq_error_iff {e : Fault} :
    own.changesAlong parent [] property = .error e ↔
      ∃ path last, Way (own.PassesTo parent) property path last ∧
        own.differAt parent last = false ∧
          ∃ v, own.get? last = some v ∧ v.firstVar? = .error e := by
  constructor
  · generalize ([] : List String) = seen
    intro h
    fun_induction changesAlong own parent seen property with
    | case1 => cases h
    | case2 => cases h
    | case3 => cases h
    | case4 seen property hseen v hv hdiffer e' he =>
        obtain rfl := Except.error.inj h
        exact ⟨[], property, .here property, by simpa using hdiffer, v, hv, he⟩
    | case5 => cases h
    | case6 seen property hseen v hv hdiffer target hvar ih =>
        obtain ⟨path, last, way, hlast⟩ := ih h
        exact ⟨property :: path, last, .step ⟨by simpa using hdiffer, v, hv, hvar⟩ way, hlast⟩
  · rintro ⟨path, last, way, hsame, v, hv, he⟩
    have hstop : ∀ target, ¬ own.PassesTo parent last target := by
      rintro target ⟨-, w, hw, hvar⟩
      obtain rfl := Option.some.inj (hv.symm.trans hw)
      rw [he] at hvar
      cases hvar
    have hnodup := way.nodup passesTo_rightUnique hstop
    have hlast : last ∉ [] ++ path := by
      rw [List.nil_append]
      exact fun hmem => (List.nodup_append.mp hnodup).2.2 last hmem last List.mem_cons_self rfl
    rw [changesAlong_of_way way hnodup (by simp), changesAlong, dif_neg hlast]
    split
    · next hnone => simp [hv] at hnone
    · next w hw =>
        obtain rfl := Option.some.inj (hv.symm.trans hw)
        rw [if_neg (by simp [hsame]), he]

/-- Only a text can be searched. -/
theorem firstVar?_eq_error_iff {v : Value} {e : Fault} :
    v.firstVar? = .error e ↔ e = .wrongKind ∧ v.text? = none := by
  cases v <;> simp [Value.firstVar?, Value.text?, eq_comm]

/-- Through unchanged properties the same references lead as without regard to changes. -/
theorem way_passesTo_iff : Way (own.PassesTo parent) property path last ↔
    Way own.RefersTo property path last ∧ ∀ x ∈ path, own.differAt parent x = false := by
  constructor
  · intro way
    refine ⟨way.mono fun x _ y hpasses => (passesTo_iff.mp hpasses).2, fun x hx => ?_⟩
    obtain ⟨y, -, hpasses, -⟩ := way.exists_next hx
    exact hpasses.1
  · rintro ⟨way, hsame⟩
    exact way.mono fun x hx y hrefers => passesTo_iff.mpr ⟨hsame x hx, hrefers⟩

/-- A chain that ends where nothing can be searched meets no property twice. -/
theorem visits_of_notText (way : Way own.RefersTo property path last) {v : Value}
    (hv : own.get? last = some v) (htext : v.text? = none) : own.Visits property path last := by
  refine ⟨way, way.nodup refersTo_rightUnique fun target hrefers => ?_⟩
  obtain ⟨text, htextual, -⟩ := hrefers
  obtain rfl := Option.some.inj (hv.symm.trans htextual)
  cases htext

/-! ### The length of the search -/

/-- Every visited property but the last is declared. -/
theorem Visits.length_le (h : own.Visits property path last) : path.length ≤ own.size := by
  have hkeys : path ⊆ own.keys := by
    intro x hx
    obtain ⟨y, -, ⟨text, hget, -⟩, -⟩ := h.way.exists_next hx
    exact OrdMap.mem_keys_of_get? hget
  have hnodup : path.Nodup := (List.nodup_append.mp h.fresh).1
  calc path.length ≤ own.keys.length := (hnodup.subperm hkeys).length_le
    _ = own.size := by rw [OrdMap.keys, List.length_map, OrdMap.size]

/-- The properties that the search visits at most are a chain. -/
theorem exists_way_leads (own parent : Declarations) (count : Nat) (property : String) :
    ∃ path last, own.leads parent (count + 1) property = path ++ [last] ∧
      Way own.RefersTo property path last := by
  induction count generalizing property with
  | zero =>
      refine ⟨[], property, ?_, .here property⟩
      rw [leads]
      split
      · rfl
      · split <;> rfl
  | succ count ih =>
      rw [leads]
      split
      · exact ⟨[], property, rfl, .here property⟩
      · split
        · next target hvar =>
            obtain ⟨path, last, hleads, way⟩ := ih target
            obtain ⟨v, hv, hfirst⟩ := Option.map_eq_some_iff.mp hvar
            refine ⟨property :: path, last, ?_, .step (refersTo_iff.mpr ⟨v, hv, hfirst⟩) way⟩
            rw [hleads, List.cons_append]
        · exact ⟨[], property, rfl, .here property⟩

/-- A bound above the number of declarations is never passed. -/
theorem isDeep_of_size_lt {bound : Nat} (h : own.size < bound) (parent : Declarations)
    (property : String) : own.isDeep parent bound property = false := by
  obtain ⟨path, last, hleads, way⟩ := exists_way_leads own parent bound property
  rw [isDeep, hleads, Bool.and_eq_false_imp, decide_eq_true_eq]
  intro hlong
  rw [decide_eq_false_iff_not]
  intro hnodup
  have hlength := Visits.length_le ⟨way, hnodup⟩
  rw [List.length_append, List.length_singleton] at hlong
  omega

/-- The search tells whether the chain of references from a property, followed as long as properties
are declared and not yet visited, meets one that has another value than it is given. It fails only
at a value that is no text, and it takes no more steps than there are declarations, so that no
larger bound stops it. -/
theorem changesAlong_decides (own parent : Declarations) (property : String) :
    (own.changesAlong parent [] property = .ok true ↔
      ∃ path last v w, own.Visits property path last ∧ own.get? last = some v ∧
        parent.get? last = some w ∧ v.same w = false) ∧
    (∀ e, own.changesAlong parent [] property = .error e ↔ e = .wrongKind ∧
      ∃ path last v, own.Visits property path last ∧ own.get? last = some v ∧ v.text? = none ∧
        ∀ x ∈ path ++ [last], own.differAt parent x = false) ∧
    (own.Textual → ∃ changed, own.changesAlong parent [] property = .ok changed) ∧
    (∀ path last, own.Visits property path last → path.length ≤ own.size) ∧
    ∀ bound, own.size < bound → own.isDeep parent bound property = false := by
  refine ⟨?_, fun e => ?_, fun hown => changesAlong_ok hown parent [] property,
    fun path last h => h.length_le, fun bound h => isDeep_of_size_lt h parent property⟩
  · rw [changesAlong_eq_true_iff]
    constructor
    · rintro ⟨path, last, hvia, -⟩
      obtain ⟨v, w, hv, hw, hother⟩ := differAt_eq_true_iff.mp hvia.changed
      exact ⟨path, last, v, w, hvia.visits, hv, hw, hother⟩
    · rintro ⟨path, last, v, w, hvisits, hv, hw, hother⟩
      have hchanged := differAt_eq_true_iff.mpr ⟨v, w, hv, hw, hother⟩
      obtain ⟨path', last', hvia⟩ := exists_changesVia hvisits.way hchanged
      exact ⟨path', last', hvia, by simp⟩
  · rw [changesAlong_eq_error_iff]
    simp only [way_passesTo_iff, firstVar?_eq_error_iff, List.forall_mem_append,
      List.forall_mem_singleton]
    constructor
    · rintro ⟨path, last, ⟨way, hpath⟩, hlast, v, hv, rfl, htext⟩
      exact ⟨rfl, path, last, v, visits_of_notText way hv htext, hv, htext, hpath, hlast⟩
    · rintro ⟨rfl, path, last, v, hvisits, hv, htext, hpath, hlast⟩
      exact ⟨path, last, ⟨hvisits.way, hpath⟩, hlast, v, hv, rfl, htext⟩

/-- Three properties that refer to one another in a circle. -/
def circle : Declarations :=
  .ofList [("--rim", "1px var(--edge)"), ("--edge", "var(--line)"), ("--line", "var(--rim)")]

theorem circle_textual : circle.Textual :=
  textual_of_entries (by decide)

theorem circle_visits : circle.Visits "--rim" ["--rim", "--edge"] "--line" := by
  refine ⟨.step (refersTo_iff.mpr ⟨_, rfl, ?_⟩) (.step (refersTo_iff.mpr ⟨_, rfl, ?_⟩) (.here _)),
    by decide⟩
  · rfl
  · rfl

/-- The last property of the circle is given another value, and the search from the first one meets
it. -/
theorem changesAlong_decides_circle :
    circle.Textual ∧ circle.Visits "--rim" ["--rim", "--edge"] "--line" ∧ circle.size < 4 ∧
      circle.changesAlong (.ofList [("--line", "black")]) [] "--rim" = .ok true ∧
      circle.isDeep (.ofList [("--line", "black")]) 4 "--rim" = false := by
  obtain ⟨hmeets, -, -, -, hdeep⟩ :=
    changesAlong_decides circle (.ofList [("--line", "black")]) "--rim"
  refine ⟨circle_textual, circle_visits, by decide, hmeets.mpr ?_, hdeep 4 (by decide)⟩
  exact ⟨_, _, _, _, circle_visits, rfl, rfl, by decide⟩

end Declarations

end DesignTokens
