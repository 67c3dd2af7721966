import DesignTokens.Proofs.Override.Minimal
import DesignTokens.Proofs.Resolution.Partial
import DesignTokens.Theme.Validation

/-!
Overrides by literals. An override changes what walks meet in two ways: where it sets a token at the
state of the walk, the walk now ends there; and where it gives a text to a token with a mode, that
text is spread over the states of the mode, so that a walk at any other state, or at none, now fails
there. So a theme that resolves still resolves after the override unless some walk of it meets a
token of the second kind before it meets any other token that the override sets.
-/

namespace DesignTokens

/-! ### Literal overrides -/

/-- A literal, or a map from states of the token's mode to literals. -/
def Theme.AdmitsLiteral (t : Theme) (token : String) : Assignment → Prop
  | .text s => referenceIn? s = none
  | .states values => ∃ mode, t.modeOf token = some mode ∧
      ∀ e ∈ values.entries, e.1 ∈ mode.states.keys ∧ e.2.isLiteral = true
  | .other .. => False

namespace Override

/-- An override of tokens that a theme declares, by literals. -/
structure IsLiteral (o : Override) (t : Theme) : Prop where
  declared : ∀ token ∈ t.namedBy o, token ∈ t.tokens.keys
  literal : ∀ token a, o.tokens.get? token = some a → t.AdmitsLiteral token a

/-- The override sets a token at a state: by a text, or by an entry of a map that can be written
over the token's assignment. -/
def sets (o : Override) (t : Theme) (state : Option String) (token : String) : Bool :=
  match o.tokens.get? token with
  | some (.text _) => true
  | some (.states values) => state.any values.contains &&
      (t.combine token ((t.tokens.get? token).getD .null) (.states values)).isSome
  | _ => false

/-- The override spreads a text over the states of a token's mode, and the given state is none of
them. -/
def misses (o : Override) (t : Theme) (state : Option String) (token : String) : Bool :=
  match o.tokens.get? token, t.modeOf token with
  | some (.text _), some mode => !state.any mode.states.contains
  | _, _ => false

end Override

/-- A literal refers to no token. -/
theorem Value.target?_of_isLiteral {v : Value} (h : v.isLiteral = true) : v.target? = none := by
  cases v with
  | text s => simpa [isLiteral, target?] using h
  | _ => rfl

namespace Theme

variable {t : Theme} {o : Override} {options : ResolveOptions} {state : Option String}
  {token : String} {a : Assignment}

/-! ### Assignments after the override -/

/-- What the override makes of the assignment of a token. -/
def revised (t : Theme) (o : Override) (token : String) (a : Assignment) : Assignment :=
  ((o.tokens.get? token).bind (t.combine token a)).getD a

theorem get?_merge_of_declared (ha : t.tokens.get? token = some a) :
    (t.merge o).theme.tokens.get? token = some (t.revised o token a) := by
  rw [get?_tokens_merge, updated, revised, ha]
  simp only [Option.some_or, Option.getD_some]
  cases (o.tokens.get? token).bind (t.combine token a) <;> rfl

/-- States are written over a map by state only. -/
theorem eq_states_of_statesUnder? {under : OrdMap Value} (ha : a.isNull = false)
    (h : statesUnder? a = some under) : a = .states under := by
  cases a with
  | text s => simp [statesUnder?, ha] at h
  | other v hv => simp [statesUnder?, ha] at h
  | states values =>
      simp only [statesUnder?] at h
      split at h
      · rw [Option.some.inj h]
      · cases h

theorem combine_states (t : Theme) (token : String) (values : OrdMap Value)
    (ha : a.isNull = false) :
    t.combine token a (.states values) = none ∨
      ∃ under, a = .states under ∧
        t.combine token a (.states values) = some (.states (under.union values)) := by
  simp only [combine]
  split
  · cases hunder : statesUnder? a with
    | none => exact .inl rfl
    | some under => exact .inr ⟨under, eq_states_of_statesUnder? ha hunder, rfl⟩
  · exact .inl rfl

theorem isNull_revised (ha : a.isNull = false) : (t.revised o token a).isNull = false := by
  unfold revised
  cases o.tokens.get? token with
  | none => exact ha
  | some update =>
      rw [Option.bind_some]
      cases update with
      | text s => cases hmode : t.modeOf token <;> simp only [combine, hmode] <;> rfl
      | other v hv => exact ha
      | states values =>
          obtain hnone | ⟨under, -, hsome⟩ := combine_states t token values ha
          · rw [hnone]
            exact ha
          · rw [hsome]
            rfl

/-! ### Values after the override -/

/-- What the override makes of the value of a token at a state. -/
inductive Updates (t : Theme) (o : Override) (state : Option String) (token : String)
    (before after : Except Fault Value) : Prop where
  /-- The token is not set at the state. -/
  | kept (sets : o.sets t state token = false) (same : ∀ v, before = .ok v → after = .ok v)
  | literal {v : Value} (sets : o.sets t state token = true) (fits : o.misses t state token = false)
      (value : after = .ok v) (literal : v.target? = none)
  /-- A text was spread over other states. -/
  | lost {e : Fault} (sets : o.sets t state token = true) (misses : o.misses t state token = true)
      (value : after = .error e)

/-- A text given to a token holds at all states of the token's mode and at no other. -/
theorem updates_text {s : String} (hu : o.tokens.get? token = some (.text s))
    (hs : referenceIn? s = none) (before : Except Fault Value) :
    t.Updates o state token before ((t.revised o token a).at token state) := by
  have hsets : o.sets t state token = true := by simp [Override.sets, hu]
  rw [revised, hu, Option.bind_some]
  cases hmode : t.modeOf token with
  | none =>
      have hfits : o.misses t state token = false := by simp [Override.misses, hu, hmode]
      simp only [combine, hmode, Option.getD_some]
      exact .literal hsets hfits rfl hs
  | some mode =>
      simp only [combine, hmode, Option.getD_some]
      cases state with
      | none => exact .lost hsets (by simp [Override.misses, hu, hmode]) rfl
      | some name =>
          cases hname : mode.states.get? name with
          | none =>
              have hmisses : o.misses t (some name) token = true := by
                simp [Override.misses, hu, hmode, OrdMap.contains_eq_isSome, hname]
              exact .lost hsets hmisses (by simp only [Assignment.at, OrdMap.get?_map, hname]; rfl)
          | some _ =>
              have hfits : o.misses t (some name) token = false := by
                simp [Override.misses, hu, hmode, OrdMap.contains_eq_isSome, hname]
              refine .literal (v := .text s) hsets hfits ?_ hs
              simp [Assignment.at, OrdMap.get?_map, hname]

/-- A map is written over the states that it has entries for. -/
theorem updates_states {values : OrdMap Value} (ha : t.tokens.get? token = some a)
    (hnull : a.isNull = false) (hu : o.tokens.get? token = some (.states values))
    (hvalues : ∀ e ∈ values.entries, e.2.isLiteral = true) :
    t.Updates o state token (a.at token state) ((t.revised o token a).at token state) := by
  have hfits : o.misses t state token = false := by simp [Override.misses, hu]
  rw [revised, hu, Option.bind_some]
  obtain hskipped | ⟨under, rfl, hcombined⟩ := combine_states t token values hnull
  · rw [hskipped]
    exact .kept (by simp [Override.sets, hu, ha, hskipped]) fun v hv => hv
  · rw [hcombined, Option.getD_some]
    cases state with
    | none => exact .kept (by simp [Override.sets, hu]) fun v hv => by cases hv
    | some name =>
        cases hname : values.get? name with
        | none =>
            refine .kept ?_ fun v hv => ?_
            · simp [Override.sets, hu, OrdMap.contains_eq_isSome, hname]
            · simpa only [Assignment.at, OrdMap.get?_union, hname, Option.none_or] using hv
        | some w =>
            refine .literal (v := w) ?_ hfits ?_ ?_
            · simp [Override.sets, hu, ha, hcombined, OrdMap.contains_eq_isSome, hname]
            · simp [Assignment.at, OrdMap.get?_union, hname]
            · exact Value.target?_of_isLiteral (hvalues _ (OrdMap.mem_entries_iff.mpr hname))

theorem updates_revised (ho : o.IsLiteral t) (state : Option String)
    (ha : t.tokens.get? token = some a) (hnull : a.isNull = false) :
    t.Updates o state token (a.at token state) ((t.revised o token a).at token state) := by
  cases hu : o.tokens.get? token with
  | none =>
      rw [revised, hu]
      exact .kept (by simp [Override.sets, hu]) fun v hv => hv
  | some update =>
      have hliteral := ho.literal token update hu
      cases update with
      | text s => exact updates_text hu hliteral _
      | other v hv => cases hliteral
      | states values =>
          obtain ⟨mode, -, hvalues⟩ := hliteral
          exact updates_states ha hnull hu fun e he => (hvalues e he).2

/-! ### Hops after the override -/

theorem find?_scope_none : (t.scope none).find? token =
    (t.tokens.get? token).filter fun a => !a.isNull := by
  simp [Scope.find?_eq, scope]

theorem find?_merge (ha : (t.scope none).find? token = some a) :
    t.tokens.get? token = some a ∧ a.isNull = false ∧
      ((t.merge o).theme.scope none).find? token = some (t.revised o token a) := by
  rw [find?_scope_none, Option.filter_eq_some_iff, Bool.not_eq_true'] at ha
  refine ⟨ha.1, ha.2, ?_⟩
  rw [find?_scope_none, get?_merge_of_declared ha.1, Option.filter_eq_some_iff]
  exact ⟨rfl, by simp [isNull_revised ha.2]⟩

/-- What becomes of a hop. -/
inductive HopAfter (t : Theme) (o : Override) (options : ResolveOptions) (state : Option String)
    (token : String) (next : Hop) : Prop where
  | kept (sets : o.sets t state token = false)
      (hop : ((t.merge o).theme.scope none).hop options state token = .ok next)
  | literal {v : Value} (sets : o.sets t state token = true) (fits : o.misses t state token = false)
      (hop : ((t.merge o).theme.scope none).hop options state token = .ok (.stop v))
  | lost {e : Fault} (sets : o.sets t state token = true) (misses : o.misses t state token = true)
      (hop : ((t.merge o).theme.scope none).hop options state token = .error e)

theorem hopAfter (ho : o.IsLiteral t) {next : Hop}
    (h : (t.scope none).hop options state token = .ok next) :
    t.HopAfter o options state token next := by
  obtain ⟨a, v, ha, hv, hleaves⟩ := Scope.hop_eq_ok.mp h
  obtain ⟨hget, hnull, hfind⟩ := find?_merge (o := o) ha
  cases updates_revised ho state hget hnull with
  | kept hsets hsame =>
      refine .kept hsets (Scope.hop_eq_ok.mpr ⟨_, v, hfind, hsame v hv, ?_⟩)
      cases hleaves with
      | literal ht => exact .literal ht
      | follow ht hnone => exact .follow ht hnone
      | property ht hproperty hfound =>
          obtain ⟨b, hb⟩ := Option.isSome_iff_exists.mp hfound
          exact .property ht hproperty (by simp [(find?_merge (o := o) hb).2.2])
  | literal hsets hfits hvalue ht =>
      exact .literal hsets hfits (Scope.hop_eq_ok.mpr ⟨_, _, hfind, hvalue, .literal ht⟩)
  | @lost e hsets hmisses hvalue =>
      refine .lost (e := e) hsets hmisses ?_
      simp only [Scope.hop, hfind, hvalue]

/-- After the override a walk still ends, unless the first token on it that is set has lost the
state of the walk. -/
theorem exists_walk_merge_iff (ho : o.IsLiteral t) {trace : Trace}
    (h : (t.scope none).walk options state token [] = .ok trace) :
    (∃ trace', ((t.merge o).theme.scope none).walk options state token [] = .ok trace') ↔
      ∀ k, trace.path.find? (o.sets t state) = some k → o.misses t state k = false := by
  have hchain := Scope.walk_nil_eq_ok.mp h
  have hkept : ∀ x, o.sets t state x = false → ∀ next,
      (t.scope none).hop options state x = .ok next →
        ((t.merge o).theme.scope none).hop options state x = .ok next := by
    intro x hx next hnext
    cases hopAfter ho hnext with
    | kept _ hop => exact hop
    | literal hsets _ _ => simp [hx] at hsets
    | lost hsets _ _ => simp [hx] at hsets
  have hwalk : (∃ trace', ((t.merge o).theme.scope none).walk options state token [] = .ok trace') ↔
      ∃ v us, ((t.merge o).theme.scope none).Chain options state token us v := by
    simp only [Scope.walk_nil_eq_ok]
    exact ⟨fun ⟨trace', h'⟩ => ⟨_, _, h'⟩, fun ⟨v, us, h'⟩ => ⟨⟨v, us⟩, h'⟩⟩
  rw [hwalk]
  obtain ⟨hfind, hafter⟩ | ⟨k, hfind, hk⟩ := hchain.divert hkept
  · rw [hfind]
    exact ⟨fun _ _ hnone => (by cases hnone), fun _ => ⟨_, _, hafter⟩⟩
  · simp only [hk, hfind, Option.some.injEq, forall_eq']
    have hset : o.sets t state k = true := List.find?_some hfind
    obtain ⟨next, hnext⟩ := hchain.hop_of_mem (List.mem_of_find?_eq_some hfind)
    cases hopAfter ho hnext with
    | kept hsets _ => simp [hset] at hsets
    | literal _ hfits hop => exact ⟨fun _ => hfits, fun _ => ⟨_, _, .stop hop⟩⟩
    | lost _ hmisses hop =>
        rw [hmisses]
        refine ⟨fun ⟨v, us, hchain'⟩ => ?_, fun hfalse => by cases hfalse⟩
        cases hchain' with
        | stop hs => simp [hop] at hs
        | go hg _ => simp [hop] at hg

/-! ### Resolving after the override -/

theorem mem_keys_merge (ho : o.IsLiteral t) :
    token ∈ (t.merge o).theme.tokens.keys ↔ token ∈ t.tokens.keys := by
  obtain ⟨contexts, h⟩ := t.merge_theme o
  rw [h]
  exact mem_keys_overlay t _ fun x hx => ho.declared x (List.mem_append_left _ hx)

/-- A theme that resolves still does after an override by literals exactly if no walk is lost: the
first token on it that the override sets was not spread over states that leave out the walk's. -/
theorem resolve_merge_iff {r : Resolution} (ho : o.IsLiteral t)
    (h : t.resolve none options = .ok r) :
    ∃ m, t.merged o = .ok m ∧
      ((∃ r', m.theme.resolve none options = .ok r') ↔
        ∀ token ∈ t.tokens.keys, ∀ state ∈ statesOf (t.modeOf token), ∀ trace,
          (t.scope none).walk options state token [] = .ok trace →
            ∀ k, trace.path.find? (o.sets t state) = some k → o.misses t state k = false) := by
  have hwalks := exists_resolve_iff.mp ⟨r, h⟩
  simp only [Option.getD_none] at hwalks
  refine ⟨t.merge o, merged_eq_ok fun token htoken => ?_, ?_⟩
  · exact ⟨_, (hwalks token (ho.declared token htoken)).1⟩
  · simp only [exists_resolve_iff, Option.getD_none, mem_keys_merge ho, modeFor_merge, modeOf_merge]
    refine forall₂_congr fun token htoken => ?_
    obtain ⟨hmode, hends⟩ := hwalks token htoken
    rw [and_iff_right hmode]
    refine forall₂_congr fun state hstate => ?_
    obtain ⟨trace, htrace⟩ := hends state hstate
    simp only [exists_walk_merge_iff ho htrace, htrace, Except.ok.injEq, forall_eq']

/-! ### An override that a walk is lost by -/

/-- Sets the size, and the gap where it is compact. -/
def tightened : Override where
  tokens := .ofList [("size", .text "6"), ("gap", .states (.ofList [("compact", .text "1")]))]

theorem resolve_merge_iff_tightened :
    tightened.IsLiteral spaced ∧ spaced.resolve = .ok (spacedFor "8") ∧
      ∃ m, spaced.merged tightened = .ok m ∧
        ((∃ r', m.theme.resolve = .ok r') ↔
          ∀ token ∈ spaced.tokens.keys, ∀ state ∈ statesOf (spaced.modeOf token), ∀ trace,
            (spaced.scope none).walk {} state token [] = .ok trace →
              ∀ k, trace.path.find? (tightened.sets spaced state) = some k →
                tightened.misses spaced state k = false) := by
  have hsize : referenceIn? "6" = none := by decide
  have hgap : ∀ e ∈ [("compact", Value.text "1")],
      e.1 ∈ density.states.keys ∧ e.2.isLiteral = true := by decide
  have hentries : ∀ e ∈ tightened.tokens.entries, spaced.AdmitsLiteral e.1 e.2 :=
    List.forall_mem_cons.mpr ⟨hsize, List.forall_mem_singleton.mpr ⟨density, rfl, hgap⟩⟩
  have hliteral : tightened.IsLiteral spaced :=
    ⟨by decide, fun token a ha => hentries (token, a) (OrdMap.mem_entries_iff.mpr ha)⟩
  have hresolve : spaced.resolve = .ok (spacedFor "8") := rfl
  exact ⟨hliteral, hresolve, resolve_merge_iff hliteral hresolve⟩

/-- A theme whose border follows its gap; the gap has a mode, though it is the same at all states.
-/
def bordered : Theme where
  id := "bordered"
  selector := ".t"
  tokens := .ofList [("border", .text "\x7bgap\x7d"), ("gap", .text "8")]
  modes := .ofList [("density", density)]
  bindings := .ofList [("gap", .text "density")]

/-- Sets the gap. -/
def widened : Override where
  tokens := .ofList [("gap", .text "12")]

/-- A theme without findings that resolves, and a literal for one of its tokens, after which it does
not: the border is walked at no state, and the gap now has a value at states only. -/
theorem border_loses_gap :
    bordered.validate = [] ∧ widened.IsLiteral bordered ∧
      bordered.resolve = .ok (.ofList [("border", .single (.text "8")),
        ("gap", .perState (.ofList [("cozy", .text "8"), ("compact", .text "8")]))]) ∧
      bordered.merged widened = .ok (bordered.merge widened) ∧
      (bordered.merge widened).theme.resolve = .error (.missingModeState "gap" none) := by
  have hgap : referenceIn? "12" = none := by decide
  have hentries : ∀ e ∈ widened.tokens.entries, bordered.AdmitsLiteral e.1 e.2 :=
    List.forall_mem_singleton.mpr hgap
  have hliteral : widened.IsLiteral bordered :=
    ⟨by decide, fun token a ha => hentries (token, a) (OrdMap.mem_entries_iff.mpr ha)⟩
  exact ⟨rfl, hliteral, rfl, rfl, rfl⟩

end Theme

end DesignTokens
