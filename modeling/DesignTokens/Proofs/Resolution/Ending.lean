import DesignTokens.Proofs.Resolution.Project
import DesignTokens.Proofs.Resolution.Reference
import Mathlib.Data.List.Dedup
import Mathlib.Data.List.Perm.Subperm

/-!
How following references ends. Each token is set to a text at a state, and a text in braces refers
to the next token; these two facts alone decide what a walk does. Either references lead to a token
where they stop, and the kind of stop is what the walk reports; or they never end, and the walk
reports the first token that it meets again. Both are told here without the walk: by the list of
tokens that references lead through, and by an infinite sequence of references.
-/

namespace DesignTokens

namespace Scope

variable {s : Scope} {options : ResolveOptions} {state : Option String}
  {token next last : String} {path : List String} {text : String}

/-! ### Where references end -/

/-- All tokens are set to texts or map states to texts. -/
def Plain (s : Scope) : Prop := ∀ token a, s.assigned? token = some a → a.IsPlain

/-- References lead from one token to another through the given ones, the last left out. -/
abbrev Leads (s : Scope) (state : Option String) : String → List String → String → Prop :=
  Way (s.Refers state)

def Stops (s : Scope) (state : Option String) (token : String) : Prop :=
  ∀ target, ¬ s.Refers state token target

/-- References from a token never end. -/
def Endless (s : Scope) (state : Option String) (token : String) : Prop :=
  ∃ f : Nat → String, f 0 = token ∧ ∀ n, s.Refers state (f n) (f (n + 1))

/-- What becomes of a token when its references are followed. -/
inductive Ends (s : Scope) (state : Option String) (token : String) :
    Except Fault Trace → Prop where
  | literal {path : List String} {last text : String} (way : s.Leads state token path last)
      (held : s.Holds state last text) (literal : referenceIn? text = none) :
      Ends s state token (.ok ⟨.text text, path ++ [last]⟩)
  | unknown {path : List String} {last : String} (way : s.Leads state token path last)
      (h : last ∉ s.names) : Ends s state token (.error (.unknownToken last))
  | missing {path : List String} {last : String} (way : s.Leads state token path last)
      (h : s.Lacks state last) : Ends s state token (.error (.missingModeState last state))
  | circular {path : List String} {last : String} (way : s.Leads state token path last)
      (fresh : path.Nodup) (again : last ∈ path) :
      Ends s state token (.error (.circularDependency last path))

/-- What references say of the outcome of a walk. -/
structure Decides (s : Scope) (state : Option String) (token : String)
    (outcome : Except Fault Trace) : Prop where
  eq_iff_ends : ∀ o, outcome = o ↔ s.Ends state token o
  /-- No token is walked through twice, so there are at most as many as names. -/
  literal : ∀ trace, outcome = .ok trace →
    trace.path.Nodup ∧ trace.path.length ≤ s.names.dedup.length
  circular_iff : (∃ last path, outcome = .error (.circularDependency last path)) ↔
    s.Endless state token
  /-- The token that comes again lies on a cycle. -/
  circular : ∀ last path, outcome = .error (.circularDependency last path) →
    path.length ≤ s.names.dedup.length ∧
      ∃ before cycle, path = before ++ last :: cycle ∧ s.Leads state last (last :: cycle) last

theorem Holds.stops (h : s.Holds state token text) (literal : referenceIn? text = none) :
    s.Stops state token := by
  rintro target ⟨text', htext', htarget⟩
  simp [← h.unique htext', literal] at htarget

theorem find?_of_plain (hplain : s.Plain) (token : String) :
    s.find? token = s.assigned? token := by
  rw [find?_eq]
  show (s.assigned? token).filter _ = _
  cases ha : s.assigned? token with
  | none => rfl
  | some a =>
      cases a with
      | text _ => rfl
      | states _ => rfl
      | other _ _ => cases hplain token _ ha

theorem find?_eq_none_of_plain (hplain : s.Plain) : s.find? token = none ↔ token ∉ s.names := by
  rw [find?_of_plain hplain, mem_names_iff, Option.eq_none_iff_forall_ne_some, not_exists]

theorem Leads.mem_names (way : s.Leads state token path last) {x : String} (hx : x ∈ path) :
    x ∈ s.names := by
  obtain ⟨y, -, ⟨text, htext, -⟩, -⟩ := way.exists_next hx
  exact htext.mem_names

/-! ### Literal walks -/

section Walks

variable (hplain : s.Plain) (hvars : options.useVars = false)

section References

include hvars

/-- Literal walks follow all references. -/
theorem follows_eq_refers : s.Follows options state = s.Refers state := by
  funext token target
  simp [Follows, ResolveOptions.property?, hvars]

theorem way_iff_leads :
    Way (s.Follows options state) token path last ↔ s.Leads state token path last := by
  rw [follows_eq_refers hvars]

/-- A walk reports a token that it met before exactly if references never end. -/
theorem circular_iff_endless :
    (∃ last path, s.walk options state token [] = .error (.circularDependency last path)) ↔
      s.Endless state token := by
  rw [circular_iff_circles, Circles, follows_eq_refers hvars, Endless]

end References

include hplain hvars

/-- They stop at literals. -/
theorem hop_eq_stop_of_plain {v : Value} : s.hop options state token = .ok (.stop v) ↔
    ∃ text, v = .text text ∧ s.Holds state token text ∧ referenceIn? text = none := by
  rw [hop_eq_ok]
  constructor
  · rintro ⟨a, w, ha, hw, hleaves⟩
    cases hleaves with
    | literal hliteral =>
        obtain ⟨text, rfl⟩ := Assignment.at_text (hplain token a (assigned?_of_find? ha)) hw
        exact ⟨text, rfl, holds_iff.mpr ⟨a, ha, hw⟩, hliteral⟩
    | property _ hproperty _ => simp [ResolveOptions.property?, hvars] at hproperty
  · rintro ⟨text, rfl, hheld, hliteral⟩
    obtain ⟨a, ha, hw⟩ := holds_iff.mp hheld
    exact ⟨a, .text text, ha, hw, .literal hliteral⟩

theorem fails_iff_ends {e : Fault} :
    s.Fails options state token e ↔ s.Ends state token (.error e) := by
  have hunknown : ∀ x, s.find? x = none ↔ x ∉ s.names := fun _ => find?_eq_none_of_plain hplain
  constructor
  · intro h
    cases h with
    | stuck way h =>
        have hleads := (way_iff_leads hvars).mp way
        cases h with
        | unknown hnone => exact .unknown hleads ((hunknown _).mp hnone)
        | missing hlacks => exact .missing hleads hlacks
        | dangling _ hproperty _ => simp [ResolveOptions.property?, hvars] at hproperty
    | circular way fresh again => exact .circular ((way_iff_leads hvars).mp way) fresh again
  · intro h
    cases h with
    | unknown way hnot =>
        exact .stuck ((way_iff_leads hvars).mpr way) (.unknown ((hunknown _).mpr hnot))
    | missing way hlacks => exact .stuck ((way_iff_leads hvars).mpr way) (.missing hlacks)
    | circular way fresh again => exact .circular ((way_iff_leads hvars).mpr way) fresh again

/-- A walk ends as the references from its token do. -/
theorem walk_eq_iff_ends {outcome : Except Fault Trace} :
    s.walk options state token [] = outcome ↔ s.Ends state token outcome := by
  cases outcome with
  | error e => rw [walk_eq_error, fails_iff_ends hplain hvars]
  | ok trace =>
      obtain ⟨v, ts⟩ := trace
      rw [walk_nil_eq_ok, chain_iff_way]
      constructor
      · rintro ⟨path, last, rfl, way, hstop⟩
        obtain ⟨text, rfl, hheld, hliteral⟩ := (hop_eq_stop_of_plain hplain hvars).mp hstop
        exact .literal ((way_iff_leads hvars).mp way) hheld hliteral
      · intro h
        cases h with
        | @literal path last text way held literal =>
            have hstop := (hop_eq_stop_of_plain hplain hvars).mpr ⟨text, rfl, held, literal⟩
            exact ⟨path, last, rfl, (way_iff_leads hvars).mpr way, hstop⟩

end Walks

/-- Distinct tokens of a scope are at most as many as its names. -/
theorem length_le_names (fresh : path.Nodup) (hnames : ∀ x ∈ path, x ∈ s.names) :
    path.length ≤ s.names.dedup.length :=
  (fresh.subperm fun x hx => List.mem_dedup.mpr (hnames x hx)).length_le

namespace Ends

theorem literal_path {trace : Trace} (h : s.Ends state token (.ok trace)) :
    trace.path.Nodup ∧ trace.path.length ≤ s.names.dedup.length := by
  cases h with
  | literal way held literal =>
      have hnodup := way.nodup refers_rightUnique (held.stops literal)
      refine ⟨hnodup, length_le_names hnodup fun x hx => ?_⟩
      rcases List.mem_append.mp hx with hx | hx
      · exact way.mem_names hx
      · rw [List.mem_singleton.mp hx]
        exact held.mem_names

theorem circular_path (h : s.Ends state token (.error (.circularDependency last path))) :
    path.length ≤ s.names.dedup.length ∧
      ∃ before cycle, path = before ++ last :: cycle ∧
        s.Leads state last (last :: cycle) last := by
  cases h with
  | circular way fresh again =>
      refine ⟨length_le_names fresh fun x hx => way.mem_names hx, ?_⟩
      obtain ⟨before, cycle, rfl⟩ := List.append_of_mem again
      exact ⟨before, cycle, rfl, way.drop⟩

end Ends

end Scope

/-! ### Walks in a theme -/

namespace Theme

variable {t : Theme} {base : Option Theme} {options : ResolveOptions}

theorem plain_scope (hown : PlainTokens t.tokens)
    (hbase : ∀ b, base = some b → PlainTokens b.tokens) : (t.scope base).Plain := by
  intro token a ha
  simp only [Scope.assigned?, scope, Option.or_eq_some_iff, Option.bind_eq_some_iff,
    Option.map_eq_some_iff] at ha
  obtain ha | ⟨-, tokens, ⟨b, hb, rfl⟩, ha⟩ := ha
  · exact hown token a ha
  · exact hbase b hb token a ha

/-- The references of a token decide what its walk ends in: the literal that they lead to, the name
or the state that is missing, or, exactly if they never end, the first token that comes again. -/
theorem walk_decides (hown : PlainTokens t.tokens)
    (hbase : ∀ b, base = some b → PlainTokens b.tokens) (hvars : options.useVars = false)
    (state : Option String) (token : String) :
    (t.scope base).Decides state token ((t.scope base).walk options state token []) := by
  have hplain := plain_scope hown hbase
  refine ⟨fun outcome => Scope.walk_eq_iff_ends hplain hvars, ?_,
    Scope.circular_iff_endless hvars, ?_⟩
  · intro trace htrace
    exact ((Scope.walk_eq_iff_ends hplain hvars).mp htrace).literal_path
  · intro last path hcircular
    exact ((Scope.walk_eq_iff_ends hplain hvars).mp hcircular).circular_path

/-! ### A cycle at one state -/

/-- A base whose token `line` refers to `ink`. -/
def inked : Theme where
  id := "base"
  selector := ".t"
  tokens := .ofList [("line", .text "\x7bink\x7d")]

/-- Lets `ink` refer back to `line` in the dark. -/
def darkened : Theme where
  id := "dark"
  selector := ".t"
  tokens := .ofList
    [("ink", .states (.ofList [("light", .text "black"), ("dark", .text "\x7bline\x7d")]))]

theorem walk_decides_darkened :
    PlainTokens darkened.tokens ∧ (∀ b, some inked = some b → PlainTokens b.tokens) ∧
      ({} : ResolveOptions).useVars = false ∧
      (darkened.scope (some inked)).Decides (some "dark") "line"
        ((darkened.scope (some inked)).walk {} (some "dark") "line" []) := by
  have hstates : ∀ e ∈ [("light", Value.text "black"), ("dark", .text "\x7bline\x7d")],
      ∃ text, e.2 = .text text := by simp
  have hown : PlainTokens darkened.tokens :=
    PlainTokens.of_entries (List.forall_mem_singleton.mpr hstates)
  have hbase : ∀ b, some inked = some b → PlainTokens b.tokens := by
    intro b hb
    obtain rfl := Option.some.inj hb
    exact PlainTokens.of_entries (List.forall_mem_singleton.mpr trivial)
  exact ⟨hown, hbase, rfl, walk_decides hown hbase rfl (some "dark") "line"⟩

example : (darkened.scope (some inked)).walk {} (some "dark") "line" [] =
    .error (.circularDependency "line" ["line", "ink"]) := rfl

end Theme

end DesignTokens
