import DesignTokens.Proofs.Resolution.Walk
import DesignTokens.Resolution.Depth
import DesignTokens.Resolution.OfTheme

/-!
Walks that write references as properties. Such a walk goes the way of the literal one up to the
first token with a property and writes that property there. The token in front of which it stopped
leads on literally, by the rest of the way and to the same value. Therefore a written property may
be replaced by what its token stands for, again and again, until the value of the literal walk is
left.
-/

namespace DesignTokens

/-- References to tokens with a property are written as the property. -/
def ResolveOptions.writing (properties : OrdMap Value) : ResolveOptions := ⟨true, properties⟩

@[simp] theorem ResolveOptions.property?_writing (properties : OrdMap Value) (token : String) :
    (writing properties).property? token = (properties.get? token).map Value.display := rfl

theorem ResolveOptions.property?_of_literal {options : ResolveOptions}
    (h : options.useVars = false) (token : String) : options.property? token = none := by
  simp [property?, h]

namespace Scope

variable {s : Scope} {literal : ResolveOptions} {properties : OrdMap Value} {state : Option String}
  {token target : String} {front rest ts : List String} {v w property : Value} {steps : Nat}

/-- The token in front of which a walk stopped: the one that the last token of its path refers to.
-/
def ahead? (s : Scope) (state : Option String) (trace : Trace) : Option String := do
  s.next? {} state (← trace.path.getLast?)

/-- What a token stands for when the property that its walk writes is replaced by what the token of
that property stands for, as often as told. -/
inductive Unfolds (s : Scope) (properties : OrdMap Value) (state : Option String) :
    String → Nat → Value → Prop where
  | done {token : String} {trace : Trace}
      (h : s.walk (.writing properties) state token [] = .ok trace)
      (hlast : s.ahead? state trace = none) : Unfolds s properties state token 0 trace.value
  | replace {token target : String} {trace : Trace} {steps : Nat} {v : Value}
      (h : s.walk (.writing properties) state token [] = .ok trace)
      (hlast : s.ahead? state trace = some target)
      (rest : Unfolds s properties state target steps v) :
      Unfolds s properties state token (steps + 1) v

/-- What a token's walk gives where references are written as properties, told by its literal
walk. -/
structure Denotes (s : Scope) (literal : ResolveOptions) (properties : OrdMap Value)
    (state : Option String) (token : String) (trace : Trace) : Prop where
  succeeds : ∃ written, s.walk (.writing properties) state token [] = .ok written
  /-- Without a property on the way the walk is the literal one. -/
  same : (∀ x ∈ trace.path.tail, properties.get? x = none) →
    s.walk (.writing properties) state token [] = .ok trace
  /-- Else it stops in front of the first token with a property, which has the rest of the way. -/
  stops : ∀ front target rest property, trace.path = front ++ target :: rest → front ≠ [] →
    (∀ x ∈ front.tail, properties.get? x = none) → properties.get? target = some property →
      s.walk (.writing properties) state token [] =
          .ok ⟨.text ("var(" ++ property.display ++ ")"), front⟩ ∧
        s.walk literal state target [] = .ok ⟨trace.value, target :: rest⟩
  unfolds : ∃ steps < trace.path.length, s.Unfolds properties state token steps trace.value
  /-- No replacing leads elsewhere. -/
  only : ∀ steps v, s.Unfolds properties state token steps v →
    steps < trace.path.length ∧ v = trace.value

/-! ### Chains with properties on the way -/

theorem next?_of_stop (hliteral : literal.useVars = false)
    (h : s.hop literal state token = .ok (.stop v)) : s.next? {} state token = none := by
  obtain ⟨a, w, ha, hv, hleaves⟩ := hop_eq_ok.mp h
  cases hleaves with
  | literal ht => simp [next?, ha, hv, Except.toOption, ht]
  | property _ hproperty _ => simp [ResolveOptions.property?_of_literal hliteral] at hproperty

theorem next?_of_go (h : s.hop literal state token = .ok (.go target)) :
    s.next? {} state token = some target := by
  obtain ⟨a, w, ha, hv, hleaves⟩ := hop_eq_ok.mp h
  cases hleaves with
  | follow ht _ => simp [next?, ha, hv, Except.toOption, ht, ResolveOptions.property?]

namespace Chain

theorem next?_last (hliteral : literal.useVars = false) (h : s.Chain literal state token ts v) :
    ∃ last, ts.getLast? = some last ∧ s.next? {} state last = none := by
  induction h with
  | @stop token v hs => exact ⟨token, rfl, next?_of_stop hliteral hs⟩
  | @go token target rest v hg tail ih =>
      obtain ⟨last, hlast, hnext⟩ := ih
      obtain ⟨more, rfl⟩ := tail.head
      exact ⟨last, by rw [List.getLast?_cons_cons, hlast], hnext⟩

/-- Of two tokens in a row on a literal chain the first refers to the second. -/
theorem next?_middle (h : s.Chain literal state token ts v) {pre post : List String} {x y : String}
    (hsplit : ts = pre ++ x :: y :: post) : s.next? {} state x = some y := by
  subst hsplit
  cases h.drop with
  | go hg tail =>
      obtain ⟨more, hmore⟩ := tail.head
      obtain ⟨rfl, -⟩ := List.cons.inj hmore
      exact next?_of_go hg

/-- Without a property on the way a literal chain is one that writes properties. -/
theorem writing_same (hliteral : literal.useVars = false) (h : s.Chain literal state token ts v)
    (hnone : ∀ x ∈ ts.tail, properties.get? x = none) :
    s.Chain (.writing properties) state token ts v := by
  induction h with
  | @stop token v hs =>
      obtain ⟨a, w, ha, hv, hleaves⟩ := hop_eq_ok.mp hs
      cases hleaves with
      | literal ht => exact .stop (hop_eq_ok.mpr ⟨a, v, ha, hv, .literal ht⟩)
      | property _ hproperty _ => simp [ResolveOptions.property?_of_literal hliteral] at hproperty
  | @go token target rest v hg tail ih =>
      obtain ⟨more, rfl⟩ := tail.head
      obtain ⟨a, w, ha, hv, hleaves⟩ := hop_eq_ok.mp hg
      cases hleaves with
      | follow ht _ =>
          have htarget : (ResolveOptions.writing properties).property? target = none := by
            simp [hnone target List.mem_cons_self]
          refine .go (hop_eq_ok.mpr ⟨a, w, ha, hv, .follow ht htarget⟩) (ih ?_)
          exact fun x hx => hnone x (List.mem_cons_of_mem target hx)

/-- A literal chain with a property on the way stops where properties are written, in front of the
first token that has one. -/
theorem writing_stop (h : s.Chain literal state token (front ++ target :: rest) v)
    (hne : front ≠ []) (hfront : ∀ x ∈ front.tail, properties.get? x = none)
    (hproperty : properties.get? target = some property) :
    s.Chain (.writing properties) state token front
      (.text ("var(" ++ property.display ++ ")")) := by
  induction front generalizing token with
  | nil => exact absurd rfl hne
  | cons x front ih =>
      generalize hts : x :: front ++ target :: rest = ts at h
      cases h with
      | stop _ => simp at hts
      | @go _ next more _ hg tail =>
          obtain ⟨rfl, rfl⟩ := List.cons.inj hts
          obtain ⟨a, w, ha, hv, hleaves⟩ := hop_eq_ok.mp hg
          cases hleaves with
          | follow ht _ =>
              cases front with
              | nil =>
                  obtain ⟨more, hmore⟩ := tail.head
                  obtain ⟨rfl, -⟩ := List.cons.inj hmore
                  have hfound : (s.find? target).isSome := by
                    obtain ⟨hop, hhop⟩ := tail.hop_of_mem List.mem_cons_self
                    exact find?_isSome_of_hop hhop
                  exact .stop (hop_eq_ok.mpr ⟨a, w, ha, hv,
                    .property ht (by simp [hproperty]) hfound⟩)
              | cons y front =>
                  obtain ⟨more, hmore⟩ := tail.head
                  obtain ⟨rfl, -⟩ := List.cons.inj hmore
                  have hnone : (ResolveOptions.writing properties).property? y = none := by
                    simp [hfront y List.mem_cons_self]
                  refine .go (hop_eq_ok.mpr ⟨a, w, ha, hv, .follow ht hnone⟩) (ih tail (by simp) ?_)
                  exact fun z hz => hfront z (List.mem_cons_of_mem y hz)

/-- Either no token after the first has a property, or a first one of them does. -/
theorem split_property (h : s.Chain literal state token ts v) (properties : OrdMap Value) :
    (∀ x ∈ ts.tail, properties.get? x = none) ∨
      ∃ front target rest property, ts = front ++ target :: rest ∧ front ≠ [] ∧
        (∀ x ∈ front.tail, properties.get? x = none) ∧
          properties.get? target = some property := by
  obtain ⟨more, rfl⟩ := h.head
  rw [List.tail_cons]
  cases hfind : more.find? fun x => (properties.get? x).isSome with
  | none =>
      refine .inl fun x hx => ?_
      simpa using List.find?_eq_none.mp hfind x hx
  | some target =>
      obtain ⟨hsome, before, rest, rfl, hbefore⟩ := List.find?_eq_some_iff_append.mp hfind
      obtain ⟨property, hproperty⟩ := Option.isSome_iff_exists.mp hsome
      refine .inr ⟨token :: before, target, rest, property, rfl, by simp, ?_, hproperty⟩
      intro x hx
      simpa using hbefore x hx

/-- Replacing written properties along a literal chain ends in its value. -/
theorem exists_unfolds (hliteral : literal.useVars = false)
    (h : s.Chain literal state token ts v) (properties : OrdMap Value) :
    ∃ steps < ts.length, s.Unfolds properties state token steps v := by
  induction hlength : ts.length using Nat.strongRecOn generalizing token ts with
  | ind length ih =>
      obtain hnone | ⟨front, target, rest, property, rfl, hne, hfront, hproperty⟩ :=
        h.split_property properties
      · obtain ⟨last, hlast, hnext⟩ := h.next?_last hliteral
        have hwalk : s.walk (.writing properties) state token [] = .ok ⟨v, ts⟩ :=
          walk_nil_eq_ok.mpr (h.writing_same hliteral hnone)
        obtain ⟨more, rfl⟩ := h.head
        exact ⟨0, by simp [← hlength], .done hwalk (by simp [ahead?, hlast, hnext])⟩
      · have hwalk : s.walk (.writing properties) state token [] =
            .ok ⟨.text ("var(" ++ property.display ++ ")"), front⟩ :=
          walk_nil_eq_ok.mpr (h.writing_stop hne hfront hproperty)
        have hshort : (target :: rest).length < length := by
          have := List.length_pos_iff.mpr hne
          simp only [← hlength, List.length_append]
          omega
        obtain ⟨steps, hsteps, hrest⟩ := ih _ hshort h.drop rfl
        -- the last token of the front refers to the one that has the property
        have hahead : s.ahead? state ⟨.text ("var(" ++ property.display ++ ")"), front⟩ =
            some target := by
          obtain ⟨before, x, rfl⟩ : ∃ before x, front = before ++ [x] :=
            ⟨_, _, (List.dropLast_concat_getLast hne).symm⟩
          simpa [ahead?] using h.next?_middle (List.append_assoc before [x] (target :: rest))
        exact ⟨steps + 1, by omega, .replace hwalk hahead hrest⟩

end Chain

theorem Unfolds.unique {steps' : Nat} (h : s.Unfolds properties state token steps v)
    (h' : s.Unfolds properties state token steps' w) : steps = steps' ∧ v = w := by
  induction h generalizing steps' with
  | done hwalk hlast =>
      cases h' with
      | done hwalk' _ =>
          obtain rfl := Except.ok.inj (hwalk.symm.trans hwalk')
          exact ⟨rfl, rfl⟩
      | replace hwalk' hlast' _ =>
          obtain rfl := Except.ok.inj (hwalk.symm.trans hwalk')
          simp [hlast] at hlast'
  | replace hwalk hlast _ ih =>
      cases h' with
      | done hwalk' hlast' =>
          obtain rfl := Except.ok.inj (hwalk.symm.trans hwalk')
          simp [hlast] at hlast'
      | replace hwalk' hlast' rest' =>
          obtain rfl := Except.ok.inj (hwalk.symm.trans hwalk')
          obtain rfl := Option.some.inj (hlast.symm.trans hlast')
          obtain ⟨rfl, rfl⟩ := ih rest'
          exact ⟨rfl, rfl⟩

end Scope

/-! ### Walks in a theme -/

namespace Theme

variable {t : Theme} {base : Option Theme} {literal : ResolveOptions} {state : Option String}
  {token : String} {trace : Trace}

/-- Written as properties, references denote what they lead to literally: the walk stops in front of
the first token with a property, and replacing that property, as often as one is written, ends in
the literal value after fewer replacements than the literal walk has tokens. -/
theorem walk_writing_denotes (hliteral : literal.useVars = false)
    (h : (t.scope base).walk literal state token [] = .ok trace) (properties : OrdMap Value) :
    (t.scope base).Denotes literal properties state token trace := by
  have hchain := Scope.walk_nil_eq_ok.mp h
  obtain ⟨steps, hsteps, hunfolds⟩ := hchain.exists_unfolds hliteral properties
  refine ⟨?_, ?_, ?_, ⟨steps, hsteps, hunfolds⟩, ?_⟩
  · obtain hnone | ⟨front, target, rest, property, hpath, hne, hfront, hproperty⟩ :=
      hchain.split_property properties
    · exact ⟨trace, Scope.walk_nil_eq_ok.mpr (hchain.writing_same hliteral hnone)⟩
    · rw [hpath] at hchain
      have hstop := hchain.writing_stop hne hfront hproperty
      exact ⟨⟨_, front⟩, Scope.walk_nil_eq_ok.mpr hstop⟩
  · intro hnone
    exact Scope.walk_nil_eq_ok.mpr (hchain.writing_same hliteral hnone)
  · intro front target rest property hpath hne hfront hproperty
    rw [hpath] at hchain
    exact ⟨Scope.walk_nil_eq_ok.mpr (hchain.writing_stop hne hfront hproperty),
      Scope.walk_nil_eq_ok.mpr hchain.drop⟩
  · intro steps' v hunfolds'
    obtain ⟨rfl, rfl⟩ := hunfolds.unique hunfolds'
    exact ⟨hsteps, rfl⟩

/-! ### A chain with two properties -/

/-- A base whose token `line` refers to `ink`, and `ink` to `paper` in the dark. -/
def printed : Theme where
  id := "base"
  selector := ".t"
  tokens := .ofList [("paper", .text "white"), ("line", .text "\x7bink\x7d"),
    ("ink", .states (.ofList [("light", .text "black"), ("dark", .text "\x7bpaper\x7d")]))]

/-- Adds a token that refers to `line`. -/
def rimmed : Theme where
  id := "rim"
  selector := ".t"
  tokens := .ofList [("rim", .text "\x7bline\x7d")]

theorem walk_writing_denotes_rim :
    ({} : ResolveOptions).useVars = false ∧
      (rimmed.scope (some printed)).walk {} (some "dark") "rim" [] =
        .ok ⟨.text "white", ["rim", "line", "ink", "paper"]⟩ ∧
      (rimmed.scope (some printed)).Denotes {} (.ofList [("ink", "--ink"), ("paper", "--paper")])
        (some "dark") "rim" ⟨.text "white", ["rim", "line", "ink", "paper"]⟩ := by
  have hwalk : (rimmed.scope (some printed)).walk {} (some "dark") "rim" [] =
      .ok ⟨.text "white", ["rim", "line", "ink", "paper"]⟩ := rfl
  exact ⟨rfl, hwalk, walk_writing_denotes rfl hwalk _⟩

example : (rimmed.scope (some printed)).walk (.writing (.ofList [("ink", "--ink")])) (some "dark")
    "rim" [] = .ok ⟨.text "var(--ink)", ["rim", "line"]⟩ := rfl

end Theme

end DesignTokens
