import DesignTokens.Proofs.Outcome
import DesignTokens.Resolution.Walk

/-!
Walks as chains of hops. A hop is what a walk does at one token, whatever it visited before. A walk
succeeds exactly along the chain of hops from its token, so what is proved of chains by induction
holds of walks. Two scopes that agree on the hops up to some token differ there at the earliest.
-/

namespace DesignTokens

/-- What a walk does at a token: it ends with a value or goes on to a token. -/
inductive Hop where
  | stop (v : Value)
  | go (target : String)

namespace Scope

variable {s s' : Scope} {options : ResolveOptions} {state : Option String}

def hop (s : Scope) (options : ResolveOptions) (state : Option String) (token : String) :
    Except Fault Hop :=
  match s.find? token with
  | none => .error (.unknownToken token)
  | some a =>
    match a.at token state with
    | .error e => .error e
    | .ok v =>
      match v.target? with
      | none => .ok (.stop v)
      | some target =>
        match options.property? target with
        | some property =>
          if (s.find? target).isSome then .ok (.stop (.text ("var(" ++ property ++ ")")))
          else .error (.unknownToken target)
        | none => .ok (.go target)

/-- What follows a value: a walk ends in a literal, and a reference is written as the property of
its target or followed. -/
inductive Leaves (s : Scope) (options : ResolveOptions) (v : Value) : Hop → Prop where
  | literal (h : v.target? = none) : Leaves s options v (.stop v)
  | property {target property : String} (h : v.target? = some target)
      (hproperty : options.property? target = some property) (hfound : (s.find? target).isSome) :
      Leaves s options v (.stop (.text ("var(" ++ property ++ ")")))
  | follow {target : String} (h : v.target? = some target)
      (hnone : options.property? target = none) : Leaves s options v (.go target)

theorem Leaves.unique {v : Value} {next next' : Hop} (h : s.Leaves options v next)
    (h' : s'.Leaves options v next') : next = next' := by
  cases h <;> cases h' <;> simp_all

/-- A hop finds the token's value and leaves that. -/
theorem hop_eq_ok {token : String} {next : Hop} :
    s.hop options state token = .ok next ↔
      ∃ a v, s.find? token = some a ∧ a.at token state = .ok v ∧ s.Leaves options v next := by
  constructor
  · intro h
    unfold hop at h
    split at h
    · cases h
    · next a ha =>
        split at h
        · cases h
        · next v hv =>
            refine ⟨a, v, ha, hv, ?_⟩
            split at h
            · next ht => exact Except.ok.inj h ▸ .literal ht
            · next target ht =>
                split at h
                · next property hproperty =>
                    split at h
                    · next hfound => exact Except.ok.inj h ▸ .property ht hproperty hfound
                    · cases h
                · next hnone => exact Except.ok.inj h ▸ .follow ht hnone
  · rintro ⟨a, v, ha, hv, hleaves⟩
    cases hleaves with
    | literal ht => simp [hop, ha, hv, ht]
    | property ht hproperty hfound => simp [hop, ha, hv, ht, hproperty, hfound]
    | follow ht hnone => simp [hop, ha, hv, ht, hnone]

/-- The tokens that hops lead through from a token, and the value they end in. -/
inductive Chain (s : Scope) (options : ResolveOptions) (state : Option String) :
    String → List String → Value → Prop where
  | stop {token : String} {v : Value} (h : s.hop options state token = .ok (.stop v)) :
      Chain s options state token [token] v
  | go {token target : String} {rest : List String} {v : Value}
      (h : s.hop options state token = .ok (.go target))
      (tail : Chain s options state target rest v) : Chain s options state token (token :: rest) v

/-- A token has the assignment of the first table that names it, unless that is null. -/
theorem find?_eq (s : Scope) (token : String) :
    s.find? token =
      ((s.own.get? token).or (s.base.bind (OrdMap.get? · token))).filter fun a => !a.isNull := by
  obtain ⟨own, base⟩ := s
  simp only [find?]
  cases own.get? token with
  | some a => cases ha : a.isNull <;> simp [ha, Option.filter]
  | none =>
      cases base with
      | none => rfl
      | some b =>
          cases hb : b.get? token with
          | none => simp [hb]
          | some a => cases ha : a.isNull <;> simp [hb, ha, Option.filter]

theorem find?_isSome_of_hop {token : String} {next : Hop}
    (h : s.hop options state token = .ok next) : (s.find? token).isSome := by
  obtain ⟨a, -, ha, -⟩ := hop_eq_ok.mp h
  simp [ha]

theorem walk_eq_hop (s : Scope) (options : ResolveOptions) (state : Option String) (token : String)
    (path : List String) :
    s.walk options state token path =
      if (s.find? token).isSome ∧ token ∈ path then .error (.circularDependency token path)
      else
        match s.hop options state token with
        | .error e => .error e
        | .ok (.stop v) => .ok ⟨v, path ++ [token]⟩
        | .ok (.go target) => s.walk options state target (path ++ [token]) := by
  rw [walk, hop]
  split
  · next ha => simp [ha]
  · next a ha =>
      by_cases hmem : token ∈ path
      · simp [hmem, ha]
      · simp only [hmem, ha, dite_false, and_false, if_false]
        cases hv : a.at token state with
        | error e => rfl
        | ok v =>
            cases ht : v.target? with
            | none => simp only [ht]
            | some target =>
                cases hp : options.property? target with
                | none => simp only [ht, hp]
                | some property =>
                    cases hf : (s.find? target).isSome <;> simp [ht, hp, hf]

namespace Chain

theorem head {token : String} {ts : List String} {v : Value}
    (h : s.Chain options state token ts v) : ∃ rest, ts = token :: rest := by
  cases h with
  | stop _ => exact ⟨[], rfl⟩
  | go _ _ => exact ⟨_, rfl⟩

theorem unique {token : String} {ts us : List String} {v w : Value}
    (h : s.Chain options state token ts v) (h' : s.Chain options state token us w) :
    ts = us ∧ v = w := by
  induction h generalizing us with
  | stop hs =>
      cases h' with
      | stop hs' => simp_all
      | go hg _ => simp_all
  | go hg _ ih =>
      cases h' with
      | stop hs => simp_all
      | go hg' tail' =>
          obtain rfl : _ = _ := Hop.go.inj (Except.ok.inj (hg.symm.trans hg'))
          obtain ⟨rfl, rfl⟩ := ih tail'
          exact ⟨rfl, rfl⟩

/-- From a token on its way, a chain goes on as it does from the start. -/
theorem drop {token k : String} {pre post : List String} {v : Value}
    (h : s.Chain options state token (pre ++ k :: post) v) :
    s.Chain options state k (k :: post) v := by
  induction pre generalizing token with
  | nil =>
      obtain ⟨rest, hrest⟩ := h.head
      obtain ⟨rfl, -⟩ := List.cons.inj hrest
      exact h
  | cons x pre ih =>
      rw [List.cons_append] at h
      generalize hts : pre ++ k :: post = ts at h
      cases h with
      | stop _ => simp at hts
      | go _ tail => exact ih (hts ▸ tail)

theorem hop_of_mem {token k : String} {ts : List String} {v : Value}
    (h : s.Chain options state token ts v) (hk : k ∈ ts) :
    ∃ next, s.hop options state k = .ok next := by
  obtain ⟨pre, post, rfl⟩ := List.append_of_mem hk
  cases h.drop with
  | stop hs => exact ⟨_, hs⟩
  | go hg _ => exact ⟨_, hg⟩

theorem nodup {token : String} {ts : List String} {v : Value}
    (h : s.Chain options state token ts v) : ts.Nodup := by
  induction h with
  | stop _ => simp
  | @go token target rest v hg tail ih =>
      refine List.nodup_cons.mpr ⟨?_, ih⟩
      intro hmem
      obtain ⟨pre, post, rfl⟩ := List.append_of_mem hmem
      -- the chain from the repeated token would be longer than itself
      have heq := (unique (.go hg tail) tail.drop).1
      have := congrArg List.length heq
      simp at this
      omega

/-- A chain of one scope is one of another scope that has its hops. -/
theorem transfer {token : String} {ts : List String} {v : Value}
    (h : s.Chain options state token ts v)
    (hops : ∀ x ∈ ts, ∀ next,
      s.hop options state x = .ok next → s'.hop options state x = .ok next) :
    s'.Chain options state token ts v := by
  induction h with
  | stop hs => exact .stop (hops _ (by simp) _ hs)
  | go hg _ ih =>
      refine .go (hops _ (by simp) _ hg) (ih ?_)
      intro x hx
      exact hops x (List.mem_cons_of_mem _ hx)

/-- Where a hop goes on, chains from its token end in what chains from its target end in. -/
theorem exists_iff_of_go {token target : String} {v : Value}
    (hgo : s.hop options state token = .ok (.go target)) :
    (∃ ts, s.Chain options state token ts v) ↔ ∃ ts, s.Chain options state target ts v := by
  constructor
  · rintro ⟨ts, hts⟩
    cases hts with
    | stop hs => simp [hgo] at hs
    | go hg tail =>
        obtain rfl := Hop.go.inj (Except.ok.inj (hgo.symm.trans hg))
        exact ⟨_, tail⟩
  · rintro ⟨ts, hts⟩
    exact ⟨_, .go hgo hts⟩

/-- A scope that has the hops of all unmarked tokens leads from a token to what it leads to from
the first marked one. -/
theorem divert {marked : String → Bool} {token : String} {ts : List String} {v : Value}
    (h : s.Chain options state token ts v)
    (hops : ∀ x, marked x = false → ∀ next, s.hop options state x = .ok next →
      s'.hop options state x = .ok next) :
    (ts.find? marked = none ∧ s'.Chain options state token ts v) ∨
      ∃ k, ts.find? marked = some k ∧ ∀ w,
        (∃ us, s'.Chain options state token us w) ↔ ∃ us, s'.Chain options state k us w := by
  induction h with
  | @stop token v hs =>
      cases hm : marked token with
      | true => exact .inr ⟨token, by simp [hm], fun w => Iff.rfl⟩
      | false => exact .inl ⟨by simp [hm], .stop (hops token hm _ hs)⟩
  | @go token target rest v hg tail ih =>
      cases hm : marked token with
      | true => exact .inr ⟨token, by simp [hm], fun w => Iff.rfl⟩
      | false =>
          have hgo := hops token hm _ hg
          rw [List.find?_cons_of_neg (by simp [hm])]
          obtain ⟨hfind, htail⟩ | ⟨k, hfind, hk⟩ := ih
          · exact .inl ⟨hfind, .go hgo htail⟩
          · exact .inr ⟨k, hfind, fun w => (exists_iff_of_go hgo).trans (hk w)⟩

/-- Chains of two scopes from one token, whose hops are the same at unmarked tokens, end in the same
value or meet in the first marked one. -/
theorem meet {marked : String → Bool} {token : String} {ts us : List String} {v w : Value}
    (h : s.Chain options state token ts v) (h' : s'.Chain options state token us w)
    (hops : ∀ x, marked x = false → ∀ next next', s.hop options state x = .ok next →
      s'.hop options state x = .ok next' → next = next') :
    (ts.find? marked = none ∧ v = w) ∨
      ∃ k rest, ts.find? marked = some k ∧ s'.Chain options state k rest w := by
  induction h generalizing us with
  | @stop token v hs =>
      cases hm : marked token with
      | true => exact .inr ⟨token, us, by simp [hm], h'⟩
      | false =>
          refine .inl ⟨by simp [hm], ?_⟩
          cases h' with
          | stop hs' => exact Hop.stop.inj (hops token hm _ _ hs hs')
          | go hg' _ => cases hops token hm _ _ hs hg'
  | @go token target rest v hg tail ih =>
      cases hm : marked token with
      | true => exact .inr ⟨token, us, by simp [hm], h'⟩
      | false =>
          rw [List.find?_cons_of_neg (by simp [hm])]
          cases h' with
          | stop hs' => cases hops token hm _ _ hg hs'
          | go hg' tail' =>
              obtain rfl := Hop.go.inj (hops token hm _ _ hg hg')
              exact ih tail'

end Chain

/-- A walk succeeds exactly along the chain from its token, if that avoids the tokens met before. -/
theorem walk_eq_ok {token : String} {path : List String} {trace : Trace} :
    s.walk options state token path = .ok trace ↔
      ∃ ts, s.Chain options state token ts trace.value ∧ trace.path = path ++ ts ∧
        ∀ x ∈ ts, x ∉ path := by
  constructor
  · intro h
    fun_induction walk s options state token path with
    | case1 => cases h
    | case2 => cases h
    | case3 => cases h
    | case4 token path a ha hmem v hv ht =>
        cases h
        refine ⟨[token], .stop ?_, rfl, by simpa using hmem⟩
        exact hop_eq_ok.mpr ⟨a, v, ha, hv, .literal ht⟩
    | case5 token path a ha hmem v hv target ht property hp hf =>
        cases h
        refine ⟨[token], .stop ?_, rfl, by simpa using hmem⟩
        exact hop_eq_ok.mpr ⟨a, v, ha, hv, .property ht hp hf⟩
    | case6 => cases h
    | case7 token path a ha hmem v hv target ht hp ih =>
        obtain ⟨ts, hts, hpath, hfresh⟩ := ih h
        refine ⟨token :: ts, .go ?_ hts, by simp [hpath], ?_⟩
        · exact hop_eq_ok.mpr ⟨a, v, ha, hv, .follow ht hp⟩
        · intro x hx
          rcases List.mem_cons.mp hx with rfl | hx
          · exact hmem
          · exact fun hxp => hfresh x hx (List.mem_append_left _ hxp)
  · rintro ⟨ts, hts, hpath, hfresh⟩
    obtain ⟨value, tokens⟩ := trace
    obtain rfl : tokens = path ++ ts := hpath
    simp only at hts
    induction hts generalizing path with
    | stop hs =>
        have hmem := hfresh _ List.mem_cons_self
        rw [walk_eq_hop, if_neg (by simp [hmem]), hs]
    | @go token target rest v hg tail ih =>
        have hmem := hfresh _ List.mem_cons_self
        have hnot := (List.nodup_cons.mp (Chain.go hg tail).nodup).1
        rw [walk_eq_hop, if_neg (by simp [hmem]), hg]
        simp only
        rw [List.append_cons path token rest]
        refine ih ?_
        intro x hx
        rw [List.mem_append, List.mem_singleton, not_or]
        refine ⟨hfresh x (List.mem_cons_of_mem _ hx), ?_⟩
        rintro rfl
        exact hnot hx

theorem walk_nil_eq_ok {token : String} {trace : Trace} :
    s.walk options state token [] = .ok trace ↔
      s.Chain options state token trace.path trace.value := by
  rw [walk_eq_ok]
  simp

/-- Scopes that look a token up alike have its hop in common, if tokens with a property that the
first finds are found by the second. -/
theorem hop_transfer {token : String} {next : Hop} (hfind : s'.find? token = s.find? token)
    (hsome : ∀ x, (options.property? x).isSome → (s.find? x).isSome → (s'.find? x).isSome)
    (h : s.hop options state token = .ok next) : s'.hop options state token = .ok next := by
  obtain ⟨a, v, ha, hv, hleaves⟩ := hop_eq_ok.mp h
  refine hop_eq_ok.mpr ⟨a, v, hfind.trans ha, hv, ?_⟩
  cases hleaves with
  | literal ht => exact .literal ht
  | property ht hproperty hfound =>
      exact .property ht hproperty (hsome _ (by simp [hproperty]) hfound)
  | follow ht hnone => exact .follow ht hnone

/-- Where scopes look a token up alike, they go on in one way if both go on. -/
theorem hop_agree {token : String} {next next' : Hop} (hfind : s'.find? token = s.find? token)
    (h : s.hop options state token = .ok next) (h' : s'.hop options state token = .ok next') :
    next = next' := by
  obtain ⟨a, v, ha, hv, hleaves⟩ := hop_eq_ok.mp h
  obtain ⟨a', v', ha', hv', hleaves'⟩ := hop_eq_ok.mp h'
  obtain rfl := Option.some.inj (ha.symm.trans (hfind.symm.trans ha'))
  obtain rfl := Except.ok.inj (hv.symm.trans hv')
  exact hleaves.unique hleaves'

/-! ### Walks in two scopes -/

/-- Where a walk meets its first marked token, another scope leads on to the same value. -/
def Rejoins (s s' : Scope) (options : ResolveOptions) (marked : String → Bool)
    (state : Option String) (token : String) : Prop :=
  ∀ trace, s.walk options state token [] = .ok trace →
    ∀ k, trace.path.find? marked = some k →
      ∃ trace', s'.walk options state k [] = .ok trace' ∧ trace'.value = trace.value

/-- Of two scopes that agree on the hops of unmarked tokens, the second leads from a token to the
value of the first exactly if it does so from the first marked token on. -/
theorem rejoins_iff {marked : String → Bool} {token : String} {ts : List String} {v : Value}
    (h : s.Chain options state token ts v)
    (hops : ∀ x, marked x = false → ∀ next, s.hop options state x = .ok next →
      s'.hop options state x = .ok next) :
    s.Rejoins s' options marked state token ↔ ∃ us, s'.Chain options state token us v := by
  have hwalk : s.walk options state token [] = .ok ⟨v, ts⟩ := walk_nil_eq_ok.mpr h
  simp only [Rejoins, hwalk, Except.ok.injEq, forall_eq']
  obtain ⟨hfind, hchain⟩ | ⟨k, hfind, hk⟩ := h.divert hops
  · simp only [hfind, reduceCtorEq, false_implies, implies_true, true_iff]
    exact ⟨ts, hchain⟩
  · rw [hk v]
    simp only [hfind, Option.some.injEq, forall_eq', walk_nil_eq_ok]
    constructor
    · rintro ⟨trace, htrace, rfl⟩
      exact ⟨_, htrace⟩
    · rintro ⟨us, hus⟩
      exact ⟨⟨v, us⟩, hus, rfl⟩

/-- If both scopes have chains from a token, these end in one value exactly if the second leads to
the value of the first from the first marked token on. -/
theorem rejoins_iff_eq {marked : String → Bool} {token : String} {ts us : List String} {v w : Value}
    (h : s.Chain options state token ts v) (h' : s'.Chain options state token us w)
    (hops : ∀ x, marked x = false → ∀ next next', s.hop options state x = .ok next →
      s'.hop options state x = .ok next' → next = next') :
    s.Rejoins s' options marked state token ↔ v = w := by
  have hwalk : s.walk options state token [] = .ok ⟨v, ts⟩ := walk_nil_eq_ok.mpr h
  simp only [Rejoins, hwalk, Except.ok.injEq, forall_eq']
  obtain ⟨hfind, hvalue⟩ | ⟨k, rest, hfind, hk⟩ := h.meet h' hops
  · simp [hfind, hvalue]
  · simp only [hfind, Option.some.injEq, forall_eq', walk_nil_eq_ok]
    constructor
    · rintro ⟨trace, htrace, hvalue⟩
      exact hvalue.symm.trans (htrace.unique hk).2
    · rintro rfl
      exact ⟨⟨v, rest⟩, hk, rfl⟩

end Scope

end DesignTokens
