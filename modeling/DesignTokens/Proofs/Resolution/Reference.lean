import DesignTokens.Proofs.OrdMap
import DesignTokens.Proofs.Resolution.Walk
import DesignTokens.Proofs.Way

/-!
Walks told by references. Each token is set to a text at a state, and a text in braces refers to the
next token; a walk goes on along a reference to a token without property. So it comes to a token
where it ends, to one that it cannot leave, or back to one on its way, and the references alone say
which.
-/

namespace DesignTokens

namespace Scope

variable {s : Scope} {options : ResolveOptions} {state : Option String}
  {token target last text : String} {path before : List String} {e : Fault}

/-! ### References at a state -/

/-- The assignment of a token in a theme, or else in its base. -/
def assigned? (s : Scope) (token : String) : Option Assignment :=
  (s.own.get? token).or (s.base.bind (OrdMap.get? · token))

/-- The text that a token is set to at a state. -/
inductive Holds (s : Scope) (state : Option String) (token : String) : String → Prop where
  | text {text : String} (h : s.assigned? token = some (.text text)) : Holds s state token text
  | entry {values : OrdMap Value} {name text : String}
      (h : s.assigned? token = some (.states values)) (hstate : state = some name)
      (hentry : values.get? name = some (.text text)) : Holds s state token text

/-- A token is set to a map by state without an entry for the state, or no state is given. -/
def Lacks (s : Scope) (state : Option String) (token : String) : Prop :=
  ∃ values, s.assigned? token = some (.states values) ∧
    ∀ name, state = some name → values.get? name = none

/-- The text of a token refers to another one. -/
def Refers (s : Scope) (state : Option String) (token target : String) : Prop :=
  ∃ text, s.Holds state token text ∧ referenceIn? text = some target

/-- A walk goes on from one token to another: by a reference to a token without property. -/
def Follows (s : Scope) (options : ResolveOptions) (state : Option String)
    (token target : String) : Prop :=
  s.Refers state token target ∧ options.property? target = none

/-- Why a walk cannot leave a token. -/
inductive Stuck (s : Scope) (options : ResolveOptions) (state : Option String) (token : String) :
    Fault → Prop where
  | unknown (h : s.find? token = none) : Stuck s options state token (.unknownToken token)
  | missing (h : s.Lacks state token) :
      Stuck s options state token (.missingModeState token state)
  | dangling {target : String} (h : s.Refers state token target)
      (hproperty : (options.property? target).isSome) (hnone : s.find? target = none) :
      Stuck s options state token (.unknownToken target)

/-- The failures of walks from a token. -/
inductive Fails (s : Scope) (options : ResolveOptions) (state : Option String) (token : String) :
    Fault → Prop where
  | stuck {path : List String} {last : String} {e : Fault}
      (way : Way (s.Follows options state) token path last)
      (h : s.Stuck options state last e) : Fails s options state token e
  | circular {path : List String} {last : String}
      (way : Way (s.Follows options state) token path last) (fresh : path.Nodup)
      (again : last ∈ path) : Fails s options state token (.circularDependency last path)

/-- Following references through tokens without property never ends. -/
def Circles (s : Scope) (options : ResolveOptions) (state : Option String) (token : String) :
    Prop :=
  ∃ f : Nat → String, f 0 = token ∧ ∀ n, s.Follows options state (f n) (f (n + 1))

theorem mem_names_iff : token ∈ s.names ↔ ∃ a, s.assigned? token = some a := by
  obtain ⟨own, base⟩ := s
  cases base with
  | none => simp [names, assigned?, OrdMap.mem_keys_iff]
  | some b =>
      simp only [names, assigned?, Option.map_some, Option.getD_some, Option.bind_some,
        List.mem_append, OrdMap.mem_keys_iff, ← Option.isSome_iff_exists, Option.isSome_or,
        Bool.or_eq_true]

namespace Holds

theorem mem_names (h : s.Holds state token text) : token ∈ s.names := by
  cases h with
  | text h => exact mem_names_iff.mpr ⟨_, h⟩
  | entry h _ _ => exact mem_names_iff.mpr ⟨_, h⟩

theorem unique {text' : String} (h : s.Holds state token text) (h' : s.Holds state token text') :
    text = text' := by
  cases h <;> cases h' <;> simp_all

theorem at_eq (h : s.Holds state token text) :
    ∃ a, s.assigned? token = some a ∧ a.at token state = .ok (.text text) := by
  cases h with
  | text h => exact ⟨_, h, rfl⟩
  | entry h hstate hentry =>
      subst hstate
      exact ⟨_, h, by simp [Assignment.at, hentry]⟩

end Holds

theorem refers_rightUnique : Relator.RightUnique (s.Refers state) := by
  rintro token target target' ⟨text, htext, htarget⟩ ⟨text', htext', htarget'⟩
  obtain rfl := htext.unique htext'
  exact Option.some.inj (htarget.symm.trans htarget')

/-! ### Hops -/

theorem assigned?_of_find? {a : Assignment} (h : s.find? token = some a) :
    s.assigned? token = some a := by
  rw [find?_eq, Option.filter_eq_some_iff] at h
  exact h.1

theorem find?_of_assigned? {a : Assignment} (h : s.assigned? token = some a)
    (hnull : a.isNull = false) : s.find? token = some a := by
  rw [find?_eq, Option.filter_eq_some_iff]
  exact ⟨h, by simp [hnull]⟩

theorem holds_iff : s.Holds state token text ↔
    ∃ a, s.find? token = some a ∧ a.at token state = .ok (.text text) := by
  constructor
  · intro h
    obtain ⟨a, ha, hv⟩ := h.at_eq
    refine ⟨a, find?_of_assigned? ha ?_, hv⟩
    cases h with
    | text h =>
        obtain rfl := Option.some.inj (ha.symm.trans h)
        rfl
    | entry h _ _ =>
        obtain rfl := Option.some.inj (ha.symm.trans h)
        rfl
  · rintro ⟨a, ha, hv⟩
    have hassigned := assigned?_of_find? ha
    cases a with
    | text _ =>
        obtain rfl := Value.text.inj (Except.ok.inj hv)
        exact .text hassigned
    | other v hother =>
        obtain rfl : v = .text text := Except.ok.inj hv
        cases hother
    | states values =>
        cases state with
        | none => cases hv
        | some name =>
            simp only [Assignment.at] at hv
            split at hv
            · next v hentry => exact .entry hassigned rfl (Except.ok.inj hv ▸ hentry)
            · cases hv

theorem refers_iff : s.Refers state token target ↔
    ∃ a v, s.find? token = some a ∧ a.at token state = .ok v ∧ v.target? = some target := by
  constructor
  · rintro ⟨text, htext, htarget⟩
    obtain ⟨a, ha, hv⟩ := holds_iff.mp htext
    exact ⟨a, .text text, ha, hv, htarget⟩
  · rintro ⟨a, v, ha, hv, htarget⟩
    cases v with
    | text text => exact ⟨text, holds_iff.mpr ⟨a, ha, hv⟩, htarget⟩
    | _ => cases htarget

theorem lacks_iff : s.Lacks state token ↔
    ∃ a, s.find? token = some a ∧ a.at token state = .error (.missingModeState token state) := by
  constructor
  · rintro ⟨values, hvalues, hlacks⟩
    refine ⟨_, find?_of_assigned? hvalues rfl, ?_⟩
    cases state with
    | none => rfl
    | some name => simp [Assignment.at, hlacks name rfl]
  · rintro ⟨a, ha, he⟩
    cases a with
    | text _ => cases he
    | other _ _ => cases he
    | states values =>
        refine ⟨values, assigned?_of_find? ha, ?_⟩
        rintro name rfl
        simp only [Assignment.at] at he
        split at he
        · cases he
        · next hentry => exact hentry

theorem eq_missing_of_at {a : Assignment} (h : a.at token state = .error e) :
    e = .missingModeState token state := by
  cases a with
  | text _ => cases h
  | other _ _ => cases h
  | states values =>
      cases state with
      | none => exact (Except.error.inj h).symm
      | some name =>
          simp only [Assignment.at] at h
          split at h
          · cases h
          · exact (Except.error.inj h).symm

theorem hop_eq_go : s.hop options state token = .ok (.go target) ↔
    s.Follows options state token target := by
  rw [hop_eq_ok, Follows, refers_iff]
  constructor
  · rintro ⟨a, v, ha, hv, hleaves⟩
    cases hleaves with
    | follow htarget hnone => exact ⟨⟨a, v, ha, hv, htarget⟩, hnone⟩
  · rintro ⟨⟨a, v, ha, hv, htarget⟩, hnone⟩
    exact ⟨a, v, ha, hv, .follow htarget hnone⟩

theorem hop_eq_error : s.hop options state token = .error e ↔ s.Stuck options state token e := by
  constructor
  · intro h
    unfold hop at h
    split at h
    · next hnone => exact Except.error.inj h ▸ .unknown hnone
    · next a ha =>
        split at h
        · next e' he =>
            obtain rfl := eq_missing_of_at he
            exact Except.error.inj h ▸ .missing (lacks_iff.mpr ⟨a, ha, he⟩)
        · next v hv =>
            split at h
            · cases h
            · next target htarget =>
                split at h
                · next property hproperty =>
                    split at h
                    · cases h
                    · next hnone =>
                        refine Except.error.inj h ▸ .dangling ?_ (by simp [hproperty]) ?_
                        · exact refers_iff.mpr ⟨a, v, ha, hv, htarget⟩
                        · simpa using hnone
                · cases h
  · intro h
    cases h with
    | unknown hnone => simp [hop, hnone]
    | missing hlacks =>
        obtain ⟨a, ha, he⟩ := lacks_iff.mp hlacks
        simp [hop, ha, he]
    | dangling href hproperty hnone =>
        obtain ⟨a, v, ha, hv, htarget⟩ := refers_iff.mp href
        obtain ⟨property, hproperty⟩ := Option.isSome_iff_exists.mp hproperty
        simp [hop, ha, hv, htarget, hproperty, hnone]

theorem Stuck.isDesignFault (h : s.Stuck options state token e) : e.isDesignFault = true := by
  cases h <;> rfl

theorem follows_rightUnique : Relator.RightUnique (s.Follows options state) :=
  fun _ _ _ h h' => refers_rightUnique h.1 h'.1

theorem Stuck.not_follows (h : s.Stuck options state token e) :
    ¬ s.Follows options state token target := by
  intro hfollows
  cases (hop_eq_go.mpr hfollows).symm.trans (hop_eq_error.mpr h)

/-! ### Walks along references -/

/-- Along fresh tokens a walk is the walk from where they lead to. -/
theorem walk_of_way (way : Way (s.Follows options state) token path last)
    (fresh : (before ++ path).Nodup) :
    s.walk options state token before = s.walk options state last (before ++ path) := by
  induction way generalizing before with
  | here token => rw [List.append_nil]
  | @step token next last path h rest ih =>
      have hnot : token ∉ before := fun hmem =>
        (List.nodup_append.mp fresh).2.2 token hmem token List.mem_cons_self rfl
      rw [List.append_cons] at fresh ⊢
      rw [walk_eq_hop, if_neg fun hmem => hnot hmem.2, hop_eq_go.mpr h]
      exact ih fresh

/-- A chain is a way along references and the stop at its end. -/
theorem chain_iff_way {ts : List String} {v : Value} : s.Chain options state token ts v ↔
    ∃ path last, ts = path ++ [last] ∧ Way (s.Follows options state) token path last ∧
      s.hop options state last = .ok (.stop v) := by
  constructor
  · intro h
    induction h with
    | stop h => exact ⟨[], _, rfl, .here _, h⟩
    | @go token _ _ _ h _ ih =>
        obtain ⟨path, last, rfl, way, hstop⟩ := ih
        exact ⟨token :: path, last, rfl, .step (hop_eq_go.mp h) way, hstop⟩
  · rintro ⟨path, last, rfl, way, hstop⟩
    induction way with
    | here _ => exact .stop hstop
    | step h _ ih => exact .go (hop_eq_go.mpr h) (ih hstop)

/-- The failures of a walk that came along references. -/
theorem fails_of_walk {start : String} (way : Way (s.Follows options state) start path token)
    (fresh : path.Nodup) (h : s.walk options state token path = .error e) :
    s.Fails options state start e := by
  fun_induction walk s options state token path with
  | case1 token path hnone =>
      exact Except.error.inj h ▸ .stuck way (.unknown hnone)
  | case2 token path a ha hmem => exact Except.error.inj h ▸ .circular way fresh hmem
  | case3 token path a ha hmem e' he =>
      obtain rfl := eq_missing_of_at he
      exact Except.error.inj h ▸ .stuck way (.missing (lacks_iff.mpr ⟨a, ha, he⟩))
  | case4 => cases h
  | case5 => cases h
  | case6 token path a ha hmem v hv target htarget property hproperty hnone =>
      refine Except.error.inj h ▸ .stuck way (.dangling ?_ (by simp [hproperty]) ?_)
      · exact refers_iff.mpr ⟨a, v, ha, hv, htarget⟩
      · simpa using hnone
  | case7 token path a ha hmem v hv target htarget hproperty ih =>
      refine ih (way.snoc ⟨refers_iff.mpr ⟨a, v, ha, hv, htarget⟩, hproperty⟩) ?_ h
      rw [← List.concat_eq_append]
      exact fresh.concat hmem

/-- A walk fails exactly as the references from its token say. -/
theorem walk_eq_error : s.walk options state token [] = .error e ↔
    s.Fails options state token e := by
  constructor
  · exact fails_of_walk (.here token) List.nodup_nil
  · intro h
    cases h with
    | @stuck path last e way h =>
        have hnodup := way.nodup follows_rightUnique fun _ => h.not_follows
        have hnot : last ∉ path := fun hmem =>
          (List.nodup_append.mp hnodup).2.2 last hmem last List.mem_cons_self rfl
        have halong : s.walk options state token [] = s.walk options state last ([] ++ path) :=
          walk_of_way way hnodup.of_append_left
        rw [halong, List.nil_append, walk_eq_hop, if_neg fun hmem => hnot hmem.2,
          hop_eq_error.mpr h]
    | @circular path last way fresh again =>
        obtain ⟨next, -, hnext, -⟩ := way.exists_next again
        have halong : s.walk options state token [] = s.walk options state last ([] ++ path) :=
          walk_of_way way fresh
        rw [halong, List.nil_append, walk_eq_hop,
          if_pos ⟨find?_isSome_of_hop (hop_eq_go.mpr hnext), again⟩]

theorem Fails.isDesignFault (h : s.Fails options state token e) : e.isDesignFault = true := by
  cases h with
  | stuck _ h => exact h.isDesignFault
  | circular => rfl

/-- A walk reports a token that it met before exactly if following references never ends. -/
theorem circular_iff_circles :
    (∃ last path, s.walk options state token [] = .error (.circularDependency last path)) ↔
      s.Circles options state token := by
  constructor
  · rintro ⟨last, path, h⟩
    cases walk_eq_error.mp h with
    | stuck _ h => cases h
    | circular way _ again => exact way.endless again
  · intro hcircles
    cases hwalk : s.walk options state token [] with
    | ok trace =>
        obtain ⟨path, last, -, way, hstop⟩ := chain_iff_way.mp (walk_nil_eq_ok.mp hwalk)
        obtain ⟨next, hnext⟩ := way.exists_further follows_rightUnique hcircles
        cases (hop_eq_go.mpr hnext).symm.trans hstop
    | error e =>
        cases walk_eq_error.mp hwalk with
        | stuck way hstuck =>
            obtain ⟨next, hnext⟩ := way.exists_further follows_rightUnique hcircles
            exact absurd hnext hstuck.not_follows
        | @circular path last _ _ _ => exact ⟨last, path, rfl⟩

end Scope

end DesignTokens
