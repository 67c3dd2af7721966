import DesignTokens.OrdMap

/-!
Computations that succeed, and first failures. A step that is run for every item of a list succeeds
on the list if and only if it does on each item, and the result is then that of a pure traversal;
else the list fails as the first item does on which the step fails. So the rest of the theory
reasons about pure traversals and first failures, and never opens a monadic traversal.
-/

namespace DesignTokens

namespace Outcome

variable {ε α β γ : Type}

@[simp] theorem bind_eq_ok {x : Except ε α} {f : α → Except ε β} {b : β} :
    (x >>= f) = .ok b ↔ ∃ a, x = .ok a ∧ f a = .ok b := by
  cases x with
  | error e => simp [bind, Except.bind]
  | ok a => simp [bind, Except.bind]

@[simp] theorem map_eq_ok {x : Except ε α} {f : α → β} {b : β} :
    (f <$> x) = .ok b ↔ ∃ a, x = .ok a ∧ f a = b := by
  cases x with
  | error e => simp [Functor.map, Except.map]
  | ok a => simp [Functor.map, Except.map]

@[simp] theorem pure_eq_ok {a b : α} : (pure a : Except ε α) = .ok b ↔ a = b := by
  simp [pure, Except.pure]

@[simp] theorem discard_eq_ok {x : Except ε α} {u : Unit} :
    discard x = .ok u ↔ ∃ a, x = .ok a := by
  cases x with
  | error e => simp [discard, Functor.mapConst, Except.map]
  | ok a => simp [discard, Functor.mapConst, Except.map]

theorem exists_of_isOk {x : Except ε α} (h : x.isOk = true) : ∃ a, x = .ok a := by
  cases x with
  | error e => exact Bool.noConfusion h
  | ok a => exact ⟨a, rfl⟩

@[simp] theorem bind_eq_error {x : Except ε α} {f : α → Except ε β} {e : ε} :
    (x >>= f) = .error e ↔ x = .error e ∨ ∃ a, x = .ok a ∧ f a = .error e := by
  cases x with
  | error e' => simp [bind, Except.bind]
  | ok a => simp [bind, Except.bind]

@[simp] theorem map_eq_error {x : Except ε α} {f : α → β} {e : ε} :
    (f <$> x) = .error e ↔ x = .error e := by
  cases x with
  | error e' => simp [Functor.map, Except.map]
  | ok a => simp [Functor.map, Except.map]

@[simp] theorem pure_ne_error {a : α} {e : ε} : (pure a : Except ε α) ≠ .error e := by
  simp [pure, Except.pure]

theorem exists_ok_iff {x : Except ε α} : (∃ a, x = .ok a) ↔ ∀ e, x ≠ .error e := by
  cases x with
  | error e => simp
  | ok a => simp

/-! ### First failures -/

/-- The failure of the first item of a list at which a step fails. -/
inductive FirstFailure (f : α → Except ε β) : List α → ε → Prop where
  | here {x : α} {xs : List α} {e : ε} (h : f x = .error e) : FirstFailure f (x :: xs) e
  | later {x : α} {xs : List α} {e : ε} {b : β} (h : f x = .ok b) (rest : FirstFailure f xs e) :
      FirstFailure f (x :: xs) e

section FirstFailure

variable {δ : Type} {f : α → Except ε β} {xs ys : List α} {x : α} {e : ε}

@[simp] theorem not_firstFailure_nil : ¬ FirstFailure f [] e := nofun

theorem firstFailure_cons : FirstFailure f (x :: xs) e ↔
    f x = .error e ∨ (∃ b, f x = .ok b) ∧ FirstFailure f xs e := by
  constructor
  · rintro (h | ⟨h, rest⟩)
    · exact .inl h
    · exact .inr ⟨⟨_, h⟩, rest⟩
  · rintro (h | ⟨⟨b, h⟩, rest⟩)
    · exact .here h
    · exact .later h rest

theorem firstFailure_append : FirstFailure f (xs ++ ys) e ↔
    FirstFailure f xs e ∨ (∀ x ∈ xs, ∃ b, f x = .ok b) ∧ FirstFailure f ys e := by
  induction xs with
  | nil => simp
  | cons x xs ih =>
      rw [List.cons_append, firstFailure_cons, firstFailure_cons, ih, List.forall_mem_cons,
        and_or_left, or_assoc, and_assoc]

theorem FirstFailure.exists_mem (h : FirstFailure f xs e) : ∃ x ∈ xs, f x = .error e := by
  induction h with
  | here h => exact ⟨_, List.mem_cons_self, h⟩
  | later _ _ ih =>
      obtain ⟨x, hx, h⟩ := ih
      exact ⟨x, List.mem_cons_of_mem _ hx, h⟩

theorem forall_ok_iff : (∀ x ∈ xs, ∃ b, f x = .ok b) ↔ ∀ e, ¬ FirstFailure f xs e := by
  constructor
  · intro hall e h
    obtain ⟨x, hx, he⟩ := h.exists_mem
    exact exists_ok_iff.mp (hall x hx) e he
  · intro hnone
    induction xs with
    | nil => simp
    | cons x xs ih =>
        have hx : ∃ b, f x = .ok b := exists_ok_iff.mpr fun e he => hnone e (.here he)
        obtain ⟨b, hb⟩ := hx
        exact List.forall_mem_cons.mpr ⟨⟨b, hb⟩, ih fun e h => hnone e (.later hb h)⟩

/-- An item that fails is the first one, or another item fails before it. -/
theorem FirstFailure.before_or_eq {e' : ε} (h : FirstFailure f (xs ++ x :: ys) e)
    (hx : f x = .error e') : FirstFailure f xs e ∨ e = e' := by
  rcases firstFailure_append.mp h with h | ⟨-, h⟩
  · exact .inl h
  · rcases firstFailure_cons.mp h with h | ⟨⟨b, h⟩, -⟩
    · exact .inr (Except.error.inj (h.symm.trans hx))
    · cases h.symm.trans hx

/-- A computation fails as the first of some items that fails. -/
def FailsAs (x : Except ε β) (f : γ → Except ε δ) (ys : List γ) : Prop :=
  ∀ e, x = .error e ↔ FirstFailure f ys e

namespace FailsAs

variable {x : Except ε β} {f : γ → Except ε δ} {ys zs : List γ}

theorem ok_iff (h : FailsAs x f ys) : (∃ a, x = .ok a) ↔ ∀ y ∈ ys, ∃ d, f y = .ok d := by
  rw [exists_ok_iff, forall_ok_iff]
  exact forall_congr' fun e => not_congr (h e)

theorem pure (b : β) : FailsAs (Pure.pure b) f [] := fun _ => by simp

theorem single (y : γ) : FailsAs (f y) f [y] := fun _ => by simp [firstFailure_cons]

theorem bind {g : β → Except ε α} (h : FailsAs x f ys)
    (hg : ∀ b, x = .ok b → FailsAs (g b) f zs) : FailsAs (x >>= g) f (ys ++ zs) := by
  intro e
  rw [bind_eq_error, firstFailure_append, h e, ← h.ok_iff, ← exists_and_right]
  exact or_congr_right (exists_congr fun b => and_congr_right fun hb => hg b hb e)

/-- A step that succeeds adds no failure. -/
theorem bind_ok {g : β → Except ε α} (h : ∃ b, x = .ok b) (hg : ∀ b, FailsAs (g b) f ys) :
    FailsAs (x >>= g) f ys := by
  obtain ⟨b, rfl⟩ := h
  exact hg b

/-- What the first item starts with adds no failure of its own. -/
theorem bind_head {g : β → Except ε α} {y : γ} (hy : ∀ e, x = .error e → f y = .error e)
    (hg : ∀ b, x = .ok b → FailsAs (g b) f (y :: ys)) : FailsAs (x >>= g) f (y :: ys) := by
  intro e
  cases x with
  | error e' => simp [firstFailure_cons, hy e' rfl]
  | ok b => exact (hg b rfl) e

/-- A run of steps fails as the items that its steps stand for, from wherever it starts. -/
theorem foldlM {g : β → α → Except ε β} {places : α → List γ} {xs : List α}
    (h : ∀ x ∈ xs, ∀ b, FailsAs (g b x) f (places x)) (b : β) :
    FailsAs (xs.foldlM g b) f (xs.flatMap places) := by
  induction xs generalizing b with
  | nil => exact .pure b
  | cons x xs ih =>
      obtain ⟨hx, hxs⟩ := List.forall_mem_cons.mp h
      exact (hx b).bind fun c _ => ih hxs c

end FailsAs

/-- Where every item stands for a list of others, the first failures are those of all of these. -/
theorem firstFailure_flatMap {g : α → List γ} {f' : γ → Except ε δ}
    (h : ∀ x ∈ xs, FailsAs (f x) f' (g x)) :
    FirstFailure f xs e ↔ FirstFailure f' (xs.flatMap g) e := by
  induction xs with
  | nil => simp
  | cons x xs ih =>
      obtain ⟨hx, hxs⟩ := List.forall_mem_cons.mp h
      rw [List.flatMap_cons, firstFailure_cons, firstFailure_append, ih hxs, hx e, hx.ok_iff]

theorem firstFailure_map {g : α → γ} {f' : γ → Except ε δ}
    (h : ∀ x ∈ xs, ∀ e, f x = .error e ↔ f' (g x) = .error e) :
    FirstFailure f xs e ↔ FirstFailure f' (xs.map g) e := by
  rw [List.map_eq_flatMap]
  exact firstFailure_flatMap fun x hx e => (h x hx e).trans (FailsAs.single (g x) e)

theorem firstFailure_congr {f' : α → Except ε δ}
    (h : ∀ x ∈ xs, ∀ e, f x = .error e ↔ f' x = .error e) :
    FirstFailure f xs e ↔ FirstFailure f' xs e := by
  rw [firstFailure_map (g := id) h, List.map_id]

/-- The items before the first one that fails all succeed. -/
theorem firstFailure_iff : FirstFailure f xs e ↔ ∃ before x after, xs = before ++ x :: after ∧
    (∀ y ∈ before, ∃ b, f y = .ok b) ∧ f x = .error e := by
  constructor
  · intro h
    induction h with
    | @here x xs e h => exact ⟨[], x, xs, rfl, nofun, h⟩
    | @later y xs e b h _ ih =>
        obtain ⟨before, x, after, rfl, hbefore, hx⟩ := ih
        exact ⟨y :: before, x, after, rfl, List.forall_mem_cons.mpr ⟨⟨b, h⟩, hbefore⟩, hx⟩
  · rintro ⟨before, x, after, rfl, hbefore, hx⟩
    exact firstFailure_append.mpr (.inr ⟨hbefore, .here hx⟩)

theorem mapM_eq_error : xs.mapM f = .error e ↔ FirstFailure f xs e := by
  induction xs with
  | nil => simp
  | cons x xs ih =>
      simp only [List.mapM_cons, bind_eq_error, pure_ne_error, and_false, exists_false, or_false,
        firstFailure_cons, ih, exists_and_right]

theorem filterMapM_eq_error {f : α → Except ε (Option β)} :
    xs.filterMapM f = .error e ↔ FirstFailure f xs e := by
  induction xs with
  | nil => simp
  | cons x xs ih =>
      rw [List.filterMapM_cons, bind_eq_error, firstFailure_cons, ← ih, ← exists_and_right]
      refine or_congr_right (exists_congr fun b => and_congr_right fun _ => ?_)
      cases b with
      | none => exact Iff.rfl
      | some b => simp

end FirstFailure

/-! ### Traversals -/

/-- The value of a computation, or a default for a failed one. -/
def valueOr (a : α) : Except ε α → α
  | .ok b => b
  | .error _ => a

theorem filterMapM_eq_ok {f : α → Except ε (Option β)} {xs : List α} {ys : List β} :
    xs.filterMapM f = .ok ys ↔
      ∃ g : α → Option β, (∀ x ∈ xs, f x = .ok (g x)) ∧ ys = xs.filterMap g := by
  constructor
  · intro h
    refine ⟨fun x => valueOr none (f x), ?_⟩
    induction xs generalizing ys with
    | nil =>
        obtain rfl := pure_eq_ok.mp h
        simp
    | cons x xs ih =>
        simp only [List.filterMapM_cons, bind_eq_ok] at h
        obtain ⟨b, hx, h⟩ := h
        cases b with
        | none =>
            obtain ⟨hall, hys⟩ := ih h
            refine ⟨by simpa [hx, valueOr] using hall, ?_⟩
            have hhead : valueOr none (f x) = none := by rw [hx]; rfl
            simp only [List.filterMap_cons, hhead, hys]
        | some b =>
            simp only [bind_eq_ok, pure_eq_ok] at h
            obtain ⟨zs, hzs, rfl⟩ := h
            obtain ⟨hall, hys⟩ := ih hzs
            refine ⟨by simpa [hx, valueOr] using hall, ?_⟩
            have hhead : valueOr none (f x) = some b := by rw [hx]; rfl
            simp only [List.filterMap_cons, hhead, hys]
  · rintro ⟨g, hall, rfl⟩
    induction xs with
    | nil => rfl
    | cons x xs ih =>
        have htail := ih fun y hy => hall y (List.mem_cons_of_mem x hy)
        rw [List.filterMapM_cons, hall x List.mem_cons_self, bind_eq_ok]
        refine ⟨g x, rfl, ?_⟩
        cases hg : g x with
        | none => simpa [hg] using htail
        | some b => simp [hg, htail]

theorem mapM_eq_ok [Nonempty β] {f : α → Except ε β} {xs : List α} {ys : List β} :
    xs.mapM f = .ok ys ↔ ∃ g : α → β, (∀ x ∈ xs, f x = .ok (g x)) ∧ ys = xs.map g := by
  let other : β := Classical.choice ‹Nonempty β›
  constructor
  · intro h
    refine ⟨fun x => valueOr other (f x), ?_⟩
    induction xs generalizing ys with
    | nil =>
        obtain rfl := pure_eq_ok.mp h
        simp
    | cons x xs ih =>
        simp only [List.mapM_cons, bind_eq_ok, pure_eq_ok] at h
        obtain ⟨b, hx, zs, hzs, rfl⟩ := h
        obtain ⟨hall, hys⟩ := ih hzs
        refine ⟨by simpa [hx, valueOr] using hall, ?_⟩
        have hhead : valueOr other (f x) = b := by rw [hx]; rfl
        rw [List.map_cons, hhead, ← hys]
  · rintro ⟨g, hall, rfl⟩
    induction xs with
    | nil => rfl
    | cons x xs ih =>
        have htail := ih fun y hy => hall y (List.mem_cons_of_mem x hy)
        rw [List.mapM_cons, hall x List.mem_cons_self, bind_eq_ok]
        exact ⟨g x, rfl, by simp [htail]⟩

theorem forM_eq_ok {f : α → Except ε Unit} {xs : List α} {u : Unit} :
    xs.forM f = .ok u ↔ ∀ x ∈ xs, f x = .ok () := by
  induction xs with
  | nil => simp
  | cons x xs ih =>
      rw [List.forM, bind_eq_ok, List.forall_mem_cons]
      constructor
      · rintro ⟨a, hx, hxs⟩
        exact ⟨hx, ih.mp hxs⟩
      · rintro ⟨hx, hxs⟩
        exact ⟨(), hx, ih.mpr hxs⟩

/-- What every step keeps holds after all of them. -/
theorem foldlM_induction {f : β → α → Except ε β} {xs : List α} {b c : β}
    (motive : List α → β → Prop) (start : motive [] b)
    (step : ∀ done x rest b' c', xs = done ++ x :: rest → motive done b' → f b' x = .ok c' →
      motive (done ++ [x]) c')
    (h : xs.foldlM f b = .ok c) : motive xs c := by
  suffices H : ∀ rest done b', xs = done ++ rest → motive done b' →
      rest.foldlM f b' = .ok c → motive xs c from H xs [] b rfl start h
  intro rest
  induction rest with
  | nil =>
      intro done b' hxs hm hfold
      obtain rfl := pure_eq_ok.mp hfold
      rwa [hxs, List.append_nil]
  | cons x rest ih =>
      intro done b' hxs hm hfold
      rw [List.foldlM_cons, bind_eq_ok] at hfold
      obtain ⟨c', hx, hrest⟩ := hfold
      exact ih (done ++ [x]) c' (by simp [hxs]) (step done x rest b' c' hxs hm hx) hrest

/-- A run succeeds if every step does from what the steps before it keep. -/
theorem exists_foldlM {f : β → α → Except ε β} {xs : List α} {b : β} (motive : List α → β → Prop)
    (start : motive [] b)
    (step : ∀ done x rest b', xs = done ++ x :: rest → motive done b' →
      ∃ c', f b' x = .ok c' ∧ motive (done ++ [x]) c') :
    ∃ c, xs.foldlM f b = .ok c ∧ motive xs c := by
  suffices H : ∀ rest done b', xs = done ++ rest → motive done b' →
      ∃ c, rest.foldlM f b' = .ok c ∧ motive xs c from H xs [] b rfl start
  intro rest
  induction rest with
  | nil =>
      intro done b' hxs hm
      exact ⟨b', rfl, by rwa [hxs, List.append_nil]⟩
  | cons x rest ih =>
      intro done b' hxs hm
      obtain ⟨c', hx, hm'⟩ := step done x rest b' hxs hm
      obtain ⟨c, hrest, hc⟩ := ih (done ++ [x]) c' (by simp [hxs]) hm'
      refine ⟨c, ?_, hc⟩
      rw [List.foldlM_cons, bind_eq_ok]
      exact ⟨c', hx, hrest⟩

/-- A fold is carried over to other states if each of its steps is. -/
theorem foldlM_carried {f : β → α → Except ε β} {f' : γ → α → Except ε γ} {xs : List α} {b c : β}
    (g : β → γ) (step : ∀ x b' c', f b' x = .ok c' → f' (g b') x = .ok (g c'))
    (h : xs.foldlM f b = .ok c) : xs.foldlM f' (g b) = .ok (g c) := by
  induction xs generalizing b with
  | nil =>
      obtain rfl := pure_eq_ok.mp h
      rfl
  | cons x xs ih =>
      obtain ⟨b', hstep, hrest⟩ := bind_eq_ok.mp h
      exact bind_eq_ok.mpr ⟨g b', step x b b' hstep, ih hrest⟩

/-- A run is that of a pure step, if each step is from what the steps before it keep. -/
theorem foldlM_eq_ok {f : β → α → Except ε β} {g : β → α → β} {ok : α → Prop} {xs : List α}
    {b c : β} (motive : List α → β → Prop) (start : motive [] b)
    (step : ∀ done x rest b', xs = done ++ x :: rest → motive done b' →
      (∀ c', f b' x = .ok c' ↔ ok x ∧ c' = g b' x) ∧ (ok x → motive (done ++ [x]) (g b' x))) :
    xs.foldlM f b = .ok c ↔ (∀ x ∈ xs, ok x) ∧ c = xs.foldl g b := by
  suffices H : ∀ rest done b', xs = done ++ rest → motive done b' →
      (rest.foldlM f b' = .ok c ↔ (∀ x ∈ rest, ok x) ∧ c = rest.foldl g b') from H xs [] b rfl start
  intro rest
  induction rest with
  | nil =>
      intro done b' _ _
      rw [List.foldlM_nil, pure_eq_ok]
      simp [eq_comm]
  | cons x rest ih =>
      intro done b' hxs hm
      obtain ⟨hstep, hkeep⟩ := step done x rest b' hxs hm
      rw [List.foldlM_cons, bind_eq_ok, List.forall_mem_cons, List.foldl_cons, and_assoc]
      constructor
      · rintro ⟨c', hx, hrest⟩
        obtain ⟨hok, rfl⟩ := (hstep c').mp hx
        exact ⟨hok, (ih (done ++ [x]) _ (by simp [hxs]) (hkeep hok)).mp hrest⟩
      · rintro ⟨hok, hrest⟩
        refine ⟨g b' x, (hstep _).mpr ⟨hok, rfl⟩, ?_⟩
        exact (ih (done ++ [x]) _ (by simp [hxs]) (hkeep hok)).mpr hrest

/-- A run whose steps all stay where they are stays there. -/
theorem foldlM_eq_self {f : β → α → Except ε β} {xs : List α} {b : β}
    (h : ∀ x ∈ xs, f b x = .ok b) : xs.foldlM f b = .ok b := by
  induction xs with
  | nil => rfl
  | cons x xs ih =>
      rw [List.foldlM_cons, bind_eq_ok]
      exact ⟨b, h x List.mem_cons_self, ih fun y hy => h y (List.mem_cons_of_mem x hy)⟩

theorem exists_foldlM_of_forall {f : β → α → Except ε β} {xs : List α} (b : β)
    (h : ∀ x ∈ xs, ∀ b, ∃ c, f b x = .ok c) : ∃ c, xs.foldlM f b = .ok c := by
  have hstep : ∀ done x rest b', xs = done ++ x :: rest → True → ∃ c, f b' x = .ok c ∧ True := by
    rintro done x rest b' rfl -
    obtain ⟨c, hc⟩ := h x (by simp) b'
    exact ⟨c, hc, trivial⟩
  obtain ⟨c, hc, -⟩ := exists_foldlM (fun _ _ => True) trivial hstep
  exact ⟨c, hc⟩

end Outcome

end DesignTokens
