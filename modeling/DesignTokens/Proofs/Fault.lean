import DesignTokens.Fault
import DesignTokens.Proofs.Outcome

/-!
Computations that fail by design only: with a fault of the compiler's own rules, which its commands
report. A computation in steps does so if its steps do, each from what the steps before it yield.
-/

namespace DesignTokens

variable {α β : Type} {x : Except Fault α} {e : Fault}

/-- A computation that fails does so with a fault of the compiler's own rules. -/
def FailsByDesign (x : Except Fault α) : Prop := ∀ e, x = .error e → e.isDesignFault = true

namespace FailsByDesign

theorem of_exists (h : ∃ a, x = .ok a) : FailsByDesign x := by
  obtain ⟨a, rfl⟩ := h
  exact nofun

theorem error_iff : FailsByDesign (.error e : Except Fault α) ↔ e.isDesignFault = true := by
  simp [FailsByDesign]

theorem bind_iff {f : α → Except Fault β} : FailsByDesign (x >>= f) ↔
    FailsByDesign x ∧ ∀ a, x = .ok a → FailsByDesign (f a) := by
  simp only [FailsByDesign, Outcome.bind_eq_error]
  constructor
  · intro h
    exact ⟨fun e he => h e (.inl he), fun a ha e he => h e (.inr ⟨a, ha, he⟩)⟩
  · rintro ⟨hx, hf⟩ e (he | ⟨a, ha, he⟩)
    · exact hx e he
    · exact hf a ha e he

theorem map_iff {f : α → β} : FailsByDesign (f <$> x) ↔ FailsByDesign x := by
  simp only [FailsByDesign, Outcome.map_eq_error]

/-- A list fails by design if each of its items does. -/
theorem of_firstFailure {f : α → Except Fault β} {xs : List α}
    (hf : ∀ x ∈ xs, FailsByDesign (f x)) (h : Outcome.FirstFailure f xs e) :
    e.isDesignFault = true := by
  obtain ⟨x, hx, he⟩ := h.exists_mem
  exact hf x hx e he

/-- A run fails by design if each of its steps does, from wherever it starts. -/
theorem foldlM {f : β → α → Except Fault β} {xs : List α}
    (h : ∀ x ∈ xs, ∀ b, FailsByDesign (f b x)) (b : β) : FailsByDesign (xs.foldlM f b) := by
  induction xs generalizing b with
  | nil => exact of_exists ⟨b, rfl⟩
  | cons x xs ih =>
      obtain ⟨hx, hxs⟩ := List.forall_mem_cons.mp h
      rw [List.foldlM_cons, bind_iff]
      exact ⟨hx b, fun c _ => ih hxs c⟩

end FailsByDesign

end DesignTokens
