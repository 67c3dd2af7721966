import Mathlib.Data.List.Nodup
import Mathlib.Logic.Function.Iterate
import Mathlib.Logic.Relator

/-!
Ways from item to item along a relation in which an item leads to at most one other. Such a way is
determined by where it starts, as far as it goes. Therefore a way to an item that leads nowhere
meets no item twice: from the second time on it would have to be as long as from the first. A way
that comes back to one of its items goes on forever.
-/

namespace DesignTokens

/-- The items that a relation leads through from one item to another, the last one left out. -/
inductive Way {α : Type} (R : α → α → Prop) : α → List α → α → Prop where
  | here (a : α) : Way R a [] a
  | step {a b last : α} {path : List α} (h : R a b) (rest : Way R b path last) :
      Way R a (a :: path) last

namespace Way

variable {α : Type} {R S : α → α → Prop} {a b last last' : α} {path path' : List α}

theorem snoc (way : Way R a path last) (h : R last b) : Way R a (path ++ [last]) b := by
  induction way with
  | here a => exact .step h (.here b)
  | step h' _ ih => exact .step h' (ih h)

theorem drop {k : α} {pre post : List α} (way : Way R a (pre ++ k :: post) last) :
    Way R k (k :: post) last := by
  induction pre generalizing a with
  | nil =>
      cases way with
      | step h rest => exact .step h rest
  | cons x pre ih =>
      cases way with
      | step _ rest => exact ih rest

/-- An item on a way leads to the one where the rest of the way starts. -/
theorem exists_next (way : Way R a path last) {x : α} (hx : x ∈ path) :
    ∃ y rest, R x y ∧ Way R y rest last ∧ ∀ z ∈ rest, z ∈ path := by
  obtain ⟨pre, post, rfl⟩ := List.append_of_mem hx
  cases way.drop with
  | step h rest => exact ⟨_, post, h, rest, fun z hz => by simp [hz]⟩

/-- A way that leads anywhere else takes its last step from an item on it. -/
theorem eq_or_exists_last (way : Way R a path last) : a = last ∨ ∃ x ∈ path, R x last := by
  induction way with
  | here a => exact .inl rfl
  | @step a b last path h _ ih =>
      refine .inr ?_
      rcases ih with rfl | ⟨x, hx, hlast⟩
      · exact ⟨a, List.mem_cons_self, h⟩
      · exact ⟨x, List.mem_cons_of_mem a hx, hlast⟩

theorem mono (way : Way R a path last) (h : ∀ x ∈ path, ∀ y, R x y → S x y) :
    Way S a path last := by
  induction way with
  | here a => exact .here a
  | @step a b last path hab _ ih =>
      refine .step (h a List.mem_cons_self b hab) (ih fun x hx => ?_)
      exact h x (List.mem_cons_of_mem a hx)

/-- Two ways to where the relation leads no further are one. -/
theorem unique (hR : Relator.RightUnique R) (way : Way R a path last)
    (way' : Way R a path' last') (hstop : ∀ b, ¬ R last b) (hstop' : ∀ b, ¬ R last' b) :
    path = path' ∧ last = last' := by
  induction way generalizing path' with
  | here a =>
      cases way' with
      | here _ => exact ⟨rfl, rfl⟩
      | step h _ => exact absurd h (hstop _)
  | step h _ ih =>
      cases way' with
      | here _ => exact absurd h (hstop' _)
      | step h' rest' =>
          obtain rfl := hR h h'
          obtain ⟨rfl, rfl⟩ := ih rest' hstop
          exact ⟨rfl, rfl⟩

theorem nodup (hR : Relator.RightUnique R) (way : Way R a path last)
    (hstop : ∀ b, ¬ R last b) : (path ++ [last]).Nodup := by
  induction way with
  | here _ => exact List.nodup_singleton _
  | @step a b last path h rest ih =>
      refine List.nodup_cons.mpr ⟨?_, ih hstop⟩
      intro hmem
      rcases List.mem_append.mp hmem with hmem | hmem
      · obtain ⟨pre, post, rfl⟩ := List.append_of_mem hmem
        have heq := (unique hR (.step h rest) rest.drop hstop hstop).1
        have hlength := congrArg List.length heq
        simp only [List.length_cons, List.length_append] at hlength
        omega
      · rw [List.mem_singleton.mp hmem] at h
        exact hstop b h

/-- A way that comes back can be followed round and round. -/
theorem endless (way : Way R a path last) (again : last ∈ path) :
    ∃ f : Nat → α, f 0 = a ∧ ∀ n, R (f n) (f (n + 1)) := by
  have hnext : ∀ x ∈ path, ∃ y, R x y ∧ y ∈ path := by
    intro x hx
    obtain ⟨y, rest, hxy, tail, hrest⟩ := way.exists_next hx
    refine ⟨y, hxy, ?_⟩
    cases tail with
    | here _ => exact again
    | step _ _ => exact hrest y List.mem_cons_self
  have hstart : a ∈ path := by
    cases way with
    | here _ => exact again
    | step _ _ => exact List.mem_cons_self
  have : Nonempty α := ⟨a⟩
  choose! next hrel hmem using hnext
  have hstay : ∀ n, next^[n] a ∈ path := by
    intro n
    induction n with
    | zero => exact hstart
    | succ n ih =>
        rw [Function.iterate_succ_apply']
        exact hmem _ ih
  refine ⟨fun n => next^[n] a, rfl, fun n => ?_⟩
  simp only [Function.iterate_succ_apply']
  exact hrel _ (hstay n)

/-- Where a relation leads on forever, no way comes to its end. -/
theorem exists_further (hR : Relator.RightUnique R) (way : Way R a path last)
    (hendless : ∃ f : Nat → α, f 0 = a ∧ ∀ n, R (f n) (f (n + 1))) : ∃ b, R last b := by
  obtain ⟨f, hstart, hf⟩ := hendless
  induction way generalizing f with
  | here a => exact ⟨f 1, hstart ▸ hf 0⟩
  | step h _ ih =>
      refine ih (fun n => f (n + 1)) ?_ fun n => hf (n + 1)
      exact hR (hstart ▸ hf 0) h

end Way

end DesignTokens
