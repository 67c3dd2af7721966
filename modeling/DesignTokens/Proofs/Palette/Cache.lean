import DesignTokens.Palette.Cache
import DesignTokens.Proofs.OrdMap

/-!
Runs of a palette cache. A cache knows some requests if it holds the palettes of those that have
one, each once. It then answers every request as if it held nothing, and knows that request as well
from then on; cleared, it knows none. So a cache that starts empty is not seen in its answers,
however requests and clearings follow each other.
-/

namespace DesignTokens.PaletteCache

variable {N : Type} [Add N] [Sub N] [Mul N] [Div N] [LE N] [LT N] [DecidableLE N] [DecidableLT N]
  [OfScientific N] {space : ColorSpace N} {c : PaletteCache} {r : PaletteRequest}
  {asked : List PaletteRequest}

/-! ### Runs -/

/-- What a cache is asked for. -/
inductive Action where
  | generate (r : PaletteRequest)
  | clear

namespace Action

def request? : Action → Option PaletteRequest
  | generate r => some r
  | clear => none

/-- The requests that a cache has met since it was cleared last. -/
def pending (asked : List PaletteRequest) : Action → List PaletteRequest
  | generate r => asked ++ [r]
  | clear => []

end Action

/-- The answers to all requests in turn, and the cache in the end. -/
def run (space : ColorSpace N) (c : PaletteCache) :
    List Action → List (Except Fault Palette) × PaletteCache
  | [] => ([], c)
  | .generate r :: actions =>
    let (answer, c) := c.generate space r
    let (answers, c) := c.run space actions
    (answer :: answers, c)
  | .clear :: actions => c.clear.run space actions

/-! ### One action -/

/-- A cache holds the palettes of those among some requests that have one, each once. -/
structure Knows (space : ColorSpace N) (c : PaletteCache) (asked : List PaletteRequest) :
    Prop where
  nodup : (c.entries.map Prod.fst).Nodup
  mem_iff : ∀ r p, (r, p) ∈ c.entries ↔ r ∈ asked ∧ r.generate space = .ok p

theorem knows_clear (c : PaletteCache) : c.clear.Knows space [] :=
  ⟨List.nodup_nil, by simp [clear]⟩

namespace Knows

theorem find?_eq_some (h : c.Knows space asked) {p : Palette} :
    c.find? r = some p ↔ r ∈ asked ∧ r.generate space = .ok p :=
  (Entries.lookup_eq_some_iff h.nodup).trans (h.mem_iff r p)

/-- A request that has no palette is not found. -/
theorem find?_of_error (h : c.Knows space asked) {f : Fault} (hf : r.generate space = .error f) :
    c.find? r = none := by
  refine Option.eq_none_iff_forall_ne_some.mpr fun p hp => ?_
  cases hf.symm.trans (h.find?_eq_some.mp hp).2

/-- A request that fails changes nothing. -/
theorem generate_of_error (h : c.Knows space asked) {f : Fault}
    (hf : r.generate space = .error f) : c.generate space r = (.error f, c) := by
  simp only [PaletteCache.generate, h.find?_of_error hf, hf]

/-- Where a request is known already, or has no palette, nothing is to be added. -/
theorem snoc_of_unchanged (h : c.Knows space asked)
    (hr : ∀ p, r.generate space = .ok p → r ∈ asked) : c.Knows space (asked ++ [r]) := by
  refine ⟨h.nodup, fun r' p => (h.mem_iff r' p).trans ?_⟩
  rw [List.mem_append, List.mem_singleton]
  constructor
  · rintro ⟨hmem, hp⟩
    exact ⟨.inl hmem, hp⟩
  · rintro ⟨hmem | rfl, hp⟩
    · exact ⟨hmem, hp⟩
    · exact ⟨hr p hp, hp⟩

theorem snoc_entry (h : c.Knows space asked) {p : Palette} (hfind : c.find? r = none)
    (hp : r.generate space = .ok p) :
    Knows space ⟨c.entries ++ [(r, p)]⟩ (asked ++ [r]) := by
  have hnew : r ∉ c.entries.map Prod.fst := by
    intro hmem
    obtain ⟨⟨_, q⟩, hq, rfl⟩ := List.mem_map.mp hmem
    cases hfind.symm.trans ((Entries.lookup_eq_some_iff h.nodup).mpr hq)
  constructor
  · rw [List.map_append, List.map_singleton]
    refine List.nodup_append.mpr ⟨h.nodup, by simp, ?_⟩
    rintro k hk _ hk' rfl
    obtain rfl : k = r := List.mem_singleton.mp hk'
    exact hnew hk
  · intro r' q
    rw [List.mem_append, List.mem_append, h.mem_iff, List.mem_singleton, List.mem_singleton,
      Prod.mk.injEq]
    constructor
    · rintro (⟨hmem, hq⟩ | ⟨rfl, rfl⟩)
      · exact ⟨.inl hmem, hq⟩
      · exact ⟨.inr rfl, hp⟩
    · rintro ⟨hmem | rfl, hq⟩
      · exact .inl ⟨hmem, hq⟩
      · exact .inr ⟨rfl, Except.ok.inj (hq.symm.trans hp)⟩

/-- A cache answers what is generated without it, and knows the request from then on. -/
theorem generate (h : c.Knows space asked) (r : PaletteRequest) :
    (c.generate space r).1 = r.generate space ∧
      (c.generate space r).2.Knows space (asked ++ [r]) := by
  cases hfind : c.find? r with
  | some p =>
      obtain ⟨hmem, hp⟩ := h.find?_eq_some.mp hfind
      have hfound : c.generate space r = (.ok p, c) := by simp only [PaletteCache.generate, hfind]
      rw [hfound, hp]
      exact ⟨rfl, h.snoc_of_unchanged fun _ _ => hmem⟩
  | none =>
      cases hp : r.generate space with
      | error f =>
          rw [h.generate_of_error hp]
          refine ⟨rfl, h.snoc_of_unchanged fun p hok => ?_⟩
          cases hp.symm.trans hok
      | ok p =>
          have hadded : c.generate space r = (.ok p, ⟨c.entries ++ [(r, p)]⟩) := by
            simp only [PaletteCache.generate, hfind, hp]
          rw [hadded]
          exact ⟨rfl, h.snoc_entry hfind hp⟩

/-! ### All actions -/

theorem run (h : c.Knows space asked) (actions : List Action) :
    (c.run space actions).1 = (actions.filterMap Action.request?).map (·.generate space) ∧
      (c.run space actions).2.Knows space (actions.foldl Action.pending asked) := by
  induction actions generalizing c asked with
  | nil => exact ⟨rfl, h⟩
  | cons action actions ih =>
      cases action with
      | clear => exact ih (knows_clear c)
      | generate r =>
          obtain ⟨hanswer, hknows⟩ := h.generate r
          obtain ⟨hanswers, hrest⟩ := ih hknows
          refine ⟨?_, hrest⟩
          simp only [PaletteCache.run, hanswer, hanswers, List.filterMap_cons, Action.request?,
            List.map_cons]

end Knows

/-- A cache is not seen in its answers: each is what its request generates. A request that fails
leaves the cache as it is, and the cache always holds one palette for each request that was met with
success since the last clearing. -/
theorem run_transparent (space : ColorSpace N) (actions : List Action) :
    ∃ c : PaletteCache,
      run space {} actions = ((actions.filterMap Action.request?).map fun r =>
        generatePalette space r.role r.seed r.autoAdjust (r.mode.bind PaletteMode.ofName?), c) ∧
      (∀ r f, generatePalette space r.role r.seed r.autoAdjust (r.mode.bind PaletteMode.ofName?) =
        .error f → c.generate space r = (.error f, c)) ∧
      (c.entries.map Prod.fst).Nodup ∧
      ∀ r p, (r, p) ∈ c.entries ↔ r ∈ actions.foldl Action.pending [] ∧
        generatePalette space r.role r.seed r.autoAdjust (r.mode.bind PaletteMode.ofName?) =
          .ok p := by
  have hempty : ({} : PaletteCache).Knows space [] := knows_clear {}
  obtain ⟨hanswers, hknows⟩ := hempty.run actions
  exact ⟨(run space {} actions).2, Prod.ext hanswers rfl, fun r f hf => hknows.generate_of_error hf,
    hknows.nodup, hknows.mem_iff⟩

end DesignTokens.PaletteCache
