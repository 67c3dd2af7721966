import DesignTokens.Proofs.Outcome
import Mathlib.Data.List.Basic

/-!
Ordered maps as partial functions. For each operation there is an equation that says what it does to
`get?`; where the order of names matters later, another one says what it does to the entries.
-/

namespace DesignTokens

variable {α β ε : Type}

namespace Entries

theorem lookup_eq_some_iff {κ : Type} [BEq κ] [LawfulBEq κ] {es : List (κ × α)}
    (h : (es.map Prod.fst).Nodup) {key : κ} {a : α} : es.lookup key = some a ↔ (key, a) ∈ es := by
  induction es with
  | nil => simp
  | cons e rest ih =>
      obtain ⟨k, v⟩ := e
      rw [List.map_cons, List.nodup_cons] at h
      by_cases hk : key = k
      · subst hk
        have hrest : (key, a) ∉ rest := fun hmem => h.1 (List.mem_map.mpr ⟨_, hmem, rfl⟩)
        simp [hrest, eq_comm]
      · simp [List.lookup_cons, beq_eq_false_iff_ne.mpr hk, hk, ih h.2]

theorem put_of_notMem {name : String} {es : List (String × α)} (h : name ∉ es.map Prod.fst)
    (value : α) : put name value es = es ++ [(name, value)] := by
  induction es with
  | nil => rfl
  | cons e rest ih =>
      obtain ⟨k, v⟩ := e
      rw [List.map_cons, List.mem_cons, not_or] at h
      rw [put, if_neg (Ne.symm h.1), ih h.2, List.cons_append]

theorem lookup_filter {es : List (String × α)} (h : (es.map Prod.fst).Nodup)
    (p : String → α → Bool) (key : String) :
    (es.filter fun e => p e.1 e.2).lookup key = (es.lookup key).filter (p key) := by
  induction es with
  | nil => rfl
  | cons e rest ih =>
      obtain ⟨k, v⟩ := e
      rw [List.map_cons, List.nodup_cons] at h
      by_cases hk : key = k
      · subst hk
        have hrest : rest.lookup key = none := lookup_eq_none_iff.mpr h.1
        cases hp : p key v <;> simp [hp, ih h.2, hrest, Option.filter]
      · cases hp : p k v <;> simp [hp, lookup_cons, ih h.2, hk]

theorem lookup_filterMap {es : List (String × α)} (h : (es.map Prod.fst).Nodup)
    (f : String → α → Option β) (key : String) :
    (es.filterMap fun e => (f e.1 e.2).map (e.1, ·)).lookup key = (es.lookup key).bind (f key) := by
  induction es with
  | nil => rfl
  | cons e rest ih =>
      obtain ⟨k, v⟩ := e
      rw [List.map_cons, List.nodup_cons] at h
      by_cases hk : key = k
      · subst hk
        have hrest : rest.lookup key = none := lookup_eq_none_iff.mpr h.1
        cases hf : f key v <;> simp [hf, ih h.2, hrest]
      · cases hf : f k v <;> simp [hf, lookup_cons, ih h.2, hk]

end Entries

namespace OrdMap

variable {m n : OrdMap α} {key : String} {a : α}

/-! ### Names and values -/

theorem mem_entries_iff : (key, a) ∈ m.entries ↔ m.get? key = some a :=
  (Entries.lookup_eq_some_iff m.nodup).symm

theorem mem_keys_iff : key ∈ m.keys ↔ ∃ a, m.get? key = some a := by
  rw [← not_iff_not, ← get?_eq_none_iff, Option.eq_none_iff_forall_ne_some]
  simp

theorem contains_iff : m.contains key = true ↔ key ∈ m.keys := by
  simp [contains]

theorem contains_eq_isSome (m : OrdMap α) (key : String) :
    m.contains key = (m.get? key).isSome := by
  rw [Bool.eq_iff_iff, contains_iff, mem_keys_iff, Option.isSome_iff_exists]

theorem mem_values_iff : a ∈ m.values ↔ ∃ key, m.get? key = some a := by
  simp [values, ← mem_entries_iff]

theorem eq_empty_of_isEmpty (h : m.isEmpty = true) : m = empty :=
  OrdMap.ext (List.isEmpty_iff.mp h)

theorem eq_empty_of_get? (h : ∀ key, m.get? key = none) : m = empty := by
  have hkeys : m.keys = [] :=
    List.eq_nil_iff_forall_not_mem.mpr fun key => get?_eq_none_iff.mp (h key)
  exact ext (List.map_eq_nil_iff.mp hkeys)

/-- A map is known by its names in order and by what they stand for. -/
theorem ext_get? (hkeys : m.keys = n.keys) (h : ∀ key, m.get? key = n.get? key) : m = n := by
  refine ext (List.ext_getElem (by simpa [keys] using congrArg List.length hkeys) ?_)
  intro i hi hj
  have hkey : m.entries[i].1 = n.entries[i].1 := by
    simpa [keys, hi, hj] using congrArg (·[i]?) hkeys
  have hm : m.get? m.entries[i].1 = some m.entries[i].2 :=
    mem_entries_iff.mp (List.getElem_mem hi)
  have hn : n.get? n.entries[i].1 = some n.entries[i].2 :=
    mem_entries_iff.mp (List.getElem_mem hj)
  rw [h, hkey, hn] at hm
  exact Prod.ext hkey (Option.some.inj hm).symm

/-- The order of entries does not count in a lookup. -/
theorem get?_eq_of_perm (h : m.entries.Perm n.entries) (key : String) :
    m.get? key = n.get? key := by
  refine Option.ext fun a => ?_
  rw [← mem_entries_iff, ← mem_entries_iff]
  exact h.mem_iff

/-! ### Operations -/

theorem entries_foldl_insert (es : List (String × α)) (m : OrdMap α)
    (h : ((m.entries ++ es).map Prod.fst).Nodup) :
    (es.foldl (fun acc e => acc.insert e.1 e.2) m).entries = m.entries ++ es := by
  induction es generalizing m with
  | nil => simp
  | cons e rest ih =>
      have hnew : e.1 ∉ m.entries.map Prod.fst := by
        rw [List.map_append, List.nodup_append] at h
        intro hmem
        exact h.2.2 _ hmem _ (by simp) rfl
      have hput : (m.insert e.1 e.2).entries = m.entries ++ [e] :=
        Entries.put_of_notMem hnew e.2
      rw [List.foldl_cons, ih _ (by rw [hput]; simpa using h), hput]
      simp

theorem entries_ofList {es : List (String × α)} (h : (es.map Prod.fst).Nodup) :
    (ofList es).entries = es := by
  simpa [ofList, empty] using entries_foldl_insert es empty (by simpa [empty] using h)

theorem ofList_entries (m : OrdMap α) : ofList m.entries = m := ext (entries_ofList m.nodup)

theorem get?_foldl_insert (es : List (String × α)) (m : OrdMap α) (h : (es.map Prod.fst).Nodup) :
    (es.foldl (fun acc e => acc.insert e.1 e.2) m).get? key =
      (es.lookup key).or (m.get? key) := by
  induction es generalizing m with
  | nil => simp
  | cons e rest ih =>
      obtain ⟨k, v⟩ := e
      rw [List.map_cons, List.nodup_cons] at h
      rw [List.foldl_cons, ih _ h.2, get?_insert, Entries.lookup_cons]
      by_cases hk : key = k
      · subst hk
        simp [Entries.lookup_eq_none_iff.mpr h.1]
      · simp [hk]

theorem get?_union (m n : OrdMap α) (key : String) :
    (m.union n).get? key = (n.get? key).or (m.get? key) :=
  get?_foldl_insert n.entries m n.nodup

/-- Writing over a name keeps its place, a new one comes last. -/
theorem keys_insert (m : OrdMap α) (name : String) (value : α) :
    (m.insert name value).keys = if m.contains name then m.keys else m.keys ++ [name] := by
  suffices H : ∀ es : List (String × α), (Entries.put name value es).map Prod.fst =
      if (es.map Prod.fst).contains name then es.map Prod.fst else es.map Prod.fst ++ [name] from
    H m.entries
  intro es
  induction es with
  | nil => rfl
  | cons e rest ih =>
      obtain ⟨k, v⟩ := e
      by_cases hk : k = name
      · simp [Entries.put, hk]
      · simp only [Entries.put, if_neg hk, List.map_cons, ih, List.contains_cons,
          beq_eq_false_iff_ne.mpr (Ne.symm hk), Bool.false_or]
        split <;> rfl

theorem keys_union (m n : OrdMap α) :
    (m.union n).keys = m.keys ++ n.keys.filter fun key => !m.contains key := by
  suffices H : ∀ es : List (String × α), (es.map Prod.fst).Nodup →
      (es.foldl (fun acc e => acc.insert e.1 e.2) m).keys =
        m.keys ++ (es.map Prod.fst).filter fun key => !m.contains key from H n.entries n.nodup
  intro es
  induction es generalizing m with
  | nil => simp
  | cons e rest ih =>
      intro h
      rw [List.map_cons, List.nodup_cons] at h
      rw [List.foldl_cons, ih _ h.2, keys_insert, List.map_cons, List.filter_cons]
      -- the name just written is none of those that follow
      have hrest : ((rest.map Prod.fst).filter fun key => !(m.insert e.1 e.2).contains key) =
          (rest.map Prod.fst).filter fun key => !m.contains key := by
        refine List.filter_congr fun key hkey => ?_
        have hne : key ≠ e.1 := fun heq => h.1 (heq ▸ hkey)
        simp [contains_eq_isSome, get?_insert, hne]
      rw [hrest]
      cases m.contains e.1 <;> simp

theorem mem_keys_union : key ∈ (m.union n).keys ↔ key ∈ m.keys ∨ key ∈ n.keys := by
  simp only [mem_keys_iff, ← Option.isSome_iff_exists, get?_union, Option.isSome_or,
    Bool.or_eq_true, or_comm]

/-- A map written once more over what it was written over changes nothing. -/
theorem union_union_self (m n : OrdMap α) : (m.union n).union n = m.union n := by
  refine ext_get? ?_ fun key => ?_
  · rw [keys_union (m.union n), List.append_right_eq_self, List.filter_eq_nil_iff]
    intro key hkey
    simpa [contains_iff] using mem_keys_union.mpr (.inr hkey)
  · rw [get?_union, get?_union, ← Option.or_assoc, Option.or_self]

theorem get?_filter (p : String → α → Bool) (m : OrdMap α) (key : String) :
    (m.filter p).get? key = (m.get? key).filter (p key) :=
  Entries.lookup_filter m.nodup p key

theorem get?_filterMap (f : String → α → Option β) (m : OrdMap α) (key : String) :
    (m.filterMap f).get? key = (m.get? key).bind (f key) :=
  Entries.lookup_filterMap m.nodup f key

/-- Where the new value depends on the name alone, it is that of the name. -/
theorem get?_filterMap_of_mem {f : String → Option β} (h : key ∈ m.keys) :
    (m.filterMap fun key _ => f key).get? key = f key := by
  obtain ⟨a, ha⟩ := mem_keys_iff.mp h
  rw [get?_filterMap, ha, Option.bind_some]

/-- A map whose new values are the old ones drops entries only. -/
theorem filterMap_eq_filter {f : String → α → Option α} {p : String → α → Bool}
    (h : ∀ key a, m.get? key = some a → f key a = if p key a then some a else none) :
    m.filterMap f = m.filter p := by
  rw [OrdMap.ext_iff]
  simp only [filter, filterMap]
  rw [← List.filterMap_eq_filter]
  refine List.filterMap_congr fun e he => ?_
  rw [h e.1 e.2 (mem_entries_iff.mp he)]
  cases hp : p e.1 e.2 <;> simp [hp, Option.guard]

theorem filter_congr {p q : String → α → Bool}
    (h : ∀ key a, m.get? key = some a → p key a = q key a) : m.filter p = m.filter q :=
  ext (List.filter_congr fun e he => h e.1 e.2 (mem_entries_iff.mp he))

theorem filterMap_congr {f g : String → α → Option β}
    (h : ∀ key a, m.get? key = some a → f key a = g key a) : m.filterMap f = m.filterMap g := by
  refine ext (List.filterMap_congr fun e he => ?_)
  rw [h e.1 e.2 (mem_entries_iff.mp he)]

theorem filterMap_eq_self {f : String → α → Option α}
    (h : ∀ key a, m.get? key = some a → f key a = some a) : m.filterMap f = m := by
  rw [filterMap_congr h]
  exact ext (by simp [filterMap])

theorem get?_insertNew (m : OrdMap α) (name key : String) (value : α) :
    (m.insertNew name value).get? key =
      (m.get? key).or (if key = name then some value else none) := by
  unfold insertNew
  split
  · next h =>
      by_cases hk : key = name
      · obtain ⟨a, ha⟩ := mem_keys_iff.mp (contains_iff.mp h)
        simp [hk, ha]
      · simp [hk]
  · next h =>
      rw [get?_insert]
      by_cases hk : key = name
      · have hnone : m.get? name = none := by
          rw [get?_eq_none_iff, ← contains_iff]
          simpa using h
        simp [hk, hnone]
      · simp [hk]

theorem get?_foldl_insertNew (es : List (String × α)) (m : OrdMap α) (key : String) :
    (es.foldl (fun m e => m.insertNew e.1 e.2) m).get? key = (m.get? key).or (es.lookup key) := by
  induction es generalizing m with
  | nil => simp
  | cons e es ih =>
      rw [List.foldl_cons, ih, get?_insertNew, Option.or_assoc, Entries.lookup_cons]
      congr 1
      split <;> simp

theorem mem_keys_foldl_insertNew (es : List (String × α)) :
    key ∈ (es.foldl (fun m e => m.insertNew e.1 e.2) m).keys ↔
      key ∈ m.keys ∨ key ∈ es.map Prod.fst := by
  rw [← not_iff_not, not_or, ← get?_eq_none_iff, get?_foldl_insertNew, Option.or_eq_none_iff,
    get?_eq_none_iff, Entries.lookup_eq_none_iff]

/-- Of the added entries those are new whose names are not known. -/
theorem entries_foldl_insertNew (es : List (String × α)) (m : OrdMap α)
    (h : (es.map Prod.fst).Nodup) : (es.foldl (fun m e => m.insertNew e.1 e.2) m).entries =
      m.entries ++ es.filter fun e => !m.contains e.1 := by
  induction es generalizing m with
  | nil => simp
  | cons e es ih =>
      rw [List.map_cons, List.nodup_cons] at h
      rw [List.foldl_cons, ih _ h.2, List.filter_cons]
      cases hknown : m.contains e.1 with
      | true => simp [insertNew, hknown]
      | false =>
          have hnew : e.1 ∉ m.entries.map Prod.fst := by
            simpa [contains, keys] using hknown
          have hput : (m.insertNew e.1 e.2).entries = m.entries ++ [e] := by
            rw [insertNew, if_neg (by simp [hknown])]
            exact Entries.put_of_notMem hnew e.2
          -- the name just added is none of those that follow
          have hrest : (es.filter fun d => !(m.insertNew e.1 e.2).contains d.1) =
              es.filter fun d => !m.contains d.1 := by
            refine List.filter_congr fun d hd => ?_
            have hne : d.1 ≠ e.1 := fun heq => h.1 (heq ▸ List.mem_map_of_mem hd)
            simp [contains_eq_isSome, get?_insertNew, hne]
          rw [hput, hrest]
          simp

theorem foldl_insertNew_of_mem {es : List (String × α)} (h : ∀ e ∈ es, e.1 ∈ m.keys) :
    es.foldl (fun m e => m.insertNew e.1 e.2) m = m := by
  induction es with
  | nil => rfl
  | cons e es ih =>
      have hknown : m.insertNew e.1 e.2 = m :=
        if_pos (contains_iff.mpr (h e List.mem_cons_self))
      rw [List.foldl_cons, hknown, ih fun d hd => h d (List.mem_cons_of_mem e hd)]

@[simp] theorem keys_mapWith (f : String → α → β) (m : OrdMap α) : (m.mapWith f).keys = m.keys := by
  simp [keys, mapWith, Function.comp_def]

theorem mapWith_congr {f g : String → α → β}
    (h : ∀ key a, m.get? key = some a → f key a = g key a) : m.mapWith f = m.mapWith g := by
  refine ext (List.map_congr_left fun e he => ?_)
  rw [h e.1 e.2 (mem_entries_iff.mp he)]

theorem mapWith_eq_self {f : String → α → α} (h : ∀ key a, m.get? key = some a → f key a = a) :
    m.mapWith f = m :=
  (mapWith_congr h).trans (ext (List.map_id _))

theorem mapWith_mapWith {γ : Type} (f : String → α → β) (g : String → β → γ) (m : OrdMap α) :
    (m.mapWith f).mapWith g = m.mapWith fun key a => g key (f key a) :=
  ext (List.map_map ..)

/-- Writing over one name gives that name a new value. -/
theorem insert_eq_mapWith {name : String} (h : m.get? name = some a) (b : α) :
    m.insert name b = m.mapWith fun key x => if key = name then b else x := by
  refine ext_get? ?_ fun key => ?_
  · rw [keys_mapWith, keys_insert, if_pos (contains_iff.mpr (mem_keys_of_get? h))]
  · rw [get?_mapWith, get?_insert]
    by_cases hkey : key = name
    · simp [hkey, h]
    · simp [hkey]

theorem keys_filter (p : String → α → Bool) (m : OrdMap α) :
    (m.filter p).keys = m.keys.filter (m.filter p).contains := by
  rw [keys, keys, List.filter_map]
  congr 1
  refine List.filter_congr fun e he => ?_
  rw [Function.comp_apply, contains_eq_isSome, get?_filter, mem_entries_iff.mp he]
  cases hp : p e.1 e.2 <;> simp [hp, Option.filter]

theorem keys_filterMap (f : String → α → Option β) (m : OrdMap α) :
    (m.filterMap f).keys = m.keys.filter fun key => ((m.get? key).bind (f key)).isSome := by
  have hget : ∀ e ∈ m.entries, m.get? e.1 = some e.2 := fun e he => mem_entries_iff.mp he
  simp only [keys, filterMap]
  generalize hes : m.entries = es at hget
  clear hes
  induction es with
  | nil => rfl
  | cons e rest ih =>
      have htail := ih fun x hx => hget x (List.mem_cons_of_mem e hx)
      have hhead := hget e List.mem_cons_self
      cases hf : f e.1 e.2 <;> simp [hf, hhead, htail]

theorem map_erase (f : α → β) (m : OrdMap α) (name : String) :
    (m.map f).erase name = (m.erase name).map f := by
  refine ext ?_
  simp [erase, filter, map, mapWith, List.filter_map, Function.comp_def]

theorem map_insert (f : α → β) (m : OrdMap α) (name : String) (value : α) :
    (m.map f).insert name (f value) = (m.insert name value).map f := by
  refine ext_get? ?_ fun key => ?_
  · rw [keys_insert, keys_map, keys_map, keys_insert, contains, keys_map, contains]
  · rw [get?_insert, get?_map, get?_map, get?_insert]
    split <;> rfl

/-- Adding a name that was taken out before puts it at the end. -/
theorem entries_insert_erase (m : OrdMap α) (name : String) (value : α) :
    ((m.erase name).insert name value).entries =
      (m.entries.filter fun e => e.1 != name) ++ [(name, value)] := by
  refine Entries.put_of_notMem ?_ value
  simp [erase, filter]

theorem filter_insert_erase (m : OrdMap α) (name : String) (value : α) (p : String → Bool) :
    ((m.erase name).insert name value).filter (fun key _ => p key) =
      if p name then ((m.filter fun key _ => p key).erase name).insert name value
      else m.filter fun key _ => p key := by
  refine ext ?_
  have hentries : (((m.erase name).insert name value).filter fun key _ => p key).entries =
      ((m.entries.filter fun e => e.1 != name) ++ [(name, value)]).filter fun e => p e.1 :=
    congrArg (List.filter _) (entries_insert_erase m name value)
  rw [hentries, List.filter_append, List.filter_filter]
  cases hp : p name with
  | true =>
      rw [if_pos rfl, entries_insert_erase, filter, List.filter_filter]
      simp only [List.filter_cons, hp, if_true, List.filter_nil]
      congr 1
      exact List.filter_congr fun e _ => Bool.and_comm _ _
  | false =>
      simp only [List.filter_cons, hp, Bool.false_eq_true, if_false, List.filter_nil,
        List.append_nil]
      refine List.filter_congr fun e _ => ?_
      by_cases heq : e.1 = name
      · simp [heq, hp]
      · simp [heq]

/-! ### Traversals that may fail -/

theorem filterMapM_eq_ok {f : String → α → Except ε (Option β)} {m : OrdMap α} {n : OrdMap β} :
    m.filterMapM f = .ok n ↔
      ∃ g : String → α → Option β,
        (∀ key a, m.get? key = some a → f key a = .ok (g key a)) ∧ n = m.filterMap g := by
  constructor
  · intro h
    obtain ⟨ys, hys, rfl⟩ := Outcome.map_eq_ok.mp h
    obtain ⟨g, hg, rfl⟩ := Outcome.filterMapM_eq_ok.mp hys
    have hstep : ∀ e ∈ m.entries, ∃ b, f e.1 e.2 = .ok b ∧ b.map (e.1, ·) = g e :=
      fun e he => Outcome.map_eq_ok.mp (hg e he)
    let value : String → α → Option β := fun key a => Outcome.valueOr none (f key a)
    have hvalue : ∀ e ∈ m.entries, g e = (value e.1 e.2).map (e.1, ·) := by
      intro e he
      obtain ⟨b, hb, hgb⟩ := hstep e he
      simp [value, hb, ← hgb, Outcome.valueOr]
    refine ⟨value, ?_, ?_⟩
    · intro key a ha
      obtain ⟨b, hb, -⟩ := hstep (key, a) (mem_entries_iff.mpr ha)
      simp only at hb
      simp [value, hb, Outcome.valueOr]
    · rw [OrdMap.ext_iff, List.filterMap_congr hvalue]
      exact entries_ofList (m.filterMap value).nodup
  · rintro ⟨g, hg, rfl⟩
    refine Outcome.map_eq_ok.mpr ⟨(m.filterMap g).entries, ?_, ?_⟩
    · refine Outcome.filterMapM_eq_ok.mpr ⟨fun e => (g e.1 e.2).map (e.1, ·), ?_, rfl⟩
      intro e he
      exact Outcome.map_eq_ok.mpr ⟨_, hg e.1 e.2 (mem_entries_iff.mp he), rfl⟩
    · exact OrdMap.ext (entries_ofList (m.filterMap g).nodup)

theorem filterMapM_eq_error {f : String → α → Except ε (Option β)} {m : OrdMap α} {e : ε} :
    m.filterMapM f = .error e ↔
      Outcome.FirstFailure (fun entry => f entry.1 entry.2) m.entries e := by
  rw [filterMapM, Outcome.map_eq_error, Outcome.filterMapM_eq_error]
  exact Outcome.firstFailure_congr fun _ _ _ => Outcome.map_eq_error

theorem mapM_eq_error {f : String → α → Except ε β} {m : OrdMap α} {e : ε} :
    m.mapM f = .error e ↔
      Outcome.FirstFailure (fun entry => f entry.1 entry.2) m.entries e := by
  rw [mapM, Outcome.map_eq_error, Outcome.mapM_eq_error]
  exact Outcome.firstFailure_congr fun _ _ _ => Outcome.map_eq_error

theorem exists_filterMapM {f : String → α → Except ε (Option β)} {m : OrdMap α}
    (h : ∀ key a, m.get? key = some a → ∃ b?, f key a = .ok b?) :
    ∃ n, m.filterMapM f = .ok n := by
  refine ⟨_, filterMapM_eq_ok.mpr ⟨fun key a => Outcome.valueOr none (f key a), ?_, rfl⟩⟩
  intro key a ha
  obtain ⟨b?, hb⟩ := h key a ha
  simp [hb, Outcome.valueOr]

theorem mapM_eq_ok [Nonempty β] {f : String → α → Except ε β} {m : OrdMap α} {n : OrdMap β} :
    m.mapM f = .ok n ↔
      ∃ g : String → α → β, (∀ key a, m.get? key = some a → f key a = .ok (g key a)) ∧
        n = m.mapWith g := by
  let other : β := Classical.choice ‹Nonempty β›
  constructor
  · intro h
    obtain ⟨ys, hys, rfl⟩ := Outcome.map_eq_ok.mp h
    have : Nonempty (String × β) := ⟨("", other)⟩
    obtain ⟨g, hg, rfl⟩ := Outcome.mapM_eq_ok.mp hys
    have hstep : ∀ e ∈ m.entries, ∃ b, f e.1 e.2 = .ok b ∧ (e.1, b) = g e :=
      fun e he => Outcome.map_eq_ok.mp (hg e he)
    let value : String → α → β := fun key a => Outcome.valueOr other (f key a)
    have hvalue : ∀ e ∈ m.entries, g e = (e.1, value e.1 e.2) := by
      intro e he
      obtain ⟨b, hb, hgb⟩ := hstep e he
      simp [value, hb, ← hgb, Outcome.valueOr]
    refine ⟨value, ?_, ?_⟩
    · intro key a ha
      obtain ⟨b, hb, -⟩ := hstep (key, a) (mem_entries_iff.mpr ha)
      simp only at hb
      simp [value, hb, Outcome.valueOr]
    · rw [OrdMap.ext_iff, List.map_congr_left hvalue]
      exact entries_ofList (m.mapWith value).nodup
  · rintro ⟨g, hg, rfl⟩
    refine Outcome.map_eq_ok.mpr ⟨(m.mapWith g).entries, ?_, ?_⟩
    · have : Nonempty (String × β) := ⟨("", other)⟩
      refine Outcome.mapM_eq_ok.mpr ⟨fun e => (e.1, g e.1 e.2), ?_, rfl⟩
      intro e he
      exact Outcome.map_eq_ok.mpr ⟨_, hg e.1 e.2 (mem_entries_iff.mp he), rfl⟩
    · exact OrdMap.ext (entries_ofList (m.mapWith g).nodup)

end OrdMap

end DesignTokens
