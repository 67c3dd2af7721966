/-!
Maps that remember the order in which their names were first added. Every ordered table of the
library (tokens, modes, states, contexts, declarations) is one. A name occurs once; writing a name
again keeps its place and replaces its value.
-/

namespace DesignTokens

/-! ### Lists of entries -/

namespace Entries

variable {α : Type}

/-- Replaces the value of a name in place, or adds the name at the end. -/
def put (name : String) (value : α) : List (String × α) → List (String × α)
  | [] => [(name, value)]
  | (k, v) :: rest => if k = name then (name, value) :: rest else (k, v) :: put name value rest

theorem mem_keys_put {name : String} {value : α} {k : String} {es : List (String × α)} :
    k ∈ (put name value es).map Prod.fst ↔ k = name ∨ k ∈ es.map Prod.fst := by
  induction es with
  | nil => simp [put]
  | cons e rest ih =>
    obtain ⟨a, v⟩ := e
    by_cases h : a = name
    · subst h; simp [put]
    · simp only [put, if_neg h, List.map_cons, List.mem_cons, ih]
      grind

theorem nodup_keys_put {name : String} {value : α} {es : List (String × α)}
    (h : (es.map Prod.fst).Nodup) : ((put name value es).map Prod.fst).Nodup := by
  induction es with
  | nil => simp [put]
  | cons e rest ih =>
    obtain ⟨a, v⟩ := e
    rw [List.map_cons, List.nodup_cons] at h
    by_cases ha : a = name
    · subst ha; simpa [put, List.nodup_cons] using h
    · simp only [put, if_neg ha, List.map_cons, List.nodup_cons, mem_keys_put]
      exact ⟨fun hm => hm.elim ha h.1, ih h.2⟩

theorem lookup_cons {κ : Type} [BEq κ] [LawfulBEq κ] [DecidableEq κ] (name key : κ) (value : α)
    (es : List (κ × α)) :
    ((name, value) :: es).lookup key = if key = name then some value else es.lookup key := by
  rw [List.lookup_cons]
  by_cases h : key = name
  · simp [h]
  · simp [h, beq_eq_false_iff_ne.mpr h]

theorem lookup_put (name key : String) (value : α) (es : List (String × α)) :
    (put name value es).lookup key = if key = name then some value else es.lookup key := by
  induction es with
  | nil => rw [put, lookup_cons]
  | cons e rest ih =>
    obtain ⟨a, v⟩ := e
    by_cases ha : a = name
    · subst ha; simp only [put, if_pos, lookup_cons]; split <;> rfl
    · simp only [put, if_neg ha, lookup_cons, ih]
      by_cases hk : key = a <;> simp_all

theorem mem_keys_of_lookup {name : String} {value : α} {es : List (String × α)}
    (h : es.lookup name = some value) : name ∈ es.map Prod.fst := by
  induction es with
  | nil => simp at h
  | cons e rest ih =>
    obtain ⟨a, v⟩ := e
    rw [lookup_cons] at h
    by_cases ha : name = a
    · simp [ha]
    · rw [if_neg ha] at h; simp [ih h]

theorem lookup_filter_ne {κ : Type} [BEq κ] [LawfulBEq κ] [DecidableEq κ] (name key : κ)
    (es : List (κ × α)) :
    (es.filter fun e => e.1 != name).lookup key = if key = name then none else es.lookup key := by
  induction es with
  | nil => simp
  | cons e rest ih =>
    obtain ⟨a, v⟩ := e
    by_cases ha : a = name
    · subst ha
      rw [List.filter_cons_of_neg (by simp), ih, lookup_cons]
      split <;> simp_all
    · by_cases hk : key = a <;> simp_all [lookup_cons]

theorem lookup_mapValues {β : Type} (f : String → α → β) (key : String) (es : List (String × α)) :
    (es.map fun e => (e.1, f e.1 e.2)).lookup key = (es.lookup key).map (f key) := by
  induction es with
  | nil => rfl
  | cons e rest ih =>
    obtain ⟨a, v⟩ := e
    rw [List.map_cons, lookup_cons, lookup_cons, ih]
    split <;> simp_all

theorem lookup_eq_none_iff {key : String} {es : List (String × α)} :
    es.lookup key = none ↔ key ∉ es.map Prod.fst := by
  induction es with
  | nil => simp
  | cons e rest ih =>
    obtain ⟨a, v⟩ := e
    rw [lookup_cons, List.map_cons, List.mem_cons, not_or, ← ih]
    by_cases hk : key = a <;> simp [hk]

theorem nodup_keys_sublist {es fs : List (String × α)} (hs : es.Sublist fs)
    (h : (fs.map Prod.fst).Nodup) : (es.map Prod.fst).Nodup :=
  h.sublist (hs.map Prod.fst)

/-- Dropping entries and changing values keeps names distinct. -/
theorem nodup_keys_filterMapValue {β : Type} {f : String × α → Option β}
    {es : List (String × α)} (h : (es.map Prod.fst).Nodup) :
    ((es.filterMap fun e => (f e).map (e.1, ·)).map Prod.fst).Nodup := by
  have hs : ((es.filterMap fun e => (f e).map (e.1, ·)).map Prod.fst).Sublist
      (es.map Prod.fst) := by
    induction es with
    | nil => simp
    | cons e rest ih =>
      rw [List.map_cons, List.nodup_cons] at h
      cases hf : f e with
      | none => simpa [hf] using List.Sublist.cons e.1 (ih h.2)
      | some v => simpa [hf] using ih h.2
  exact h.sublist hs

end Entries

/-! ### Ordered maps -/

/-- A map from names to values that remembers the order in which names were added. -/
structure OrdMap (α : Type) where
  /-- The entries, oldest name first. -/
  entries : List (String × α)
  /-- No name occurs twice. -/
  nodup : (entries.map Prod.fst).Nodup

namespace OrdMap

variable {α β : Type}

@[ext] theorem ext {m n : OrdMap α} (h : m.entries = n.entries) : m = n := by
  cases m; cases n; simp_all

/-- The map without entries. -/
def empty : OrdMap α := ⟨[], List.nodup_nil⟩

instance : Inhabited (OrdMap α) := ⟨empty⟩

instance [DecidableEq α] : DecidableEq (OrdMap α) := fun m n =>
  decidable_of_iff (m.entries = n.entries) ⟨ext, fun h => h ▸ rfl⟩

/-- The names in order. -/
def keys (m : OrdMap α) : List String := m.entries.map Prod.fst

/-- The values in the order of their names. -/
def values (m : OrdMap α) : List α := m.entries.map Prod.snd

def size (m : OrdMap α) : Nat := m.entries.length

def isEmpty (m : OrdMap α) : Bool := m.entries.isEmpty

def get? (m : OrdMap α) (name : String) : Option α := m.entries.lookup name

def contains (m : OrdMap α) (name : String) : Bool := m.keys.contains name

/-- Sets a name's value: in place when the name is known, else at the end. -/
def insert (m : OrdMap α) (name : String) (value : α) : OrdMap α :=
  ⟨Entries.put name value m.entries, Entries.nodup_keys_put m.nodup⟩

/-- Keeps the entries that satisfy a test, in order. -/
def filter (p : String → α → Bool) (m : OrdMap α) : OrdMap α :=
  ⟨m.entries.filter fun e => p e.1 e.2, Entries.nodup_keys_sublist List.filter_sublist m.nodup⟩

/-- Removes a name. -/
def erase (m : OrdMap α) (name : String) : OrdMap α := m.filter fun k _ => k != name

/-- Applies a function to every value. -/
def mapWith (f : String → α → β) (m : OrdMap α) : OrdMap β :=
  ⟨m.entries.map fun e => (e.1, f e.1 e.2), by simpa [Function.comp_def] using m.nodup⟩

def map (f : α → β) (m : OrdMap α) : OrdMap β := m.mapWith fun _ => f

/-- Writes the second map's entries over the first, in order. -/
def union (m n : OrdMap α) : OrdMap α := n.entries.foldl (fun acc e => acc.insert e.1 e.2) m

/-- A repeated name keeps its first place and takes its last value. -/
def ofList (es : List (String × α)) : OrdMap α :=
  es.foldl (fun acc e => acc.insert e.1 e.2) empty

/-- Adds a name at the end unless it is known already. -/
def insertNew (m : OrdMap α) (name : String) (value : α) : OrdMap α :=
  if m.contains name then m else m.insert name value

/-- Gives every entry a new value or drops it, in order. -/
def filterMap (f : String → α → Option β) (m : OrdMap α) : OrdMap β :=
  ⟨m.entries.filterMap fun e => (f e.1 e.2).map (e.1, ·), Entries.nodup_keys_filterMapValue m.nodup⟩

/-- Gives every entry a new value or drops it, in order; the first failure wins. -/
def filterMapM {ε : Type} (f : String → α → Except ε (Option β)) (m : OrdMap α) :
    Except ε (OrdMap β) :=
  ofList <$> m.entries.filterMapM fun e => (·.map (e.1, ·)) <$> f e.1 e.2

/-- Gives every entry a new value, in order; the first failure wins. -/
def mapM {ε : Type} (f : String → α → Except ε β) (m : OrdMap α) : Except ε (OrdMap β) :=
  ofList <$> m.entries.mapM fun e => (e.1, ·) <$> f e.1 e.2

/-- Two maps hold the same entries, whatever their order. -/
def sameWith (eq : α → α → Bool) (m n : OrdMap α) : Bool :=
  m.size == n.size && m.entries.all fun e => (n.get? e.1).any (eq e.2)

@[simp] theorem get?_empty (name : String) : (empty : OrdMap α).get? name = none := rfl

theorem get?_insert (m : OrdMap α) (name key : String) (value : α) :
    (m.insert name value).get? key = if key = name then some value else m.get? key :=
  Entries.lookup_put name key value m.entries

theorem mem_keys_of_get? {m : OrdMap α} {name : String} {value : α}
    (h : m.get? name = some value) : name ∈ m.keys :=
  Entries.mem_keys_of_lookup h

theorem get?_erase (m : OrdMap α) (name key : String) :
    (m.erase name).get? key = if key = name then none else m.get? key :=
  Entries.lookup_filter_ne name key m.entries

theorem get?_mapWith (f : String → α → β) (m : OrdMap α) (key : String) :
    (m.mapWith f).get? key = (m.get? key).map (f key) :=
  Entries.lookup_mapValues f key m.entries

@[simp] theorem get?_map (f : α → β) (m : OrdMap α) (key : String) :
    (m.map f).get? key = (m.get? key).map f :=
  get?_mapWith _ m key

@[simp] theorem keys_map (f : α → β) (m : OrdMap α) : (m.map f).keys = m.keys := by
  simp [keys, map, mapWith, Function.comp_def]

theorem get?_eq_none_iff {m : OrdMap α} {key : String} : m.get? key = none ↔ key ∉ m.keys :=
  Entries.lookup_eq_none_iff

end OrdMap

end DesignTokens
