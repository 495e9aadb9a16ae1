/-
  Maps that remember the order in which their keys were first written.

  Writing to a key that is there keeps its place; a key that is erased and
  written again goes to the end. The work is done on lists of pairs
  (`Pairs`); an `OrderedMap` is such a list with distinct keys, and every
  operation keeps the keys distinct.

  What is proved:
    1. `get?_put`, `get?_erase` : what a key holds after a write and after an
       erasure.
    2. `names_put` : a write keeps the names in order and adds a new name last.
    3. `ofPairs_entries` : writing the entries of a map one by one gives the
       map again.
-/

namespace UtilityCss

universe u v

namespace Pairs

variable {κ : Type u} {α : Type v} [DecidableEq κ]

/-- What the first pair with the key holds. -/
def get? (key : κ) : List (κ × α) → Option α
  | [] => none
  | (k, v) :: rest => if k = key then some v else get? key rest

/-- The pairs with the key's value replaced in place, or added at the end. -/
def put (key : κ) (value : α) : List (κ × α) → List (κ × α)
  | [] => [(key, value)]
  | (k, v) :: rest => if k = key then (k, value) :: rest else (k, v) :: put key value rest

/-- The pairs without those of the key. -/
def erase (key : κ) : List (κ × α) → List (κ × α)
  | [] => []
  | (k, v) :: rest => if k = key then erase key rest else (k, v) :: erase key rest

/-- The pairs written one after the other: a repeated key has its last value in its first
place. -/
def ofList (pairs : List (κ × α)) : List (κ × α) :=
  pairs.foldl (fun done p => put p.1 p.2 done) []

theorem get?_put (key other : κ) (value : α) (pairs : List (κ × α)) :
    get? other (put key value pairs) = if key = other then some value else get? other pairs := by
  induction pairs with
  | nil => simp [put, get?]
  | cons p rest ih =>
    obtain ⟨k, v⟩ := p
    grind [put, get?]

theorem get?_erase (key other : κ) (pairs : List (κ × α)) :
    get? other (erase key pairs) = if key = other then none else get? other pairs := by
  induction pairs with
  | nil => simp [erase, get?]
  | cons p rest ih =>
    obtain ⟨k, v⟩ := p
    grind [erase, get?]

/-- A write keeps the names in order and adds a new name last. -/
theorem names_put (key : κ) (value : α) (pairs : List (κ × α)) :
    (put key value pairs).map Prod.fst =
      if key ∈ pairs.map Prod.fst then pairs.map Prod.fst else pairs.map Prod.fst ++ [key] := by
  induction pairs with
  | nil => simp [put]
  | cons p rest ih =>
    obtain ⟨k, v⟩ := p
    by_cases hk : k = key
    · simp [put, hk]
    · have hk' : ¬ key = k := fun h => hk h.symm
      simp only [put, hk, if_false, List.map_cons, ih, List.mem_cons, hk', false_or]
      split <;> simp

theorem erase_sublist (key : κ) (pairs : List (κ × α)) : (erase key pairs).Sublist pairs := by
  induction pairs with
  | nil => simp [erase]
  | cons p rest ih =>
    obtain ⟨k, v⟩ := p
    by_cases hk : k = key
    · simp only [erase, hk, if_true]; exact ih.cons _
    · simp only [erase, hk, if_false]; exact ih.cons_cons _

theorem nodup_put (key : κ) (value : α) {pairs : List (κ × α)} (h : (pairs.map Prod.fst).Nodup) :
    ((put key value pairs).map Prod.fst).Nodup := by
  rw [names_put]
  split
  · exact h
  · next hn =>
    rw [List.nodup_append]
    refine ⟨h, by simp, ?_⟩
    intro a ha b hb hab
    rw [List.mem_singleton] at hb
    exact hn (hb ▸ hab ▸ ha)

theorem nodup_erase (key : κ) {pairs : List (κ × α)} (h : (pairs.map Prod.fst).Nodup) :
    ((erase key pairs).map Prod.fst).Nodup :=
  ((erase_sublist key pairs).map _).nodup h

theorem put_append_of_not_mem (key : κ) (value : α) (pairs : List (κ × α))
    (h : key ∉ pairs.map Prod.fst) : put key value pairs = pairs ++ [(key, value)] := by
  induction pairs with
  | nil => rfl
  | cons p rest ih =>
    obtain ⟨k, v⟩ := p
    simp only [List.map_cons, List.mem_cons, not_or] at h
    have hk : ¬ k = key := fun e => h.1 e.symm
    simp [put, hk, ih h.2]

end Pairs

/-- A map that remembers the order in which its keys were first written. -/
@[ext] structure OrderedMap (κ : Type u) (α : Type v) where
  entries : List (κ × α)
  distinct : (entries.map Prod.fst).Nodup

namespace OrderedMap

variable {κ : Type u} {α : Type v}

def empty : OrderedMap κ α := ⟨[], List.nodup_nil⟩

def size (m : OrderedMap κ α) : Nat := m.entries.length

def names (m : OrderedMap κ α) : List κ := m.entries.map Prod.fst

variable [DecidableEq κ]

instance [DecidableEq α] : DecidableEq (OrderedMap κ α) := fun m n =>
  decidable_of_iff (m.entries = n.entries) OrderedMap.ext_iff.symm

/-- What a key holds, if it is there. -/
def get? (m : OrderedMap κ α) (key : κ) : Option α := Pairs.get? key m.entries

def contains (m : OrderedMap κ α) (key : κ) : Bool := (m.get? key).isSome

/-- The map with a key's value replaced in place, or added at the end. -/
def put (m : OrderedMap κ α) (key : κ) (value : α) : OrderedMap κ α :=
  ⟨Pairs.put key value m.entries, Pairs.nodup_put key value m.distinct⟩

def erase (m : OrderedMap κ α) (key : κ) : OrderedMap κ α :=
  ⟨Pairs.erase key m.entries, Pairs.nodup_erase key m.distinct⟩

/-- The map with pairs written to it one after the other. -/
def putAll (m : OrderedMap κ α) (pairs : List (κ × α)) : OrderedMap κ α :=
  pairs.foldl (fun m p => m.put p.1 p.2) m

/-- The map of the pairs: a repeated key has its last value in its first place. -/
def ofPairs (pairs : List (κ × α)) : OrderedMap κ α := empty.putAll pairs

/-! ## Small laws -/

theorem get?_put (m : OrderedMap κ α) (key other : κ) (value : α) :
    (m.put key value).get? other = if key = other then some value else m.get? other :=
  Pairs.get?_put key other value m.entries

theorem get?_erase (m : OrderedMap κ α) (key other : κ) :
    (m.erase key).get? other = if key = other then none else m.get? other :=
  Pairs.get?_erase key other m.entries

theorem putAll_entries_append (m : OrderedMap κ α) (pairs : List (κ × α))
    (h : ((m.entries ++ pairs).map Prod.fst).Nodup) :
    (m.putAll pairs).entries = m.entries ++ pairs := by
  induction pairs generalizing m with
  | nil => simp [putAll]
  | cons p rest ih =>
    have hp : p.1 ∉ m.entries.map Prod.fst := by
      simp only [List.map_append, List.map_cons, List.nodup_append] at h
      intro hm
      exact h.2.2 _ hm _ (by simp) rfl
    -- The name is new, so its pair goes to the end.
    have he : (m.put p.1 p.2).entries = m.entries ++ [p] :=
      Pairs.put_append_of_not_mem p.1 p.2 m.entries hp
    have := ih (m.put p.1 p.2) (by rw [he]; simpa using h)
    rw [he] at this
    simpa [putAll] using this

/-- Writing the entries of a map one by one gives the map again. -/
theorem ofPairs_entries (m : OrderedMap κ α) : ofPairs m.entries = m := by
  apply OrderedMap.ext
  have := putAll_entries_append (empty : OrderedMap κ α) m.entries (by simpa [empty] using m.distinct)
  simpa [ofPairs, empty] using this

end OrderedMap

end UtilityCss
