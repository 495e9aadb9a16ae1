import Mathlib.Data.List.Basic
import Mathlib.Data.List.Induction
import UtilityCss.OrderedMap
/-
  What a map holds after pairs are written to it.

  A map is known by its names, in order, and by what each of them holds. Pairs
  written one after the other give a name the place of its first pair and the
  value of its last one; these two can be read off the pairs without writing
  anything.

  What is proved:
    1. `get?_eq_some_iff`, `entries_eq` : a map is its names with what they
       hold.
    2. `get?_putAll_of_not_mem` : what a name holds that is not among the pairs.
    3. `names_ofPairs`, `get?_ofPairs` : the names of a map of pairs, and what
       they hold.
-/

namespace UtilityCss

universe u v

variable {κ : Type u} {α : Type v} [DecidableEq κ]

theorem Pairs.mem_of_get? {key : κ} {value : α} {pairs : List (κ × α)}
    (h : Pairs.get? key pairs = some value) : (key, value) ∈ pairs := by
  induction pairs with
  | nil => cases h
  | cons p rest ih =>
    obtain ⟨k, v⟩ := p
    rw [Pairs.get?] at h
    split at h
    · next hk =>
      rw [← hk, ← Option.some.inj h]
      exact List.mem_cons_self
    · exact List.mem_cons_of_mem _ (ih h)

namespace Pairs

/-! ## Lists of pairs -/

theorem ofList_eq_entries (pairs : List (κ × α)) :
    ofList pairs = (OrderedMap.ofPairs pairs).entries := by
  have hfrom : ∀ m : OrderedMap κ α,
      pairs.foldl (fun done p => put p.1 p.2 done) m.entries = (m.putAll pairs).entries := by
    induction pairs with
    | nil => exact fun m => rfl
    | cons p rest ih => exact fun m => ih (m.put p.1 p.2)
  exact hfrom OrderedMap.empty

/-- Pairs of distinct keys stay as they are when they are written. -/
theorem ofList_of_nodup {pairs : List (κ × α)} (h : (pairs.map Prod.fst).Nodup) :
    ofList pairs = pairs := by
  rw [ofList_eq_entries]
  exact congrArg OrderedMap.entries (OrderedMap.ofPairs_entries ⟨pairs, h⟩)

/-- To change every value and to write are one whichever comes first. -/
theorem put_map {β : Type v} (f : α → β) (key : κ) (value : α) (pairs : List (κ × α)) :
    put key (f value) (pairs.map (fun p => (p.1, f p.2))) =
      (put key value pairs).map (fun p => (p.1, f p.2)) := by
  induction pairs with
  | nil => rfl
  | cons p rest ih =>
    obtain ⟨k, v⟩ := p
    by_cases hk : k = key
    · simp [put, hk]
    · simp [put, hk, ih]

/-- The second of two writes to a key is the one that counts. -/
theorem put_put (key : κ) (first second : α) (pairs : List (κ × α)) :
    put key second (put key first pairs) = put key second pairs := by
  induction pairs with
  | nil => simp [put]
  | cons p rest ih =>
    obtain ⟨k, v⟩ := p
    by_cases hk : k = key
    · simp [put, hk]
    · simp [put, hk, ih]

theorem ofList_map {β : Type v} (f : α → β) (pairs : List (κ × α)) :
    ofList (pairs.map (fun p => (p.1, f p.2))) = (ofList pairs).map (fun p => (p.1, f p.2)) := by
  have hfrom : ∀ done : List (κ × α),
      pairs.foldl (fun done p => put p.1 (f p.2) done) (done.map (fun p => (p.1, f p.2))) =
        (pairs.foldl (fun done p => put p.1 p.2 done) done).map (fun p => (p.1, f p.2)) := by
    induction pairs with
    | nil => exact fun done => rfl
    | cons p rest ih =>
      intro done
      rw [List.foldl_cons, List.foldl_cons, put_map, ih]
  rw [ofList, List.foldl_map]
  exact hfrom []

end Pairs

namespace OrderedMap

/-! ## Maps as their entries -/

theorem get?_eq_some_iff (m : OrderedMap κ α) (key : κ) (value : α) :
    m.get? key = some value ↔ (key, value) ∈ m.entries := by
  obtain ⟨entries, distinct⟩ := m
  show Pairs.get? key entries = some value ↔ (key, value) ∈ entries
  induction entries with
  | nil => simp [Pairs.get?]
  | cons e rest ih =>
    obtain ⟨k, v⟩ := e
    rw [List.map_cons, List.nodup_cons] at distinct
    by_cases hk : k = key
    · subst hk
      have hnot : (k, value) ∉ rest := fun h => distinct.1 (List.mem_map.2 ⟨_, h, rfl⟩)
      simp [Pairs.get?, hnot, eq_comm]
    · simp [Pairs.get?, hk, Ne.symm hk, ih distinct.2]

theorem contains_iff_mem (m : OrderedMap κ α) (key : κ) : m.contains key = true ↔ key ∈ m.names := by
  rw [contains, Option.isSome_iff_exists, names, List.mem_map]
  constructor
  · rintro ⟨value, hvalue⟩
    exact ⟨(key, value), (get?_eq_some_iff m key value).1 hvalue, rfl⟩
  · rintro ⟨e, hmem, rfl⟩
    exact ⟨e.2, (get?_eq_some_iff m e.1 e.2).2 hmem⟩

theorem get?_of_perm {m n : OrderedMap κ α} (h : m.entries.Perm n.entries) (key : κ) :
    m.get? key = n.get? key := by
  ext value
  rw [get?_eq_some_iff, get?_eq_some_iff, h.mem_iff]

/-- A map is its names, each with what it holds. -/
theorem entries_eq (m : OrderedMap κ α) :
    m.entries = m.names.filterMap (fun key => (m.get? key).map (fun value => (key, value))) := by
  have hentry : ∀ e ∈ m.entries, (m.get? e.1).map (fun value => (e.1, value)) = some e := by
    intro e he
    rw [(get?_eq_some_iff m e.1 e.2).2 he]
    rfl
  rw [names, List.filterMap_map]
  exact ((List.filterMap_congr hentry).trans List.filterMap_some).symm

/-! ## Writing pairs -/

theorem put_put (m : OrderedMap κ α) (key : κ) (first second : α) :
    (m.put key first).put key second = m.put key second :=
  OrderedMap.ext (Pairs.put_put key first second m.entries)

theorem get?_putAll_of_not_mem (m : OrderedMap κ α) {pairs : List (κ × α)} {key : κ}
    (h : key ∉ pairs.map Prod.fst) : (m.putAll pairs).get? key = m.get? key := by
  induction pairs generalizing m with
  | nil => rfl
  | cons p rest ih =>
    rw [List.map_cons, List.mem_cons, not_or] at h
    show ((m.put p.1 p.2).putAll rest).get? key = m.get? key
    rw [ih _ h.2, get?_put, if_neg (Ne.symm h.1)]

theorem ofPairs_concat (pairs : List (κ × α)) (p : κ × α) :
    ofPairs (pairs ++ [p]) = (ofPairs pairs).put p.1 p.2 := by
  simp [ofPairs, putAll]

/-- The names of a map of pairs stand where the pairs have them first. -/
theorem names_ofPairs [BEq κ] [LawfulBEq κ] (pairs : List (κ × α)) :
    (ofPairs pairs).names = (pairs.map Prod.fst).eraseDups := by
  induction pairs using List.reverseRecOn with
  | nil => rfl
  | append_singleton front p ih =>
    have hput := Pairs.names_put p.1 p.2 (ofPairs front).entries
    have hnames : (ofPairs front).entries.map Prod.fst = (front.map Prod.fst).eraseDups := ih
    have hmem : p.1 ∈ (front.map Prod.fst).eraseDups ↔ p.1 ∈ front.map Prod.fst :=
      List.mem_eraseDups
    rw [ofPairs_concat, List.map_append, List.eraseDups_append]
    refine hput.trans ?_
    by_cases h : p.1 ∈ front.map Prod.fst
    · rw [hnames, if_pos (hmem.2 h)]
      simp [List.removeAll, h]
    · rw [hnames, if_neg (mt hmem.1 h)]
      simp [List.removeAll, h, List.eraseDups_cons]

/-- A name of a map of pairs holds what its last pair has. -/
theorem get?_ofPairs (pairs : List (κ × α)) (key : κ) :
    (ofPairs pairs).get? key = ((pairs.filter (fun p => p.1 = key)).getLast?).map Prod.snd := by
  induction pairs using List.reverseRecOn with
  | nil => rfl
  | append_singleton front p ih =>
    rw [ofPairs_concat, get?_put, ih, List.filter_append, List.filter_cons, List.filter_nil]
    by_cases h : p.1 = key <;> simp [h]

theorem mem_of_mem_ofPairs {pairs : List (κ × α)} {e : κ × α} (h : e ∈ (ofPairs pairs).entries) :
    e ∈ pairs := by
  have hget := (get?_eq_some_iff (ofPairs pairs) e.1 e.2).2 h
  rw [get?_ofPairs] at hget
  obtain ⟨p, hlast, hvalue⟩ := Option.map_eq_some_iff.1 hget
  obtain ⟨hp, hname⟩ := List.mem_filter.1 (List.mem_of_getLast? hlast)
  rwa [← Prod.ext (of_decide_eq_true hname) hvalue]

end OrderedMap

end UtilityCss
