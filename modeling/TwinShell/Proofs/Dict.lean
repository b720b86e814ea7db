import TwinShell.Dict

/-!
# Laws of dictionaries

What is found under a key after storing and removing, which keys there are, and how many. Counting needs the order of the keys: a key that is stored before the first larger one was not there yet.
-/

namespace TwinShell

universe u

variable {α : Type u}

namespace Assoc

theorem find?_put (key key' : String) (value : α) (entries : List (String × α)) :
    find? key' (put key value entries) = if key' = key then some value else find? key' entries := by
  induction entries with
  | nil => simp [put, find?, eq_comm]
  | cons head rest ih =>
    obtain ⟨k, a⟩ := head
    by_cases hkey : key' = key
    · subst hkey
      rw [if_pos rfl] at ih ⊢
      rw [put]
      split
      · simp [find?]
      · split
        · simp [find?]
        · rename_i hne
          rw [find?, if_neg hne, ih]
    · rw [if_neg hkey] at ih ⊢
      rw [put]
      split
      · rw [find?, if_neg (Ne.symm hkey)]
      · split
        · rename_i heq
          rw [find?, if_neg (Ne.symm hkey), find?, if_neg (heq ▸ Ne.symm hkey)]
        · rw [find?, find?, ih]

theorem find?_filter_ne (key key' : String) (entries : List (String × α)) :
    find? key' (entries.filter fun e => e.1 ≠ key) =
      if key' = key then none else find? key' entries := by
  induction entries with
  | nil => simp [find?]
  | cons head rest ih =>
    obtain ⟨k, a⟩ := head
    by_cases hk : k = key
    · subst hk
      rw [List.filter_cons_of_neg (by simp), ih]
      split
      · rfl
      · rename_i hne
        rw [find?, if_neg (Ne.symm hne)]
    · rw [List.filter_cons_of_pos (by simpa using hk), find?, find?, ih]
      split
      · rename_i heq
        rw [if_neg (heq ▸ hk)]
      · rfl

theorem find?_eq_none_iff {key : String} {entries : List (String × α)} :
    find? key entries = none ↔ ∀ e ∈ entries, e.1 ≠ key := by
  induction entries with
  | nil => simp [find?]
  | cons head rest ih =>
    obtain ⟨k, a⟩ := head
    rw [find?]
    split
    · simp_all
    · simp_all

theorem length_put {key : String} {value : α} {entries : List (String × α)} (h : Sorted entries) :
    (put key value entries).length =
      if (find? key entries).isSome then entries.length else entries.length + 1 := by
  induction entries with
  | nil => simp [put, find?]
  | cons head rest ih =>
    obtain ⟨k, a⟩ := head
    obtain ⟨hk, hrest⟩ := List.pairwise_cons.1 h
    rw [put]
    split
    · rename_i hlt
      have hnone : find? key ((k, a) :: rest) = none := by
        refine find?_eq_none_iff.2 fun e he => ?_
        rcases List.mem_cons.1 he with rfl | he
        · exact fun heq => String.lt_irrefl _ (heq ▸ hlt)
        · exact fun heq => String.lt_irrefl _ (heq ▸ String.lt_trans hlt (hk e he))
      simp [hnone]
    · split
      · rename_i heq
        simp [find?, heq]
      · rename_i hne
        rw [List.length_cons, ih hrest, find?, if_neg hne]
        split <;> rfl

theorem length_filter_ne {key : String} {entries : List (String × α)} (h : Sorted entries)
    (hkey : (find? key entries).isSome) :
    (entries.filter fun e => e.1 ≠ key).length + 1 = entries.length := by
  induction entries with
  | nil => cases hkey
  | cons head rest ih =>
    obtain ⟨k, a⟩ := head
    obtain ⟨hk, hrest⟩ := List.pairwise_cons.1 h
    by_cases heq : k = key
    · subst heq
      have hself : (rest.filter fun e => e.1 ≠ k) = rest := by
        refine List.filter_eq_self.2 fun e he => decide_eq_true ?_
        exact fun heq => String.lt_irrefl _ (heq ▸ hk e he)
      rw [List.filter_cons_of_neg (by simp), hself, List.length_cons]
    · rw [find?, if_neg heq] at hkey
      rw [List.filter_cons_of_pos (by simpa using heq), List.length_cons, ih hrest hkey,
        List.length_cons]

theorem find?_eq_some_iff {key : String} {value : α} {entries : List (String × α)}
    (h : Sorted entries) : find? key entries = some value ↔ (key, value) ∈ entries := by
  induction entries with
  | nil => simp [find?]
  | cons head rest ih =>
    obtain ⟨k, a⟩ := head
    obtain ⟨hk, hrest⟩ := List.pairwise_cons.1 h
    rw [find?]
    by_cases heq : k = key
    · subst heq
      have hnot : (k, value) ∉ rest := fun hmem => String.lt_irrefl k (hk (k, value) hmem)
      simp [hnot, eq_comm]
    · simp [heq, Ne.symm heq, ih hrest]

theorem put_of_lt {key : String} {value : α} {entries : List (String × α)}
    (h : ∀ e ∈ entries, e.1 < key) : put key value entries = entries ++ [(key, value)] := by
  induction entries with
  | nil => rfl
  | cons head rest ih =>
    have hlt : head.1 < key := h head List.mem_cons_self
    rw [put, if_neg fun hgt => String.lt_irrefl _ (String.lt_trans hlt hgt),
      if_neg fun heq => String.lt_irrefl _ (heq ▸ hlt), ih fun e he => h e (List.mem_cons_of_mem _ he),
      List.cons_append]

theorem filter_ne_put {key : String} {value : α} {entries : List (String × α)}
    (h : find? key entries = none) : (put key value entries).filter (fun e => e.1 ≠ key) = entries := by
  have hall := find?_eq_none_iff.1 h
  induction entries with
  | nil => simp [put]
  | cons head rest ih =>
    have hhead : head.1 ≠ key := hall head List.mem_cons_self
    have hrest : ∀ e ∈ rest, e.1 ≠ key := fun e he => hall e (List.mem_cons_of_mem _ he)
    rw [put, if_neg hhead]
    split
    · rw [List.filter_cons_of_neg (by simp), List.filter_eq_self]
      exact fun e he => decide_eq_true (hall e he)
    · rw [List.filter_cons_of_pos (by simpa using hhead),
        ih (find?_eq_none_iff.2 hrest) hrest]

end Assoc

namespace Dict

variable {d : Dict α} {key key' : String} {value : α}

theorem get?_insert (d : Dict α) (key key' : String) (value : α) :
    (d.insert key value).get? key' = if key' = key then some value else d.get? key' :=
  Assoc.find?_put key key' value d.entries

theorem get?_erase (d : Dict α) (key key' : String) :
    (d.erase key).get? key' = if key' = key then none else d.get? key' :=
  Assoc.find?_filter_ne key key' d.entries

def All (p : α → Prop) (d : Dict α) : Prop := ∀ key value, d.get? key = some value → p value

theorem All.insert {p : α → Prop} (h : d.All p) (hvalue : p value) : (d.insert key value).All p := by
  intro key' value' hget
  rw [get?_insert] at hget
  split at hget
  · cases hget
    exact hvalue
  · exact h key' value' hget

theorem All.erase {p : α → Prop} (h : d.All p) : (d.erase key).All p := by
  intro key' value' hget
  rw [get?_erase] at hget
  split at hget
  · cases hget
  · exact h key' value' hget

theorem contains_insert (d : Dict α) (key key' : String) (value : α) :
    (d.insert key value).contains key' ↔ key' = key ∨ d.contains key' := by
  rw [contains, get?_insert]
  split <;> simp_all [contains]

theorem contains_erase (d : Dict α) (key key' : String) :
    (d.erase key).contains key' ↔ key' ≠ key ∧ d.contains key' := by
  rw [contains, get?_erase]
  split <;> simp_all [contains]

theorem contains_foldl_erase (keys : List String) (d : Dict α) (key : String) :
    (keys.foldl erase d).contains key ↔ key ∉ keys ∧ d.contains key := by
  induction keys generalizing d with
  | nil => simp
  | cons key' keys ih =>
    rw [List.foldl_cons, ih, contains_erase, List.mem_cons, not_or, and_left_comm, and_assoc]

theorem get?_foldl_erase (keys : List String) (d : Dict α) (key : String) :
    (keys.foldl erase d).get? key = if key ∈ keys then none else d.get? key := by
  induction keys generalizing d with
  | nil => rfl
  | cons key' keys ih =>
    rw [List.foldl_cons, ih, get?_erase]
    by_cases hkeys : key ∈ keys
    · simp [hkeys]
    · simp [hkeys]

theorem contains_iff : d.contains key ↔ ∃ value, d.get? key = some value := Option.isSome_iff_exists

theorem mem_keys : key ∈ d.keys ↔ d.contains key := by
  rw [contains, ← Option.ne_none_iff_isSome, get?, ne_eq, Assoc.find?_eq_none_iff, keys, List.mem_map]
  constructor
  · rintro ⟨e, he, rfl⟩ hnone
    exact hnone e he rfl
  · intro h
    simp only [ne_eq, Classical.not_forall, Classical.not_not] at h
    obtain ⟨e, he, heq⟩ := h
    exact ⟨e, he, heq⟩

theorem keys_sorted (d : Dict α) : d.keys.Pairwise (· < ·) := List.pairwise_map.2 d.sorted

theorem ext_entries {d d' : Dict α} (h : d.entries = d'.entries) : d = d' := by
  cases d
  cases d'
  cases h
  rfl

theorem mem_entries : (key, value) ∈ d.entries ↔ d.get? key = some value :=
  (Assoc.find?_eq_some_iff d.sorted).symm

theorem nodup_keys (d : Dict α) : d.keys.Nodup :=
  d.keys_sorted.imp fun {a b} (hlt : a < b) (heq : a = b) => String.lt_irrefl b (heq ▸ hlt)

theorem nodup_entries (d : Dict α) : d.entries.Nodup := by
  refine List.Pairwise.imp ?_ d.sorted
  rintro a _ hlt rfl
  exact String.lt_irrefl _ hlt

/-- Dictionaries with the same look-ups are equal. -/
theorem ext_get? {d d' : Dict α} (h : ∀ key value, d.get? key = some value ↔ d'.get? key = some value) :
    d = d' := by
  have hmem : ∀ e, e ∈ d.entries ↔ e ∈ d'.entries := by
    intro e
    rw [mem_entries, mem_entries, h]
  have hperm := (List.perm_ext_iff_of_nodup d.nodup_entries d'.nodup_entries).2 hmem
  exact ext_entries (hperm.eq_of_pairwise (fun a b _ _ hab hba => absurd hba (String.lt_asymm hab))
    d.sorted d'.sorted)

theorem entries_insertAll (d : Dict α) {pairs : List (String × α)}
    (h : Assoc.Sorted (d.entries ++ pairs)) : (d.insertAll pairs).entries = d.entries ++ pairs := by
  induction pairs generalizing d with
  | nil => exact (List.append_nil _).symm
  | cons pair pairs ih =>
    have hlt : ∀ e ∈ d.entries, e.1 < pair.1 := fun e he =>
      (List.pairwise_append.1 h).2.2 e he pair List.mem_cons_self
    have hinsert : (d.insert pair.1 pair.2).entries = d.entries ++ [pair] := Assoc.put_of_lt hlt
    have hassoc : d.entries ++ pair :: pairs = (d.insert pair.1 pair.2).entries ++ pairs := by
      rw [hinsert, List.append_assoc, List.singleton_append]
    rw [hassoc] at h ⊢
    exact ih _ h

theorem entries_ofList {pairs : List (String × α)} (h : Assoc.Sorted pairs) : (ofList pairs).entries = pairs :=
  entries_insertAll empty h

/-- A dictionary is made of its entries. -/
theorem ofList_entries (d : Dict α) : ofList d.entries = d := ext_entries (entries_ofList d.sorted)

/-- What is stored last under a key is found, and below that what was there before. -/
theorem get?_insertAll (d : Dict α) (pairs : List (String × α)) (key : String) :
    (d.insertAll pairs).get? key = ((ofList pairs).get? key).or (d.get? key) := by
  induction pairs generalizing d with
  | nil => rfl
  | cons pair pairs ih =>
    have hcons (d : Dict α) : d.insertAll (pair :: pairs) = (d.insert pair.1 pair.2).insertAll pairs := rfl
    rw [ofList, hcons, hcons, ih, ih, Option.or_assoc, get?_insert, get?_insert]
    split
    · rfl
    · rfl

theorem contains_insertAll (d : Dict α) (pairs : List (String × α)) (key : String) :
    (d.insertAll pairs).contains key ↔ d.contains key ∨ key ∈ pairs.map Prod.fst := by
  induction pairs generalizing d with
  | nil => simp [insertAll]
  | cons pair pairs ih =>
    have hcons : d.insertAll (pair :: pairs) = (d.insert pair.1 pair.2).insertAll pairs := rfl
    rw [hcons, ih, contains_insert, List.map_cons, List.mem_cons, ← or_assoc]
    exact or_congr_left or_comm

theorem insert_insert_self (d : Dict α) (key : String) (value : α) :
    (d.insert key value).insert key value = d.insert key value := by
  refine ext_get? fun key' value' => ?_
  rw [get?_insert, get?_insert]
  split <;> rfl

theorem insert_eq_self_iff : d.insert key value = d ↔ d.get? key = some value := by
  constructor
  · intro h
    rw [← h, get?_insert, if_pos rfl]
  · refine fun h => ext_get? fun key' value' => ?_
    rw [get?_insert]
    split
    · rename_i heq
      rw [heq, h]
    · rfl

theorem erase_insert_of_get?_eq_none (h : d.get? key = none) : (d.insert key value).erase key = d :=
  ext_entries (Assoc.filter_ne_put h)

def size (d : Dict α) : Nat := d.entries.length

theorem size_insert (d : Dict α) (key : String) (value : α) :
    (d.insert key value).size = if d.contains key then d.size else d.size + 1 :=
  Assoc.length_put d.sorted

theorem size_erase (h : d.contains key) : (d.erase key).size + 1 = d.size :=
  Assoc.length_filter_ne d.sorted h

end Dict

end TwinShell
