/-!
# Dictionaries

A dictionary maps texts to values and is kept sorted by key, in the order of code points, with each key at most once. The order is part of the type, so two dictionaries with the same look-ups are equal and every listing comes out sorted.
-/

namespace TwinShell

universe u v

namespace Assoc

/-- The first value stored under `key`. -/
def find? {α : Type u} (key : String) : List (String × α) → Option α
  | [] => none
  | (k, a) :: rest => if k = key then some a else find? key rest

/-- Puts `value` under `key`, in place of an equal key or before the first larger one. -/
def put {α : Type u} (key : String) (value : α) : List (String × α) → List (String × α)
  | [] => [(key, value)]
  | (k, a) :: rest =>
    if key < k then (key, value) :: (k, a) :: rest
    else if k = key then (key, value) :: rest
    else (k, a) :: put key value rest

def Sorted {α : Type u} (entries : List (String × α)) : Prop :=
  entries.Pairwise fun a b => a.1 < b.1

theorem mem_put {α : Type u} {key : String} {value : α} {entries : List (String × α)}
    {e : String × α} (h : e ∈ put key value entries) : e.1 = key ∨ e ∈ entries := by
  induction entries with
  | nil => simp_all [put]
  | cons head rest ih =>
    obtain ⟨k, a⟩ := head
    rw [put] at h
    split at h
    · rcases List.mem_cons.1 h with rfl | h
      · exact .inl rfl
      · exact .inr h
    · split at h
      · rcases List.mem_cons.1 h with rfl | h
        · exact .inl rfl
        · exact .inr (List.mem_cons_of_mem _ h)
      · rcases List.mem_cons.1 h with rfl | h
        · exact .inr List.mem_cons_self
        · exact (ih h).imp id (List.mem_cons_of_mem _)

theorem sorted_put {α : Type u} (key : String) (value : α) {entries : List (String × α)}
    (h : Sorted entries) : Sorted (put key value entries) := by
  induction entries with
  | nil => simp [put, Sorted]
  | cons head rest ih =>
    obtain ⟨k, a⟩ := head
    obtain ⟨hk, hrest⟩ := List.pairwise_cons.1 h
    rw [put]
    split
    · rename_i hlt
      refine List.pairwise_cons.2 ⟨fun e he => ?_, h⟩
      rcases List.mem_cons.1 he with rfl | he
      · exact hlt
      · exact String.lt_trans hlt (hk e he)
    · split
      · rename_i heq
        exact List.pairwise_cons.2 ⟨fun e he => heq ▸ hk e he, hrest⟩
      · rename_i hnlt hne
        refine List.pairwise_cons.2 ⟨fun e he => ?_, ih hrest⟩
        rcases mem_put he with heq | he
        · show k < e.1
          rw [heq]
          rcases Std.lt_trichotomy (α := String) key k with hlt | heq' | hgt
          · exact absurd hlt hnlt
          · exact absurd heq'.symm hne
          · exact hgt
        · exact hk e he

end Assoc

/-- A map from texts to values, sorted by key. -/
structure Dict (α : Type u) where
  entries : List (String × α)
  sorted : Assoc.Sorted entries

namespace Dict

variable {α : Type u} {β : Type v}

instance [DecidableEq α] : DecidableEq (Dict α) := fun a b =>
  decidable_of_iff (a.entries = b.entries) ⟨fun h => by cases a; cases b; cases h; rfl, fun h => h ▸ rfl⟩

def empty : Dict α := ⟨[], List.Pairwise.nil⟩

instance : Inhabited (Dict α) := ⟨empty⟩

def get? (d : Dict α) (key : String) : Option α := Assoc.find? key d.entries

def contains (d : Dict α) (key : String) : Bool := (d.get? key).isSome

/-- Stores `value` under `key`, in place of what was there. -/
def insert (d : Dict α) (key : String) (value : α) : Dict α :=
  ⟨Assoc.put key value d.entries, Assoc.sorted_put key value d.sorted⟩

/-- Stores `value` under `key` unless the key already has a value. -/
def insertNew (d : Dict α) (key : String) (value : α) : Dict α :=
  if d.contains key then d else d.insert key value

def filter (p : String → α → Bool) (d : Dict α) : Dict α :=
  ⟨d.entries.filter fun e => p e.1 e.2, List.Pairwise.filter _ d.sorted⟩

def erase (d : Dict α) (key : String) : Dict α := d.filter fun k _ => k ≠ key

/-- The keys, in increasing order. -/
def keys (d : Dict α) : List String := d.entries.map Prod.fst

/-- Stores the pairs one after the other, so that the last value of a key stays. -/
def insertAll (d : Dict α) (pairs : List (String × α)) : Dict α :=
  pairs.foldl (fun d e => d.insert e.1 e.2) d

/-- The dictionary of a list of pairs; the last value of a key stays. -/
def ofList (pairs : List (String × α)) : Dict α := empty.insertAll pairs

def isEmpty (d : Dict α) : Bool := d.entries.isEmpty

end Dict

end TwinShell
