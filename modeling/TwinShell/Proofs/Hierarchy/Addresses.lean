import TwinShell.Hierarchy.Api
import TwinShell.Proofs.Path.Below

/-!
# Addresses of objects

The service knows an object by a collection and a dotted name: the first namespace in its table that the path lies strictly below, and the names below it put together with dots. A path outside these namespaces has no address. Dots in a name look like the dots between names, so that two objects share an address exactly if they are in the same collection and their dotted names are the same; among names without dots this does not happen.
-/

namespace TwinShell

namespace ApiClient

open Path (Canonical Below namesBelow segments)

variable {p q path : String} {home : String × String}

/-- The collection that a path belongs to, with its namespace: the first one that the path lies strictly below. -/
def home? (path : String) : Option (String × String) := collections.find? fun home => Below path home.1

/-- The address of a path in its collection. -/
def addressIn (home : String × String) (path : String) : String × String :=
  (home.2, ".".intercalate (namesBelow home.1 path))

/-- The paths belong to the same collection, and the names below its namespace are the same text when they are put together with dots. -/
def SameAddress (p q : String) : Prop := ∃ home, home? p = some home ∧ home? q = some home ∧
  ".".intercalate (namesBelow home.1 p) = ".".intercalate (namesBelow home.1 q)

theorem below_of_home? (h : home? path = some home) : Below path home.1 :=
  of_decide_eq_true (List.find?_some (p := fun home : String × String => decide (Below path home.1)) h)

theorem home?_eq_none_iff : home? path = none ↔ ∀ home ∈ collections, ¬Below path home.1 := by
  simp [home?, List.find?_eq_none]

theorem mem_of_home? (h : home? path = some home) : home ∈ collections := List.mem_of_find?_eq_some h

theorem canonical_of_mem (h : home ∈ collections) : Canonical home.1 ∧ home.1 ≠ "/" := by
  have hall : ∀ home ∈ collections, Canonical home.1 ∧ home.1 ≠ "/" := by decide
  exact hall home h

/-- A collection holds one namespace. -/
theorem eq_of_collection_eq {home' : String × String} (h : home ∈ collections) (h' : home' ∈ collections)
    (heq : home.2 = home'.2) : home = home' := by
  have hall : ∀ home ∈ collections, ∀ home' ∈ collections, home.2 = home'.2 → home = home' := by decide
  exact hall home h home' h' heq

theorem findSome?_dottedId? (hpath : Canonical path) {table : List (String × String)}
    (htable : ∀ home ∈ table, Canonical home.1 ∧ home.1 ≠ "/") :
    (table.findSome? fun (root, collection) => (Path.dottedId? path root).map (collection, ·)) =
      (table.find? fun home => Below path home.1).map (addressIn · path) := by
  induction table with
  | nil => rfl
  | cons home rest ih =>
    obtain ⟨root, collection⟩ := home
    obtain ⟨⟨hcanonical, hroot⟩, hrest⟩ := List.forall_mem_cons.1 htable
    rw [List.findSome?_cons, List.find?_cons, ih hrest]
    dsimp only
    rw [Path.dottedId?_eq hpath hcanonical hroot]
    by_cases hbelow : Below path root
    · rw [if_pos hbelow, decide_eq_true hbelow]
      rfl
    · rw [if_neg hbelow, decide_eq_false hbelow]
      rfl

/-- A path in canonical form is located in the collection that it belongs to. -/
theorem locate_eq (hpath : Canonical path) : locate path =
    match home? path with
    | some home => .ok (addressIn home path)
    | none => .error (.unsupported path) := by
  rw [locate, findSome?_dottedId? hpath fun home => canonical_of_mem, ← home?]
  cases home? path <;> rfl

theorem locate_eq_ok_iff (hpath : Canonical path) {found : String × String} :
    locate path = .ok found ↔ ∃ home, home? path = some home ∧ found = addressIn home path := by
  rw [locate_eq hpath]
  cases home? path with
  | none => simp
  | some home => simp [eq_comm]

theorem located_alike_iff (hp : Canonical p) (hq : Canonical q) :
    (∃ found, locate p = .ok found ∧ locate q = .ok found) ↔ SameAddress p q := by
  constructor
  · rintro ⟨found, hpfound, hqfound⟩
    obtain ⟨home, hhome, rfl⟩ := (locate_eq_ok_iff hp).1 hpfound
    obtain ⟨home', hhome', haddress⟩ := (locate_eq_ok_iff hq).1 hqfound
    obtain ⟨hcollection, hnames⟩ := Prod.mk.inj haddress
    obtain rfl := eq_of_collection_eq (mem_of_home? hhome) (mem_of_home? hhome') hcollection
    exact ⟨home, hhome, hhome', hnames⟩
  · rintro ⟨home, hhome, hhome', hnames⟩
    have hsame : addressIn home p = addressIn home q := by rw [addressIn, hnames, addressIn]
    refine ⟨addressIn home p, (locate_eq_ok_iff hp).2 ⟨home, hhome, rfl⟩, ?_⟩
    exact (locate_eq_ok_iff hq).2 ⟨home, hhome', hsame⟩

theorem SameAddress.eq (h : SameAddress p q) (hp : Canonical p) (hq : Canonical q)
    (hpdots : ∀ s ∈ segments p, '.' ∉ s.toList) (hqdots : ∀ s ∈ segments q, '.' ∉ s.toList) : p = q := by
  obtain ⟨home, hhome, hhome', hnames⟩ := h
  have hpbelow := below_of_home? hhome
  have hqbelow := below_of_home? hhome'
  have hroot := (canonical_of_mem (mem_of_home? hhome)).1
  refine Path.eq_of_namesBelow_eq hp hq hpbelow.1 hqbelow.1 ?_
  refine (Path.intercalate_dot_inj (Path.namesBelow_ne_nil hp hroot hpbelow)
    (Path.namesBelow_ne_nil hq hroot hqbelow) ?_ ?_).1 hnames
  · exact fun name hname => hpdots name (List.mem_of_mem_drop hname)
  · exact fun name hname => hqdots name (List.mem_of_mem_drop hname)

/-- Two paths share an address exactly if they are in the same collection and their dotted names there are the same, so paths without dots in their names share none. A path has no address exactly if it lies strictly below no namespace of a collection. -/
theorem locate_separates (hp : Canonical p) (hq : Canonical q) :
    ((∃ found, locate p = .ok found ∧ locate q = .ok found) ↔ SameAddress p q) ∧
    ((∀ s ∈ segments p, '.' ∉ s.toList) → (∀ s ∈ segments q, '.' ∉ s.toList) →
      ∀ found, locate p = .ok found → locate q = .ok found → p = q) ∧
    ∀ e, locate p = .error e ↔ e = .unsupported p ∧ ∀ home ∈ collections, ¬Below p home.1 := by
  refine ⟨located_alike_iff hp hq, fun hpdots hqdots found hpfound hqfound => ?_, fun e => ?_⟩
  · exact ((located_alike_iff hp hq).1 ⟨found, hpfound, hqfound⟩).eq hp hq hpdots hqdots
  · rw [locate_eq hp, ← home?_eq_none_iff]
    cases home? p with
    | none => simp [eq_comm]
    | some home => simp

/-- A stray device and a device with the same names in the hierarchy have addresses of their own. -/
theorem locate_separates_stray : Canonical "/Physical/Stray/r/d" ∧ Canonical "/Physical/r/d" ∧
    locate "/Physical/Stray/r/d" = .ok ("stray_objects", "r.d") ∧
    ¬∃ found, locate "/Physical/Stray/r/d" = .ok found ∧ locate "/Physical/r/d" = .ok found := by
  have hstray : Canonical "/Physical/Stray/r/d" := by decide
  have hplain : Canonical "/Physical/r/d" := by decide
  have hseparates := locate_separates hstray hplain
  refine ⟨hstray, hplain, rfl, fun ⟨found, hfound, hfound'⟩ => ?_⟩
  exact absurd (hseparates.2.1 (by decide) (by decide) found hfound hfound') (by decide)

/-- A site with a dot in its name and a building with its name split at the dot share an address. -/
theorem locate_confuses_dots : Canonical "/Physical/a.b" ∧ Canonical "/Physical/a/b" ∧
    locate "/Physical/a.b" = .ok ("hierarchy_objects", "a.b") ∧
    locate "/Physical/a/b" = .ok ("hierarchy_objects", "a.b") ∧ "/Physical/a.b" ≠ "/Physical/a/b" :=
  ⟨by decide, by decide, rfl, rfl, by decide⟩

end ApiClient

end TwinShell
