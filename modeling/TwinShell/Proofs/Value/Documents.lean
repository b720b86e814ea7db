import TwinShell.Proofs.Dict
import TwinShell.Session.Update

/-!
# Values and their documents

An attribute is stored as the document of a value, and the items of an array are read as values and written again. Neither loses anything in most cases, and this module says in which ones it does. A value without a number of its own in JSON is stored as `null`. A document is written as it was read unless it holds an integer of more than 64 bits or an array of nothing but numbers, not all of them finite floats: such an array is read as a vector, which turns its integers into floats. The fields of an object are kept as they are.
-/

namespace TwinShell

/-- Whether the document of a value is other than `null`. -/
def Value.hasDocument : Value → Bool
  | .null => false
  | .float x => x.isFinite
  | _ => true

namespace Json

def isNumber : Json → Bool
  | .int _ | .float _ => true
  | _ => false

/-- Whether the document is a number that is written as it is from a vector. -/
def isFiniteFloat : Json → Bool
  | .float x => x.isFinite
  | _ => false

mutual

/-- Whether a document that is read as a value is written as it was. -/
def survives : Json → Bool
  | .null | .bool _ | .str _ => true
  | .int n => Decimal.fitsWord n
  | .float x => x.isFinite
  | .arr items => if items.all isNumber then items.all isFiniteFloat else survivesAll items
  | .obj fields => decide (fields.Pairwise fun a b => a.1 < b.1)

/-- Whether documents that are read as values are written as they were. -/
def survivesAll : List Json → Bool
  | [] => true
  | item :: rest => survives item && survivesAll rest

end

/-- Whether an item of an array is written as it was once the array is read as a value. -/
def survivesIn (items : List Json) (item : Json) : Bool :=
  if items.all isNumber then item.isFiniteFloat else item.survives

/-- What becomes of an item of an array that is read as a value and written again. -/
def passed (items : List Json) (item : Json) : Json :=
  if items.all isNumber then ofFloat (item.float?.getD 0) else (Value.ofJson item).toJson

end Json

/-! ### Values that are stored -/

theorem Json.ofFloat_eq_float_iff {x : Float} : Json.ofFloat x = .float x ↔ x.isFinite := by
  unfold Json.ofFloat
  split <;> simp_all

theorem Value.isNull_toJson (v : Value) : v.toJson.isNull = !v.hasDocument := by
  cases v with
  | float x =>
    rw [toJson, Json.ofFloat, hasDocument]
    cases x.isFinite <;> rfl
  | _ =>
    rw [toJson]
    rfl

/-! ### Documents that are read and written -/

namespace Json

variable {items : List Json} {item : Json}

theorem survivesAll_iff : survivesAll items ↔ ∀ item ∈ items, item.survives := by
  induction items with
  | nil => simp [survivesAll]
  | cons item rest ih => simp [survivesAll, ih]

theorem float?_of_isNumber (h : item.isNumber) : item.float? = some (item.float?.getD 0) := by
  cases item with
  | int n => rfl
  | float x => rfl
  | _ => cases h

theorem float?_of_not_isNumber (h : ¬item.isNumber) : item.float? = none := by
  cases item with
  | int n => exact absurd rfl h
  | float x => exact absurd rfl h
  | _ => rfl

/-- A vector can be read off an array of numbers only. -/
theorem mapM_float? (items : List Json) :
    items.mapM float? = if items.all isNumber then some (items.map fun item => item.float?.getD 0) else none := by
  induction items with
  | nil => rfl
  | cons item rest ih =>
    rw [List.mapM_cons, ih, List.all_cons]
    by_cases hitem : item.isNumber
    · rw [float?_of_isNumber hitem, hitem, Bool.true_and]
      split <;> rfl
    · rw [float?_of_not_isNumber hitem, Bool.eq_false_iff.2 hitem, Bool.false_and]
      rfl

theorem ofFloat_float?_eq_iff (h : item.isNumber) : ofFloat (item.float?.getD 0) = item ↔ item.isFiniteFloat := by
  cases item with
  | int n =>
    unfold ofFloat isFiniteFloat
    split <;> simp
  | float x => exact ofFloat_eq_float_iff
  | _ => cases h

theorem toJsonItems_eq_map (values : List Value) : Value.toJsonItems values = values.map Value.toJson := by
  induction values with
  | nil => rfl
  | cons v rest ih => rw [Value.toJsonItems, ih, List.map_cons]

theorem ofJsonItems_eq_map (items : List Json) : Value.ofJsonItems items = items.map Value.ofJson := by
  induction items with
  | nil => rfl
  | cons item rest ih => rw [Value.ofJsonItems, ih, List.map_cons]

/-- An array is read as a vector or as a list, and its items are written accordingly. -/
theorem attributeItems?_arr (items : List Json) : attributeItems? (some (.arr items)) = some (items.map (passed items)) := by
  unfold attributeItems? passed
  rw [Option.map_some, Value.ofJson, mapM_float?]
  cases items with
  | nil => rfl
  | cons item rest =>
    by_cases hnumbers : (item :: rest).all isNumber
    · simp only [hnumbers, if_true, List.map_cons, List.map_map]
      rfl
    · simp only [if_neg hnumbers, ofJsonItems_eq_map, List.map_map]
      rfl

theorem toJson_ofJson_arr (items : List Json) : (Value.ofJson (.arr items)).toJson = .arr (items.map (passed items)) := by
  have hitems := attributeItems?_arr items
  unfold attributeItems? at hitems
  rw [Option.map_some] at hitems
  split at hitems
  · rename_i xs hvalue
    rw [Option.some.inj hvalue, Value.toJson, ← Option.some.inj hitems, ofVector]
  · rename_i values hvalue
    rw [Option.some.inj hvalue, Value.toJson, ← Option.some.inj hitems, toJsonItems_eq_map]
  · cases hitems

theorem toJson_ofJson_int_eq_iff (n : Int) : (Value.ofJson (.int n)).toJson = .int n ↔ Decimal.fitsWord n := by
  rw [Value.ofJson, Decimal.wordOfInt?]
  by_cases hfits : Decimal.fitsWord n
  · rw [if_pos hfits]
    refine iff_of_true (congrArg Json.int ?_) hfits
    simp only [Decimal.fitsWord, Bool.and_eq_true, decide_eq_true_eq] at hfits
    exact Int64.toInt_ofInt_of_le hfits.1 hfits.2
  · rw [if_neg hfits]
    refine iff_of_false ?_ hfits
    rw [Value.toJson, ofFloat]
    split <;> simp

theorem toJson_ofJson_obj_eq_iff (fields : List (String × Json)) :
    (Value.ofJson (.obj fields)).toJson = .obj fields ↔ Assoc.Sorted fields := by
  simp only [Value.ofJson, Value.toJson, ofObject, obj.injEq]
  constructor
  · intro heq
    exact heq ▸ (Dict.ofList fields).sorted
  · exact Dict.entries_ofList

theorem map_passed_eq_iff {rest : List Json} (hrest : rest ⊆ items)
    (hitems : ∀ item ∈ rest, (Value.ofJson item).toJson = item ↔ item.survives) :
    rest.map (passed items) = rest ↔ ∀ item ∈ rest, item.survivesIn items := by
  have hone : ∀ item ∈ rest, passed items item = item ↔ item.survivesIn items := by
    intro item hitem
    unfold passed survivesIn
    split
    · rename_i hnumbers
      exact ofFloat_float?_eq_iff (List.all_eq_true.1 hnumbers item (hrest hitem))
    · exact hitems item hitem
  calc rest.map (passed items) = rest
      ↔ rest.map (passed items) = rest.map id := by rw [List.map_id]
    _ ↔ ∀ item ∈ rest, passed items item = item := List.map_inj_left
    _ ↔ ∀ item ∈ rest, item.survivesIn items := forall₂_congr hone

theorem survives_arr_iff (items : List Json) : (Json.arr items).survives ↔ ∀ item ∈ items, item.survivesIn items := by
  unfold survives survivesIn
  split
  · exact List.all_eq_true
  · exact survivesAll_iff

mutual

/-- Reading a document as a value and writing it again changes nothing exactly if the document survives. -/
theorem toJson_ofJson_eq_iff : (json : Json) → ((Value.ofJson json).toJson = json ↔ json.survives)
  | .null => by simp [Value.ofJson, Value.toJson, survives]
  | .bool b => by simp [Value.ofJson, Value.toJson, survives]
  | .str s => by simp [Value.ofJson, Value.toJson, survives]
  | .int n => by rw [toJson_ofJson_int_eq_iff, survives]
  | .float x => by rw [Value.ofJson, Value.toJson, ofFloat_eq_float_iff, survives]
  | .obj fields => by rw [toJson_ofJson_obj_eq_iff, survives, decide_eq_true_iff, Assoc.Sorted]
  | .arr items => by
    rw [toJson_ofJson_arr, arr.injEq, survives_arr_iff]
    exact map_passed_eq_iff (List.Subset.refl items) (toJson_ofJson_eq_iff_of_mem items)

theorem toJson_ofJson_eq_iff_of_mem : (items : List Json) →
    ∀ item ∈ items, (Value.ofJson item).toJson = item ↔ item.survives
  | [] => nofun
  | item :: rest => by
    intro other hother
    rcases List.mem_cons.1 hother with heq | hother
    · rw [heq]
      exact toJson_ofJson_eq_iff item
    · exact toJson_ofJson_eq_iff_of_mem rest other hother

end

end Json

end TwinShell
