import ApiModel.Reading.Field

namespace ApiModel

def Entries.ofFields (fields : List (Str × Value)) : Entries := fields.map fun f => (.str f.1, f.2)

inductive Value.IsJson (floats : Binary64 → Prop) : Value → Prop
  | null : IsJson floats (.scalar .null)
  | bool (b : Bool) : IsJson floats (.scalar (.bool b))
  | int (n : Int) : IsJson floats (.scalar (.int n))
  | float (x : Binary64) (allowed : floats x) : IsJson floats (.scalar (.float x))
  | str (s : Str) : IsJson floats (.scalar (.str s))
  | list (items : List Value) (all : ∀ v ∈ items, IsJson floats v) : IsJson floats (.list items)
  | map (fields : List (Str × Value)) (nodup : (fields.map Prod.fst).Nodup)
      (all : ∀ f ∈ fields, IsJson floats f.2) : IsJson floats (.map (Entries.ofFields fields))

theorem Value.IsJson.mono {floats floats' : Binary64 → Prop} {v : Value} (json : v.IsJson floats)
    (sub : ∀ {x}, floats x → floats' x) : v.IsJson floats' := by
  induction json with
  | null => exact .null
  | bool b => exact .bool b
  | int n => exact .int n
  | float x allowed => exact .float x (sub allowed)
  | str s => exact .str s
  | list items all ih => exact .list items ih
  | map fields nodup all ih => exact .map fields nodup ih

namespace Entries

variable {fields : List (Str × Value)} {key : Str} {v : Value}

@[simp] theorem ofFields_nil : ofFields [] = [] := rfl

@[simp] theorem ofFields_cons (f : Str × Value) (fields : List (Str × Value)) :
    ofFields (f :: fields) = (.str f.1, f.2) :: ofFields fields := rfl

@[simp] theorem ofFields_append (a b : List (Str × Value)) :
    ofFields (a ++ b) = ofFields a ++ ofFields b := List.map_append

theorem same_str (a b : Str) : (Scalar.str a).same (.str b) = decide (a = b) := by
  simp [Scalar.same, Scalar.number?]

theorem put_ofFields (fields : List (Str × Value)) (key : Str) (v : Value) :
    put (ofFields fields) (.str key) v = ofFields (putEntry fields key v) := by
  induction fields with
  | nil => rfl
  | cons f fields ih =>
    rw [ofFields_cons, put, same_str, putEntry]
    by_cases same : f.1 = key
    · simp [same]
    · simp [same, ih]

theorem ofList_ofFields (fields : List (Str × Value)) :
    ofList (ofFields fields) = ofFields (Table.ofList fields).entries := by
  have run (t : Table Value) : (ofFields fields).foldl (fun m e => put m e.1 e.2) (ofFields t.entries) =
      ofFields (fields.foldl (fun t e => t.put e.1 e.2) t).entries := by
    induction fields generalizing t with
    | nil => rfl
    | cons f fields ih =>
      rw [ofFields_cons, List.foldl_cons, List.foldl_cons, put_ofFields]
      exact ih (t.put f.1 f.2)
  exact run .empty

theorem ofList_of_nodup (nodup : (fields.map Prod.fst).Nodup) :
    ofList (ofFields fields) = ofFields fields := by
  rw [ofList_ofFields, Table.entries_ofList nodup]

theorem get?_ofFields (fields : List (Str × Value)) (key : Str) :
    get? (ofFields fields) key = (fields.find? (·.1 = key)).map (·.2) := by
  rw [get?, ofFields, List.find?_map, Option.map_map]
  congr 1
  apply congrFun
  apply congrArg
  funext f
  simp

@[simp] theorem hasLongKey_ofFields (fields : List (Str × Value)) :
    (ofFields fields).hasLongKey = false := by
  rw [hasLongKey, List.any_eq_false, ofFields, List.forall_mem_map]
  exact fun _ _ => Bool.false_ne_true

theorem hasTornKey_ofFields_iff :
    (ofFields fields).hasTornKey = false ↔ ∀ f ∈ fields, f.1.hasHalf = false := by
  rw [hasTornKey, List.any_eq_false, ofFields, List.forall_mem_map]
  simp only [Bool.not_eq_true]
  rfl

theorem mem_putEntry {α : Type} {fields : List (Str × α)} {v : α} {e : Str × α}
    (mem : e ∈ putEntry fields key v) : e ∈ fields ∨ e = (key, v) := by
  induction fields with
  | nil => exact .inr (List.mem_singleton.1 mem)
  | cons f fields ih =>
    rw [putEntry] at mem
    split at mem
    · rename_i same
      rcases List.mem_cons.1 mem with rfl | mem
      · exact .inr (by rw [same])
      · exact .inl (List.mem_cons_of_mem _ mem)
    · rcases List.mem_cons.1 mem with rfl | mem
      · exact .inl (List.mem_cons_self ..)
      · exact (ih mem).imp_left (List.mem_cons_of_mem _)

theorem mem_of_mem_ofList {α : Type} {fields : List (Str × α)} {f : Str × α}
    (mem : f ∈ (Table.ofList fields).entries) : f ∈ fields := by
  have run (es : List (Str × α)) (t : Table α)
      (mem : f ∈ (es.foldl (fun t e => t.put e.1 e.2) t).entries) : f ∈ t.entries ∨ f ∈ es := by
    induction es generalizing t with
    | nil => exact .inl mem
    | cons e es ih =>
      rcases ih _ mem with mem | mem
      · exact (mem_putEntry mem).imp_right fun (same : f = e) => same ▸ List.mem_cons_self ..
      · exact .inr (List.mem_cons_of_mem _ mem)
  exact (run fields .empty mem).resolve_left List.not_mem_nil

end Entries

namespace Value

theorem haveLong_eq_false_iff {items : List Value} :
    haveLong items = false ↔ ∀ v ∈ items, v.hasLong = false := by
  induction items with
  | nil => simp [haveLong]
  | cons v items ih => rw [haveLong, Bool.or_eq_false_iff, ih, List.forall_mem_cons]

theorem entriesHaveLong_ofFields_iff {fields : List (Str × Value)} :
    entriesHaveLong (Entries.ofFields fields) = false ↔ ∀ f ∈ fields, f.2.hasLong = false := by
  induction fields with
  | nil => simp [entriesHaveLong]
  | cons f fields ih =>
    rw [Entries.ofFields_cons, entriesHaveLong, Bool.or_eq_false_iff, ih, List.forall_mem_cons]
    rfl

end Value

end ApiModel
