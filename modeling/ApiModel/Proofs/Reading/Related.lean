import ApiModel.Proofs.Reading.Field
import Mathlib.Data.List.Forall2

namespace ApiModel

variable {α : Type} {R : Value → Value → Prop} {m m' : Entries} {v v' : Value} {names : List String}
  {change : Value → Value} {read : Value → Checked α}

namespace Entries

def Related (R : Value → Value → Prop) : Entries → Entries → Prop :=
  List.Forall₂ fun e e' => e.1 = e'.1 ∧ R e.2 e'.2

namespace Related

theorem put (related : Related R m m') (k : Scalar) (value : R v v') :
    Related R (Entries.put m k v) (Entries.put m' k v') := by
  induction related with
  | nil => exact .cons ⟨rfl, value⟩ .nil
  | @cons e e' m m' first rest ih =>
    obtain ⟨key, old⟩ := e
    obtain ⟨key', old'⟩ := e'
    obtain ⟨rfl, olds⟩ : key = key' ∧ _ := first
    rw [Entries.put, Entries.put]
    split
    · exact .cons ⟨rfl, value⟩ rest
    · exact .cons ⟨rfl, olds⟩ ih

theorem ofList (related : Related R m m') : Related R (Entries.ofList m) (Entries.ofList m') := by
  have run {t t' : Entries} (sofar : Related R t t') :
      Related R (m.foldl (fun t e => Entries.put t e.1 e.2) t)
        (m'.foldl (fun t e => Entries.put t e.1 e.2) t') := by
    induction related generalizing t t' with
    | nil => exact sofar
    | cons first _ ih =>
      rw [List.foldl_cons, List.foldl_cons, first.1]
      exact ih (sofar.put _ first.2)
  exact run .nil

theorem dropExtensions (related : Related R m m') :
    Related R (Entries.dropExtensions m) (Entries.dropExtensions m') := by
  refine ofList ?_
  induction related with
  | nil => exact .nil
  | @cons e e' _ _ first _ ih =>
    obtain ⟨same, values⟩ := first
    rw [List.map_cons, List.map_cons, List.filterMap_cons, List.filterMap_cons, same]
    split_ifs
    · exact ih
    · exact .cons ⟨rfl, values⟩ ih

theorem hasLongKey_eq (related : Related R m m') : m.hasLongKey = m'.hasLongKey := by
  induction related with
  | nil => rfl
  | cons first _ ih =>
    rw [hasLongKey, hasLongKey, List.any_cons, List.any_cons, first.1]
    exact congrArg _ ih

theorem readTable_eq (related : Related (fun v v' => read v = read v') m m') :
    Entries.readTable read m = Entries.readTable read m' := by
  have each : m.map (fun e => readEntry e.1 (read e.2)) = m'.map fun e => readEntry e.1 (read e.2) := by
    induction related with
    | nil => rfl
    | cons first _ ih => rw [List.map_cons, List.map_cons, ih, first.1, first.2]
  rw [Entries.readTable, Entries.readTable, each]

end Related

def mapValues (change : Value → Value) (m : Entries) : Entries := m.map fun e => (e.1, change e.2)

theorem related_mapValues (each : ∀ v, R v (change v)) (m : Entries) :
    Related R m (m.mapValues change) := by
  rw [mapValues, Related, List.forall₂_map_right_iff]
  exact List.forall₂_same.2 fun e _ => ⟨rfl, each e.2⟩

def isUnder (names : List String) (key : Scalar) : Bool := names.any fun name => key = .str name

def mapUnder (names : List String) (change : Value → Value) (m : Entries) : Entries :=
  m.map fun e => if isUnder names e.1 then (e.1, change e.2) else e

section MapUnder

variable (names : List String) (change : Value → Value) (m : Entries)

theorem hasTornKey_mapUnder : (m.mapUnder names change).hasTornKey = m.hasTornKey := by
  rw [hasTornKey, hasTornKey, mapUnder, List.any_map]
  congr 1
  funext e
  dsimp only [Function.comp_apply]
  split <;> rfl

theorem get?_mapUnder (key : String) : (m.mapUnder names change).get? key =
    (m.get? key).map fun v => if key ∈ names then change v else v := by
  have keys : (fun e : Scalar × Value => decide (e.1 = .str key)) ∘
      (fun e => if isUnder names e.1 then (e.1, change e.2) else e) = fun e => decide (e.1 = .str key) := by
    funext e
    dsimp only [Function.comp_apply]
    split <;> rfl
  rw [get?, mapUnder, List.find?_map, keys, get?]
  cases found : m.find? fun e => e.1 = .str key with
  | none => rfl
  | some e =>
    have same : e.1 = .str key := by simpa using List.find?_some found
    have under : isUnder names e.1 = decide (key ∈ names) := by
      rw [same, isUnder]
      simp [List.any_eq]
    simp only [Option.map_some, under, decide_eq_true_eq]
    split <;> rfl

theorem field?_mapUnder (fieldNames : List String) : (m.mapUnder names change).field? fieldNames =
    (m.field? fieldNames).map fun e => (e.1, if e.1 ∈ names then change e.2 else e.2) := by
  induction fieldNames with
  | nil => rfl
  | cons name others ih =>
    rw [field?, field?, get?_mapUnder]
    cases m.get? name with
    | none => exact ih
    | some v => rfl

variable {names change} {fieldNames : List String} {fields : List (List String)} {absent : Checked α}
  {reader : Value → Checked α}

/-- A field is read as before if its reader does not see the change, wherever there is one. -/
theorem read_mapUnder (blind : ∀ name ∈ fieldNames, name ∈ names → ∀ v, reader (change v) = reader v) :
    (m.mapUnder names change).read fieldNames absent reader = m.read fieldNames absent reader := by
  rw [Entries.read, Entries.read, field?_mapUnder]
  cases found : m.field? fieldNames with
  | none => rfl
  | some e =>
    obtain ⟨name, v⟩ := e
    dsimp only [Option.map_some]
    split_ifs with changed
    · rw [blind name (field?_mem found).1 changed]
    · rfl

theorem mem_taken_of_own {e : Scalar × Value} (mem : e ∈ m) {name : String} (key : e.1 = .str name)
    (own : [name] ∈ fields) : name ∈ fields.filterMap fun fieldNames => (m.field? fieldNames).map (·.1) := by
  have given : (m.find? fun e => e.1 = .str name).isSome := List.find?_isSome.2 ⟨e, mem, decide_eq_true key⟩
  obtain ⟨first, found⟩ := Option.isSome_iff_exists.1 given
  have read : m.field? [name] = some (name, first.2) := by
    rw [field?, get?, found]
    rfl
  exact List.mem_filterMap.2 ⟨[name], own, by rw [read, Option.map_some]⟩

theorem extras_mapUnder (own : ∀ name ∈ names, [name] ∈ fields) :
    (m.mapUnder names change).extras fields = m.extras fields := by
  have taken : fields.filterMap (fun fieldNames => ((m.mapUnder names change).field? fieldNames).map (·.1)) =
      fields.filterMap fun fieldNames => (m.field? fieldNames).map (·.1) := by
    congr 1
    funext fieldNames
    rw [field?_mapUnder, Option.map_map]
    rfl
  -- the same keys are left over, and none of the entries that are left over was changed
  rw [extras, extras, taken, mapUnder, List.filter_map]
  refine Eq.trans (congrArg _ (List.filter_congr fun e _ => ?_))
    ((List.map_congr_left fun e left => ?_).trans (List.map_id _))
  · dsimp only [Function.comp_apply]
    split <;> rfl
  · obtain ⟨mem, free⟩ := List.mem_filter.1 left
    refine if_neg fun under => ?_
    obtain ⟨name, named, key⟩ := List.any_eq_true.1 under
    rw [Bool.not_eq_true', List.any_eq_false] at free
    exact free name (mem_taken_of_own m mem (of_decide_eq_true key) (own name named)) key

/-- Entries that have a field of their own can change without a trace in what no field takes. -/
theorem readExtras_mapUnder (own : ∀ name ∈ names, [name] ∈ fields) :
    (m.mapUnder names change).readExtras fields = m.readExtras fields := by
  rw [readExtras, readExtras, extras_mapUnder m own]

end MapUnder

end Entries

namespace Value

def mapEntries (change : Entries → Entries) (v : Value) : Value :=
  match v.entries? with
  | some m => .map (change m)
  | none => v

variable (change : Entries → Entries) (v : Value)

@[simp] theorem entries?_mapEntries : (v.mapEntries change).entries? = v.entries?.map change := by
  unfold mapEntries
  split
  · rename_i found
    rw [found]
    rfl
  · rename_i none_
    rw [none_]
    rfl

@[simp] theorem isNull_mapEntries : (v.mapEntries change).isNull = v.isNull := by
  unfold mapEntries
  split
  · rename_i found
    cases v with
    | scalar s => cases found
    | _ => rfl
  · rfl

end Value

end ApiModel
