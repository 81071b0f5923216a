import ApiModel.Proofs.Reading.Checked
import ApiModel.Reading.Field

namespace ApiModel

namespace Checked

variable {α β : Type}

@[simp] theorem under_ok (step : String) (a : α) : (ok a).under step = ok a := rfl

@[simp] theorem map_ok (f : α → β) (a : α) : (ok a).map f = ok (f a) := rfl

@[simp] theorem fmap_ok (f : α → β) (a : α) : f <$> ok a = ok (f a) := rfl

@[simp] theorem seq_ok (f : α → β) (a : α) : ok f <*> ok a = ok (f a) := rfl

end Checked

namespace Value

@[simp] theorem readText_str (s : Str) : (Value.str s).readText = .ok s := rfl

@[simp] theorem readBool_bool (b : Bool) : (Value.bool b).readBool = .ok b := rfl

@[simp] theorem entries?_map (m : Entries) : (Value.map m).entries? = some m := rfl

end Value

namespace Entries

variable {α : Type} {m : Entries} {absent : Checked α} {reader : Value → Checked α} {v : Value}

@[simp] theorem get?_nil (key : Str) : get? [] key = none := rfl

@[simp] theorem get?_cons (k : Str) (v : Value) (m : Entries) (key : Str) :
    get? ((.str k, v) :: m) key = if k = key then some v else get? m key := by
  by_cases same : k = key <;> simp [get?, same]

theorem readWhole_of_whole {node : Checked α} (whole : m.hasTornKey = false) : m.readWhole node = node := by
  rw [readWhole, whole]
  rfl

theorem readWhole_eq_ok_iff {node : Checked α} {a : α} :
    m.readWhole node = .ok a ↔ m.hasTornKey = false ∧ node = .ok a := by
  rw [readWhole]
  cases m.hasTornKey <;> simp [Checked.fail]

@[simp] theorem succeeds_readWhole {node : Checked α} :
    (m.readWhole node).Succeeds ↔ m.hasTornKey = false ∧ node.Succeeds := by
  rw [readWhole]
  cases m.hasTornKey <;> simp

theorem field?_mem {names : List String} {name : String} (found : field? m names = some (name, v)) :
    name ∈ names ∧ get? m name = some v := by
  induction names with
  | nil => contradiction
  | cons first others ih =>
    rw [field?] at found
    split at found
    · rename_i get
      cases found
      exact ⟨List.mem_cons_self .., get⟩
    · exact (ih found).imp_left (List.mem_cons_of_mem _)

theorem read_one (m : Entries) (name : String) (absent : Checked α) (reader : Value → Checked α) :
    read m [name] absent reader = (get? m name).elim absent fun v => (reader v).under name := by
  cases found : get? m name <;> simp [read, field?, found]

theorem require_eq (m : Entries) (name : String) (reader : Value → Checked α) :
    require m name reader =
      (get? m name).elim ((Checked.fail .missing).under name) fun v => (reader v).under name :=
  read_one m name _ reader

theorem readText_one (m : Entries) (name : String) :
    readText m [name] = (get? m name).elim (.ok "") fun v => v.readText.under name :=
  read_one m name _ _

end Entries

end ApiModel
