import ApiModel.Proofs.Yaml.NodeFaults
import ApiModel.Proofs.Yaml.ScanFaults
import ApiModel.Proofs.Yaml.TreeFaults
import ApiModel.Swagger.Loading

namespace ApiModel

open Text Yaml

/-- Something impossible is asked for in the text: an escape for a character that does not exist, or a
    scalar of a kind that does not go with its text. -/
inductive Yaml.AsksFor (cs : List Char) : Fault → Prop
  | character {e : Fault} (escape : EscapesPast cs e) : AsksFor cs e
  | scalar {e : Fault} {tree : Tree} {tag : Tag} {text : Str}
      (parses : Tree.ofTokens (.ofText cs) = .ok tree) (wants : tree.Wants tag text)
      (impossible : tag.scalar text = .error e) : AsksFor cs e

theorem Yaml.asksFor_of_read {cs : List Char} {e : Fault} (fault : read cs = .error e) :
    e = .malformed ∨ AsksFor (normalizeLineEnds cs) e := by
  unfold read at fault
  split at fault
  · cases fault
    exact .inl rfl
  · cases parses : Tree.ofTokens (.ofText (normalizeLineEnds cs)) with
    | error e' =>
      rw [parses] at fault
      cases fault
      rcases Tree.fault_of_ofTokens parses with malformed | last
      · exact .inl malformed
      · exact (Tokens.fault_of_ofText last).imp_right .character
    | ok tree =>
      rw [parses] at fault
      rcases Tree.fails_of_value fault with malformed | ⟨tag, text, wants, impossible⟩
      · exact .inl malformed
      · exact .inr (.scalar parses wants impossible)

def Format.HasLongVersion (m : Entries) : Prop :=
  (∃ v, m.get? "swagger" = some v ∧ v.hasLong) ∨
    begins m "swagger" '2' = .ok false ∧ ∃ v, m.get? "openapi" = some v ∧ v.hasLong

theorem Format.begins_error_iff {m : Entries} {key : String} {c : Char} {e : DetectFault} :
    begins m key c = .error e ↔ e = .version ∧ ∃ v, m.get? key = some v ∧ v.hasLong := by
  unfold begins
  cases found : m.get? key with
  | none => simp
  | some v =>
    cases long : v.hasLong
    · simp [Value.text?, long]
    · simpa [Value.text?, long] using eq_comm

theorem Format.ofEntries_error_iff {m : Entries} {e : DetectFault} :
    ofEntries m = .error e ↔ e = .version ∧ HasLongVersion m := by
  unfold ofEntries HasLongVersion
  cases older : begins m "swagger" '2' with
  | error e' =>
    obtain ⟨rfl, long⟩ := begins_error_iff.1 older
    simpa [long] using eq_comm
  | ok two =>
    have short : ¬ ∃ v, m.get? "swagger" = some v ∧ v.hasLong := fun long => by
      rw [begins_error_iff.2 ⟨rfl, long⟩] at older
      cases older
    cases two with
    | true => simp [short]
    | false =>
      simp only [short, false_or, true_and]
      rw [← begins_error_iff (c := '3')]
      cases begins m "openapi" '3' <;> simp [Except.map]

theorem Format.detect_scalar_iff {bytes : List UInt8} {e : Fault} :
    detect bytes = .error (.scalar e) ↔ readFile bytes = .error (.yaml e) ∧ e ≠ .malformed := by
  unfold detect
  split
  · rename_i v read
    unfold ofValue
    split <;> simp [read, ofEntries_error_iff]
  · rename_i read
    simp [read]
  · rename_i read
    rw [read]
    simp only [reduceCtorEq, Except.error.injEq, FileFault.yaml.injEq, false_iff]
    exact fun ⟨same, known⟩ => known same.symm
  · rename_i e' known read
    rw [read]
    simp only [Except.error.injEq, DetectFault.scalar.injEq, FileFault.yaml.injEq, iff_self_and]
    rintro rfl
    exact known

theorem Format.detect_version_iff {bytes : List UInt8} :
    detect bytes = .error .version ↔
      ∃ v m, readFile bytes = .ok v ∧ v.entries? = some m ∧ HasLongVersion m := by
  unfold detect
  split
  · rename_i v read
    unfold ofValue
    split <;> simp [*, ofEntries_error_iff]
  all_goals
    rename_i read
    simp [read]

theorem Document.load_scalar_iff {bytes : List UInt8} {e : Fault} :
    load bytes = .error (.scalar e) ↔ readFile bytes = .error (.yaml e) ∧ e ≠ .malformed := by
  unfold load
  split
  · rename_i fault read
    rw [read]
    simp only [Except.error.injEq]
    unfold FileFault.toLoadFault
    split
    · simp
    · simp only [reduceCtorEq, FileFault.yaml.injEq, false_iff]
      exact fun ⟨same, known⟩ => known same.symm
    · rename_i e' known
      simp only [LoadFault.scalar.injEq, FileFault.yaml.injEq, iff_self_and]
      rintro rfl
      exact known
  · rename_i read
    rw [read]
    split <;> simp

theorem exists_text_of_readFile {bytes : List UInt8} {e : Fault}
    (fault : readFile bytes = .error (.yaml e)) :
    ∃ cs, decodeUtf8 bytes = .ok cs ∧ Yaml.read cs = .error e := by
  unfold readFile at fault
  split at fault
  · cases fault
  · rename_i cs decoded
    split at fault
    · contradiction
    · rename_i read
      cases fault
      exact ⟨cs, decoded, read⟩

def noMonthFile : List UInt8 := encodeUtf8 "2020-13-01".toList

end ApiModel
