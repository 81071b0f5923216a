import ApiModel.Proofs.Json.Writing
import ApiModel.Proofs.Yaml.Reading
import ApiModel.Swagger.Loading

namespace ApiModel

open Json

def EndsAlike (name : String) : Except LoadFault Document → Except DocumentFault Document → Prop
  | .ok d, .ok d' => d = d'
  | .error (.document e), .error e' => e.message name = e'.message name
  | _, _ => False

/-- A file is what a value is, whatever the file is called: the same document, or none for the same
    reason, and of the same format. -/
structure Agrees (file : List UInt8) (v : Value) : Prop where
  document : ∀ name, EndsAlike name (Document.load file) (Document.ofValue v)
  format : Format.detect file = Format.ofValue v

/-- Two values are the same document, or none for the same reason, and of the same format. -/
structure Alike (v w : Value) : Prop where
  document : ∀ name, EndsAlike name ((Document.ofValue v).mapError .document) (Document.ofValue w)
  format : Format.ofValue v = Format.ofValue w

theorem endsAlike_self (name : String) (result : Except DocumentFault Document) :
    EndsAlike name (result.mapError .document) result := by
  cases result <;> rfl

theorem Alike.refl (v : Value) : Alike v v := ⟨fun name => endsAlike_self name _, rfl⟩

variable {file : List UInt8} {cs : List Char} {v w : Value}

theorem load_of_read (decoded : Text.decodeUtf8 file = .ok cs) (read : Yaml.read cs = .ok w) :
    Document.load file = (Document.ofValue w).mapError .document ∧
      Format.detect file = Format.ofValue w := by
  have value : readFile file = .ok w := by rw [readFile, decoded]; dsimp only; rw [read]
  rw [Document.load, Format.detect, value]
  refine ⟨?_, rfl⟩
  dsimp only
  cases Document.ofValue w <;> rfl

theorem agrees_of_read (decoded : Text.decodeUtf8 file = .ok cs) (read : Yaml.read cs = .ok w) :
    Agrees file v ↔ Alike w v := by
  obtain ⟨load, detect⟩ := load_of_read decoded read
  constructor
  · intro agrees
    exact ⟨fun name => load ▸ agrees.document name, detect.symm.trans agrees.format⟩
  · intro alike
    exact ⟨fun name => load ▸ alike.document name, detect.trans alike.format⟩

theorem head?_append {c : Char} {word : String} (begins : word.toList.head? = some c) (rest : String) :
    (word ++ rest).toList.head? = some c := by
  rw [String.toList_append, List.head?_append, begins, Option.some_or]

theorem message_ne (problems : List Problem) :
    DocumentFault.message "x" .notYaml ≠ Problem.summary problems := by
  intro same
  have named : (DocumentFault.message "x" .notYaml).toList.head? = some 'x' :=
    head?_append (c := 'x') (by decide) _
  have malformed : (Problem.summary problems).toList.head? = some 'm' :=
    head?_append (c := 'm') (by decide) _
  rw [same, malformed] at named
  exact absurd named (by decide)

theorem not_agrees_of_fault {e : Yaml.Fault} (decoded : Text.decodeUtf8 file = .ok cs)
    (read : Yaml.read cs = .error e) (object : v.entries?.isSome = true) : ¬ Agrees file v := by
  have fault : readFile file = .error (.yaml e) := by rw [readFile, decoded]; dsimp only; rw [read]
  have load : Document.load file = .error (FileFault.toLoadFault (.yaml e)) := by
    rw [Document.load, fault]
  intro agrees
  have alike := agrees.document "x"
  obtain ⟨m, entries⟩ := Option.isSome_iff_exists.1 object
  rw [load, Document.ofValue, entries] at alike
  dsimp only at alike
  generalize Entries.readWhole m (Document.ofEntries m) = result at alike
  cases result with
  | ok d => cases e <;> exact alike
  | bad first others =>
    cases e with
    | malformed =>
      exact message_ne _ alike
    | _ => exact alike

theorem isBracketed_of_object {d : Dialect} {t : Spelling}
    (object : (t.value d).entries?.isSome = true) : Yaml.isBracketed t = true := by
  cases t with
  | bare | quoted => contradiction
  | _ => rfl

/-- A text of JSON whose value is a mapping is spelled by a tree. A file with the text is loaded as the
    value exactly if the text can be read as YAML and means the same there, and if its strings and
    numerals are plain it means the same. -/
theorem agrees_iff_isReadable {text : String} (decoded : Text.decodeUtf8 file = .ok text.toList)
    (json : Json.read text = some v) (object : v.entries?.isSome = true) :
    (∃ t : Whole, t.chars = text.toList ∧ t.body.value .json = v) ∧
    ∀ t : Whole, t.chars = text.toList → t.body.value .json = v →
      (Agrees file v ↔ Yaml.isReadable t = true ∧ Alike (t.body.value Yaml.dialect) v) ∧
      (t.body.obeys Yaml.plainRules = true → (Agrees file v ↔ Yaml.isReadable t = true)) := by
  refine ⟨read_spelled json, fun t chars value => ?_⟩
  have gives := Yaml.read_whole t (isBracketed_of_object (value ▸ object))
  rw [chars] at gives
  have condition : Agrees file v ↔
      Yaml.isReadable t = true ∧ Alike (t.body.value Yaml.dialect) v := by
    cases readable : Yaml.isReadable t with
    | true =>
      rw [readable] at gives
      rw [agrees_of_read decoded gives]
      exact (and_iff_right rfl).symm
    | false =>
      rw [readable] at gives
      obtain ⟨e, fault⟩ := gives
      exact iff_of_false (not_agrees_of_fault decoded fault object) fun both =>
        absurd both.1 Bool.false_ne_true
  refine ⟨condition, fun plain => condition.trans (and_iff_left_of_imp fun readable => ?_)⟩
  rw [Yaml.value_plain t.body plain, value]
  exact .refl v

def briefText : String := "\x7b\"swagger\": \"2.0\"\x7d"

def briefFile : List UInt8 := Text.encodeUtf8 briefText.toList

def briefTree : Whole :=
  let space : Blanks := ⟨[' '], List.forall_mem_singleton.2 rfl⟩
  let key : List Piece := [.raw 's' (by decide), .raw 'w' (by decide), .raw 'a' (by decide),
    .raw 'g' (by decide), .raw 'g' (by decide), .raw 'e' (by decide), .raw 'r' (by decide)]
  let version : List Piece := [.raw '2' (by decide), .raw '.' (by decide), .raw '0' (by decide)]
  ⟨.none, .object (.last ⟨.none, key, .none, space⟩ (.quoted version) .none), .none⟩

theorem agrees_briefFile : Text.decodeUtf8 briefFile = .ok briefText.toList ∧
    ∃ v, Json.read briefText = some v ∧ v.entries?.isSome = true ∧ Agrees briefFile v := by
  have decoded : Text.decodeUtf8 briefFile = .ok briefText.toList := by decide +kernel
  have chars : briefTree.chars = briefText.toList := by decide +kernel
  have json : Json.read briefText = some (briefTree.body.value .json) := by
    rw [← String.ofList_toList (s := briefText), ← chars]
    exact read_chars briefTree (by decide +kernel)
  refine ⟨decoded, _, json, rfl, ?_⟩
  have condition := ((agrees_iff_isReadable decoded json rfl).2 briefTree chars rfl).2
  exact (condition (by decide +kernel)).2 (by decide +kernel)

def tabbedText : String :=
  "\x7b\t\"swagger\": \"2.0\", \"info\": \x7b\"title\": \"x\"\x7d, \"paths\": \x7b\x7d\x7d"

def tabbedFile : List UInt8 := Text.encodeUtf8 tabbedText.toList

/-- A tab between words is blank in JSON, and makes the text none that the loader reads. -/
theorem not_agrees_tabbedFile : Text.decodeUtf8 tabbedFile = .ok tabbedText.toList ∧
    ∃ v, Json.read tabbedText = some v ∧ v.entries?.isSome = true ∧
      Format.ofValue v = .ok .swagger2 ∧ Format.detect tabbedFile = .ok .unknown ∧
      ¬ Agrees tabbedFile v := by
  have decoded : Text.decodeUtf8 tabbedFile = .ok tabbedText.toList := by decide +kernel
  have detect : Format.detect tabbedFile = .ok .unknown := by decide +kernel
  have read : (Json.read tabbedText).map (fun v => (v.entries?.isSome, Format.ofValue v)) =
      some (true, .ok .swagger2) := by decide +kernel
  obtain ⟨v, json, known⟩ := Option.map_eq_some_iff.1 read
  obtain ⟨object, format⟩ := Prod.mk.inj known
  refine ⟨decoded, v, json, object, format, detect, fun agrees => ?_⟩
  have same := detect.symm.trans (agrees.format.trans format)
  exact absurd same (by decide)

end ApiModel
