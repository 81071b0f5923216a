import ApiModel.Proofs.Building.Run

namespace ApiModel

open Text

/-- A letter or underscore of ASCII, and behind it only letters, digits and underscores of ASCII. -/
def isIdentifier (s : Str) : Bool :=
  s.toList.head?.any (Letter.isOf fun c => c.isAlpha || c = '_') && s.toList.all (Letter.isOf isWordChar)

theorem Letter.isWord_of_isDigit {l : Letter} (digit : l.isOf Char.isDigit = true) :
    l.isOf isWordChar = true := by
  cases l with
  | char c => exact Bool.or_eq_true_iff.2 (.inl (Bool.or_eq_true_iff.2 (.inr digit)))
  | half offset => contradiction

/-- What an identifier begins with is what stands in it and is no digit. -/
theorem Letter.isStart_iff {l : Letter} : (l.isOf fun c => c.isAlpha || c = '_') = true ↔
    l.isOf isWordChar = true ∧ l.isOf Char.isDigit = false := by
  cases l with
  | half offset => simp [isOf]
  | char c =>
    have apart (alpha : c.isAlpha = true) : c.isDigit = false := by
      have past : 65 ≤ c.toNat := by
        rcases Bool.or_eq_true_iff.1 alpha with upper | lower
        · exact (of_decide_eq_true upper).1
        · exact le_trans (by decide) (of_decide_eq_true (Bool.and_eq_true_iff.1 lower).1 : 97 ≤ c.toNat)
      have high : ¬c.toNat ≤ 57 := by omega
      exact Bool.and_eq_false_iff.2 (.inr (decide_eq_false high))
    by_cases underscore : c = '_'
    · subst underscore
      decide
    · simp only [isOf, isWordChar, Char.isAlphanum, underscore, decide_false, Bool.or_false]
      grind

theorem isIdentifier_iff {s : Str} : isIdentifier s = true ↔ ∃ l ls, s.toList = l :: ls ∧
    l.isOf isWordChar = true ∧ l.isOf Char.isDigit = false ∧ ∀ x ∈ ls, x.isOf isWordChar = true := by
  unfold isIdentifier
  cases s.toList with
  | nil => simp
  | cons l ls =>
    rw [Bool.and_eq_true, List.head?_cons, Option.any_some, Letter.isStart_iff]
    simp
    tauto

theorem isIdentifier_append {s t : Str} (identifier : isIdentifier s = true)
    (word : ∀ l ∈ t.toList, l.isOf isWordChar = true) : isIdentifier (s ++ t) = true := by
  obtain ⟨l, ls, letters, first, start, rest⟩ := isIdentifier_iff.1 identifier
  refine isIdentifier_iff.2 ⟨l, ls ++ t.toList, by rw [Str.toList_append, letters]; rfl, first, start, ?_⟩
  exact List.forall_mem_append.2 ⟨rest, word⟩

theorem isWord_of_mem_identifierLetters (ls : List Letter) :
    ∀ l ∈ identifierLetters ls, l.isOf isWordChar = true := by
  refine List.forall_mem_map.2 fun l _ => ?_
  split
  · assumption
  · decide

/-- The name of an operation, if it has one, becomes an identifier: what an identifier cannot begin with
    stands behind an underscore. -/
theorem isIdentifier_sanitizeName {operationId : Str} (named : sanitizeName operationId ≠ "") :
    isIdentifier (sanitizeName operationId) = true := by
  have word := isWord_of_mem_identifierLetters operationId.toList
  unfold sanitizeName at named ⊢
  generalize identifierLetters operationId.toList = ls at word named ⊢
  rw [isIdentifier_iff]
  cases ls with
  | nil => exact absurd rfl named
  | cons l ls =>
    obtain ⟨first, rest⟩ := List.forall_mem_cons.1 word
    by_cases digit : l.isOf Char.isDigit = true
    · exact ⟨.char '_', l :: ls, by simp [digit], by decide, by decide, word⟩
    · exact ⟨l, ls, by simp [digit], first, by simpa using digit, rest⟩

def methodVerbs : List String := ["GET", "POST", "PUT", "DELETE"]

theorem isIdentifier_lower_verb : ∀ verb ∈ methodVerbs, isIdentifier (Str.lower verb) = true := by
  decide

theorem intercalate_cons {α : Type} (sign : α) (first : List α) (others : List (List α)) :
    [sign].intercalate (first :: others) = first ++ others.flatMap (sign :: ·) := by
  induction others generalizing first with
  | nil => simp
  | cons next others ih => simp [ih]

theorem toList_generateName (verb path : Str) : (generateName verb path).toList =
    verb.lower.toList ++ (pathSegments path).flatMap (.char '_' :: ·) := intercalate_cons ..

theorem isIdentifier_generateName {verb : String} (modelled : verb ∈ methodVerbs) (path : Str) :
    isIdentifier (generateName verb path) = true := by
  have whole : generateName verb path =
      Str.lower verb ++ .ofList ((pathSegments path).flatMap (.char '_' :: ·)) :=
    Str.ext (toList_generateName ..)
  rw [whole]
  refine isIdentifier_append (isIdentifier_lower_verb verb modelled) fun l mem => ?_
  obtain ⟨segment, listed, inside⟩ := List.mem_flatMap.1 mem
  obtain ⟨s, -, rfl⟩ := List.mem_map.1 listed
  rcases List.mem_cons.1 inside with rfl | word
  · decide
  · exact isWord_of_mem_identifierLetters s l word

theorem isIdentifier_baseName {verb : String} (modelled : verb ∈ methodVerbs) (operationId path : Str) :
    isIdentifier (baseName operationId verb path) = true := by
  unfold baseName
  dsimp only
  split
  · exact isIdentifier_generateName modelled path
  · rename_i named
    exact isIdentifier_sanitizeName (by simpa [← Str.isEmpty_iff] using named)

theorem isIdentifier_typeName {name : Str} (identifier : isIdentifier name = true) (role : Role) :
    isIdentifier (role.typeName name) = true := by
  cases role with
  | parameters => exact isIdentifier_append identifier (by decide)
  | responses => exact isIdentifier_append identifier (by decide)

theorem PathItem.mem_methodVerbs {item : PathItem} {verb : String} {o : Operation}
    (mem : (verb, o) ∈ item.modelled) : verb ∈ methodVerbs := by
  obtain ⟨⟨name, given⟩, listed, found⟩ := List.mem_filterMap.1 mem
  obtain ⟨_, -, same⟩ := Option.map_eq_some_iff.1 found
  cases same
  exact List.mem_map_of_mem (f := Prod.fst) listed

theorem Document.mem_methodVerbs {d : Document} {path : Str} {verb : String} {o : Operation}
    (mem : (path, verb, o) ∈ d.operations) : verb ∈ methodVerbs := by
  obtain ⟨e, entry, op⟩ := List.mem_flatMap.1 mem
  obtain ⟨_, modelled, same⟩ := List.mem_map.1 op
  cases same
  exact PathItem.mem_methodVerbs modelled

namespace Builder

theorem isIdentifier_candidate {name : Str} (identifier : isIdentifier name = true) (k : Nat) :
    isIdentifier (candidate name k) = true := by
  unfold candidate
  split
  · exact identifier
  · refine isIdentifier_append (isIdentifier_append identifier (by decide)) ?_
    rw [Str.toList_coe]
    refine List.forall_mem_map.2 fun c mem => Letter.isWord_of_isDigit ?_
    have listed : c ∈ Nat.toDigits 10 k := by simpa using mem
    exact Nat.isDigit_of_mem_toDigits (by decide) (by decide) listed

theorem isIdentifier_uniqueName (b : Builder) {name : Str} (identifier : isIdentifier name = true) :
    isIdentifier (b.uniqueName name) = true := by
  obtain ⟨k, -, -, found, -⟩ := b.uniqueName_spec name
  exact found ▸ isIdentifier_candidate identifier k

/-- Every method of a run is called by an identifier, if all its operations are those of method verbs. -/
theorem Run.identifiers {b after : Builder} {operations : List (Str × String × Operation)}
    {cs : List Contribution} (run : Run b operations cs after)
    (verbs : ∀ op ∈ operations, op.2.1 ∈ methodVerbs) :
    ∀ c ∈ cs, isIdentifier c.method.name = true := by
  induction run with
  | done b => exact List.forall_mem_nil _
  | step made named rest ih =>
    obtain ⟨first, others⟩ := List.forall_mem_cons.1 verbs
    refine List.forall_mem_cons.2 ⟨?_, ih others⟩
    rw [named]
    exact isIdentifier_uniqueName _ (isIdentifier_baseName first ..)

end Builder

namespace Document

/-- The methods of a model are called by identifiers, and so are all types that operations may bring in and
    those that they do bring in, the ones behind the definitions. -/
theorem toModel_identifiers (d : Document) (m : Model) (built : d.toModel.result = .ok m) :
    (∀ method ∈ m.methods, isIdentifier method.name = true ∧
      ∀ role : Role, isIdentifier (role.typeName method.name) = true) ∧
    ∀ t ∈ m.types.drop d.definitions.size, isIdentifier t.name = true := by
  obtain ⟨definitions, cs, after, types, run, rfl⟩ := toModel_eq_ok_iff.1 built
  have identifiers := run.identifiers fun op mem => mem_methodVerbs mem
  constructor
  · intro method mem
    obtain ⟨c, inside, rfl⟩ : ∃ c ∈ cs, c.method = method := by
      simpa [Builder.build, run.result.2.2.1, Builder.ofTypes] using mem
    exact ⟨identifiers c inside, isIdentifier_typeName (identifiers c inside)⟩
  · intro t mem
    have synthesized : t ∈ cs.flatMap Contribution.types := drop_definitionTypes types run ▸ mem
    obtain ⟨c, inside, new⟩ := List.mem_flatMap.1 synthesized
    obtain ⟨role, part⟩ := Contribution.mem_types.1 new
    obtain ⟨path, verb, o, -, made⟩ := run.exists_operation c inside
    rw [made.part_name role part]
    exact isIdentifier_typeName (identifiers c inside) role

/-- Operations without a name, with names that begin with digits, and with one that two of them come to
    share. -/
def foreignNames : Document where
  swagger := defaultVersion
  info := ⟨"Pets", "", "", []⟩
  paths := .ofList [("/ö/\x7bé\x7d", {
    ref := ""
    get := some ⟨"", "", "", [], [], .empty, []⟩
    put := some ⟨"٣", "", "", [], [], .empty, []⟩
    post := some ⟨"2 pets", "", "", [], [⟨"", "limit", "query", "", false, "integer", "", none, []⟩],
      .empty, []⟩
    delete := some ⟨"_2_pets", "", "", [], [⟨"", "tag", "query", "", false, "string", "", none, []⟩],
      .empty, []⟩
    options := none, head := none, patch := none
    parameters := []
    extras := [] })]
  definitions := .ofList [("2 / 3", ⟨"", ["object"], "", "", [], [], .absent, []⟩)]
  extras := []

theorem foreignNames_identifiers :
    ∃ m, foreignNames.toModel.result = .ok m ∧
      m.methods.map (·.name) = ["get____", "_2_pets", "_", "_2_pets_2"] ∧
      m.types.map (·.name) = ["2 / 3", "_2_petsParameters", "_2_pets_2Parameters"] ∧
      (∀ method ∈ m.methods, isIdentifier method.name = true ∧
        ∀ role : Role, isIdentifier (role.typeName method.name) = true) ∧
      ∀ t ∈ m.types.drop foreignNames.definitions.size, isIdentifier t.name = true :=
  ⟨_, rfl, rfl, rfl, toModel_identifiers foreignNames _ rfl⟩

end Document

end ApiModel
