import ApiModel.Proofs.Building.OperationNames
import Mathlib.Logic.Relation

namespace ApiModel

open Text

def isBrace (l : Letter) : Bool := l = .char '\x7b' || l = .char '\x7d'

def withoutBraces (ls : List Letter) : List Letter := ls.filter (!isBrace ·)

/-- The second path has one character more, and it separates nothing: a brace, or a slash at an end or beside
    another slash. -/
inductive Pads : List Letter → List Letter → Prop
  | brace {c : Letter} (brace : isBrace c = true) (l r : List Letter) : Pads (l ++ r) (l ++ c :: r)
  | front (path : List Letter) : Pads path (.char '/' :: path)
  | back (path : List Letter) : Pads path (path ++ [.char '/'])
  | beside (l r : List Letter) : Pads (l ++ .char '/' :: r) (l ++ .char '/' :: .char '/' :: r)

def SameRoute (p q : Str) : Prop := Relation.EqvGen Pads p.toList q.toList

structure IsPathOf (segments : List (List Letter)) (path : Str) : Prop where
  nonempty : segments ≠ []
  noSlash : ∀ s ∈ segments, .char '/' ∉ s
  joined : [Letter.char '/'].intercalate segments = path.toList

def shownSegments (segments : List (List Letter)) : List (List Letter) :=
  (segments.map withoutBraces).filter (!·.isEmpty)

section Splitting

variable {α : Type} [DecidableEq α] {sign : α}

theorem splitEach_ne_nil (sign : α) (cs : List α) : splitEach sign cs ≠ [] := by
  cases cs with
  | nil => exact List.cons_ne_nil _ _
  | cons c cs =>
    rw [splitEach]
    split
    · exact List.cons_ne_nil _ _
    · split <;> exact List.cons_ne_nil _ _

theorem splitEach_cons (c : α) (cs : List α) : splitEach sign (c :: cs) =
    if c = sign then [] :: splitEach sign cs else (splitEach sign cs).modifyHead (c :: ·) := by
  rw [splitEach]
  obtain ⟨s, more, parts⟩ := List.exists_cons_of_ne_nil (splitEach_ne_nil sign cs)
  rw [parts]
  rfl

theorem splitEach_eq_splitOn (cs : List α) : splitEach sign cs = cs.splitOn sign := by
  induction cs with
  | nil => exact (List.splitOn_nil sign).symm
  | cons c cs ih =>
    rw [splitEach_cons, List.splitOn_cons_eq_if_modifyHead, ih]
    simp only [beq_iff_eq]

theorem splitEach_append (l r : List α) :
    splitEach sign (l ++ sign :: r) = splitEach sign l ++ splitEach sign r := by
  simp only [splitEach_eq_splitOn]
  exact List.splitOn_append_cons_self l r

theorem notMem_of_mem_splitEach (cs : List α) : ∀ s ∈ splitEach sign cs, sign ∉ s := by
  induction cs with
  | nil => simp [splitEach]
  | cons c cs ih =>
    rw [splitEach_cons]
    split
    · exact List.forall_mem_cons.2 ⟨List.not_mem_nil, ih⟩
    · rename_i other
      obtain ⟨s, more, parts⟩ := List.exists_cons_of_ne_nil (splitEach_ne_nil sign cs)
      rw [parts] at ih ⊢
      obtain ⟨first, rest⟩ := List.forall_mem_cons.1 ih
      apply List.forall_mem_cons.2 ⟨_, rest⟩
      intro mem
      rcases List.mem_cons.1 mem with same | mem
      · exact other same.symm
      · exact first mem

end Splitting

theorem isPathOf_segments (path : Str) : IsPathOf (splitEach (.char '/') path.toList) path where
  nonempty := splitEach_ne_nil (.char '/') path.toList
  noSlash := notMem_of_mem_splitEach path.toList
  joined := by
    rw [splitEach_eq_splitOn]
    exact List.intercalate_splitOn _

@[simp] theorem shownSegments_append (a b : List (List Letter)) :
    shownSegments (a ++ b) = shownSegments a ++ shownSegments b := by
  rw [shownSegments, List.map_append, List.filter_append]
  rfl

@[simp] theorem shownSegments_cons_nil (segments : List (List Letter)) :
    shownSegments ([] :: segments) = shownSegments segments := rfl

theorem map_withoutBraces_segments (ls : List Letter) :
    (splitEach (.char '/') ls).map withoutBraces = splitEach (.char '/') (withoutBraces ls) := by
  induction ls with
  | nil => rfl
  | cons c ls ih =>
    obtain ⟨s, more, parts⟩ := List.exists_cons_of_ne_nil (splitEach_ne_nil (.char '/') ls)
    rw [splitEach_cons]
    by_cases slash : c = .char '/'
    · have kept : withoutBraces (c :: ls) = c :: withoutBraces ls := by
        rw [slash]
        rfl
      rw [if_pos slash, kept, splitEach_cons, if_pos slash, List.map_cons, ih]
      rfl
    · rw [parts, List.map_cons] at ih
      rw [if_neg slash, parts, List.modifyHead_cons, List.map_cons]
      cases brace : isBrace c with
      | true =>
        have gone (ds : List Letter) : withoutBraces (c :: ds) = withoutBraces ds := by
          simp [withoutBraces, brace]
        rw [gone, gone, ih]
      | false =>
        have kept (ds : List Letter) : withoutBraces (c :: ds) = c :: withoutBraces ds := by
          simp [withoutBraces, brace]
        rw [kept, kept, splitEach_cons, if_neg slash, ← ih, List.modifyHead_cons]

theorem shownSegments_of_pads {p q : List Letter} (pads : Pads p q) :
    shownSegments (splitEach (.char '/') p) = shownSegments (splitEach (.char '/') q) := by
  cases pads with
  | @brace c brace l r =>
    have gone : withoutBraces (l ++ c :: r) = withoutBraces (l ++ r) := by
      simp [withoutBraces, brace]
    rw [shownSegments, shownSegments, map_withoutBraces_segments, map_withoutBraces_segments, gone]
  | front => rw [splitEach_cons, if_pos rfl, shownSegments_cons_nil]
  | back =>
    have last : shownSegments (splitEach (.char '/') []) = [] := rfl
    rw [splitEach_append, shownSegments_append, last, List.append_nil]
  | beside l r =>
    rw [splitEach_append, splitEach_append, splitEach_cons, if_pos rfl, shownSegments_append,
      shownSegments_append, shownSegments_cons_nil]

theorem shownSegments_of_eqvGen {p q : List Letter} (same : Relation.EqvGen Pads p q) :
    shownSegments (splitEach (.char '/') p) = shownSegments (splitEach (.char '/') q) := by
  induction same with
  | rel p q pads => exact shownSegments_of_pads pads
  | refl p => rfl
  | symm p q _ ih => exact ih.symm
  | trans p q r _ _ first second => exact first.trans second

theorem pathSegments_eq (path : Str) : pathSegments path =
    (shownSegments (splitEach (.char '/') path.toList)).map identifierLetters := by
  have braces :
      (fun l : Letter => decide (l ≠ .char '\x7b') && decide (l ≠ .char '\x7d')) = (!isBrace ·) := by
    funext l
    simp [isBrace]
  rw [pathSegments, braces]
  rfl

theorem generateName_of_sameRoute {p q : Str} (same : SameRoute p q) (verb : Str) :
    generateName verb p = generateName verb q := by
  rw [generateName, generateName, pathSegments_eq, pathSegments_eq, shownSegments_of_eqvGen same]

theorem takeWhile_generateName {verb : String} (modelled : verb ∈ methodVerbs) (path : Str) :
    (generateName verb path).toList.takeWhile (· ≠ .char '_') = (Str.lower verb).toList := by
  have letters : ∀ verb ∈ methodVerbs, (Str.lower verb).toList.all (· ≠ .char '_') = true := by decide
  rw [toList_generateName, List.takeWhile_append_of_pos (List.all_eq_true.mp (letters verb modelled))]
  cases pathSegments path with
  | nil => rw [List.flatMap_nil, List.takeWhile_nil, List.append_nil]
  | cons s segments =>
    rw [List.flatMap_cons, List.cons_append, List.takeWhile_cons_of_neg (by decide), List.append_nil]

theorem verb_of_generateName {verb verb' : String} {p q : Str} (modelled : verb ∈ methodVerbs)
    (modelled' : verb' ∈ methodVerbs) (same : generateName verb p = generateName verb' q) : verb = verb' := by
  have small : ∀ verb ∈ methodVerbs, ∀ verb' ∈ methodVerbs,
      Str.lower verb = Str.lower verb' → verb = verb' := by decide
  apply small verb modelled verb' modelled'
  rw [← Str.toList_inj, ← takeWhile_generateName modelled p, same, takeWhile_generateName modelled' q]

/-- Names for different verbs differ. The name for a verb and a path is the small verb and, each behind an
    underscore, what of the segments of the path is not a brace, with an underscore for each character that no
    identifier has; so it is the same for all paths that differ in braces and empty segments only. -/
theorem generateName_of_route {verb verb' : String} (modelled : verb ∈ methodVerbs)
    (modelled' : verb' ∈ methodVerbs) (p q : Str) :
    (verb ≠ verb' → generateName verb p ≠ generateName verb' q) ∧
    (SameRoute p q → generateName verb p = generateName verb q) ∧
    ∃ segments pieces, IsPathOf segments p ∧
      List.Forall₂ (List.Forall₂ Stands) (shownSegments segments) pieces ∧
      (generateName verb p).toList = (Str.lower verb).toList ++ pieces.flatMap (.char '_' :: ·) := by
  refine ⟨fun differ same => differ (verb_of_generateName modelled modelled' same),
    fun same => generateName_of_sameRoute same verb, splitEach (.char '/') p.toList,
    (shownSegments (splitEach (.char '/') p.toList)).map identifierLetters, isPathOf_segments p, ?_, ?_⟩
  · rw [List.forall₂_map_right_iff]
    exact List.forall₂_same.2 fun s _ => stands_identifierLetters s
  · rw [toList_generateName, pathSegments_eq]

theorem sameRoute_pets : SameRoute "/pets/\x7bid\x7d" "pets//id" := by
  have slash : SameRoute "pets/id" "pets//id" :=
    .rel _ _ (.beside ("pets" : Str).toList ("id" : Str).toList)
  have front : SameRoute "pets/id" "/pets/id" := .rel _ _ (.front ("pets/id" : Str).toList)
  have opened : SameRoute "/pets/id" "/pets/\x7bid" :=
    .rel _ _ (.brace rfl ("/pets/" : Str).toList ("id" : Str).toList)
  have closed : SameRoute "/pets/\x7bid" "/pets/\x7bid\x7d" :=
    .rel _ _ (.brace rfl ("/pets/\x7bid" : Str).toList [])
  have whole := front.trans _ _ _ (opened.trans _ _ _ closed)
  exact whole.symm.trans _ _ _ slash

theorem generateName_of_petsRoute :
    "GET" ∈ methodVerbs ∧ "PUT" ∈ methodVerbs ∧ SameRoute "/pets/\x7bid\x7d" "pets//id" ∧
      generateName "GET" "/pets/\x7bid\x7d" = "get_pets_id" ∧
      generateName "GET" "/pets/\x7bid\x7d" = generateName "GET" "pets//id" ∧
      generateName "GET" "/pets/\x7bid\x7d" ≠ generateName "PUT" "pets//id" ∧
      ∃ segments pieces, IsPathOf segments "/pets/\x7bid\x7d" ∧
        List.Forall₂ (List.Forall₂ Stands) (shownSegments segments) pieces ∧
        (generateName "GET" "/pets/\x7bid\x7d").toList =
          (Str.lower "GET").toList ++ pieces.flatMap (.char '_' :: ·) := by
  have get : "GET" ∈ methodVerbs := by decide
  have put : "PUT" ∈ methodVerbs := by decide
  obtain ⟨verbs, route, shown⟩ := generateName_of_route get put "/pets/\x7bid\x7d" "pets//id"
  exact ⟨get, put, sameRoute_pets, by decide, route sameRoute_pets, verbs (by decide), shown⟩

end ApiModel
