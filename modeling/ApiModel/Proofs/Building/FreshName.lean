import ApiModel.Building.Builder
import Mathlib.Data.Finset.Card
import Mathlib.Order.Interval.Finset.Nat

namespace ApiModel

open Text

def derivedNames (name : Str) : List Str :=
  [name, parametersTypeName name, responsesTypeName name]

theorem mem_derivedNames {name s : Str} :
    s ∈ derivedNames name ↔
      s = name ∨ s = parametersTypeName name ∨ s = responsesTypeName name := by
  simp [derivedNames]

namespace Builder

theorem isTaken_eq_false_iff {b : Builder} {name : Str} :
    b.isTaken name = false ↔ ∀ s ∈ derivedNames name, s ∉ b.taken := by
  simp [isTaken, derivedNames, and_assoc]

theorem isTaken_iff {b : Builder} {name : Str} :
    b.isTaken name = true ↔ ∃ s ∈ derivedNames name, s ∈ b.taken := by
  simp [isTaken, derivedNames, or_assoc]

@[simp] theorem candidate_one (name : Str) : candidate name 1 = name := rfl

theorem candidate_later (name : Str) {k : Nat} (later : 2 ≤ k) :
    candidate name k = name ++ "_" ++ toString k := by
  rw [candidate, if_neg (by omega)]

def numberMark (k : Nat) : List Letter :=
  if k ≤ 1 then [] else .char '_' :: (Nat.toDigits 10 k).map .char

theorem toList_candidate (name : Str) (k : Nat) :
    (candidate name k).toList = name.toList ++ numberMark k := by
  by_cases first : k ≤ 1
  · simp [candidate, numberMark, first]
  · simp [candidate, numberMark, first, Str.toList_coe]

def derivedEndings : List (List Letter) :=
  [[], ("Parameters" : Str).toList, ("Responses" : Str).toList]

theorem toList_of_mem_derivedNames {name s : Str} (mem : s ∈ derivedNames name) :
    ∃ ending ∈ derivedEndings, s.toList = name.toList ++ ending := by
  rcases mem_derivedNames.1 mem with rfl | rfl | rfl
  · exact ⟨[], by simp [derivedEndings], by simp⟩
  · exact ⟨("Parameters" : Str).toList, by simp [derivedEndings], rfl⟩
  · exact ⟨("Responses" : Str).toList, by simp [derivedEndings], rfl⟩

theorem takeWhile_digits_ending {ending : List Letter} (mem : ending ∈ derivedEndings) (k : Nat) :
    ((Nat.toDigits 10 k).map Letter.char ++ ending).takeWhile (Letter.isOf Char.isDigit) =
      (Nat.toDigits 10 k).map Letter.char := by
  have digits : ∀ l ∈ (Nat.toDigits 10 k).map Letter.char, l.isOf Char.isDigit = true :=
    List.forall_mem_map.2 fun c hc => Nat.isDigit_of_mem_toDigits (by decide) (by decide) hc
  have stops : ending.takeWhile (Letter.isOf Char.isDigit) = [] := by
    simp only [derivedEndings, List.mem_cons, List.not_mem_nil, or_false] at mem
    rcases mem with rfl | rfl | rfl <;> rfl
  rw [List.takeWhile_append_of_pos digits, stops, List.append_nil]

theorem not_underscore_head {ending : List Letter} (mem : ending ∈ derivedEndings) :
    ending.head? ≠ some (.char '_') := by
  simp only [derivedEndings, List.mem_cons, List.not_mem_nil, or_false] at mem
  rcases mem with rfl | rfl | rfl <;> decide

theorem number_of_mark {j k : Nat} (hj : 1 ≤ j) (hk : 1 ≤ k) {x y : List Letter}
    (hx : x ∈ derivedEndings) (hy : y ∈ derivedEndings)
    (same : numberMark j ++ x = numberMark k ++ y) : j = k := by
  by_cases firstJ : j ≤ 1 <;> by_cases firstK : k ≤ 1
  · omega
  · have head := congrArg List.head? same
    simp only [numberMark, firstJ, firstK, if_true, if_false, List.nil_append, List.cons_append,
      List.head?_cons] at head
    exact absurd head (not_underscore_head hx)
  · have head := congrArg List.head? same
    simp only [numberMark, firstJ, firstK, if_true, if_false, List.nil_append, List.cons_append,
      List.head?_cons] at head
    exact absurd head.symm (not_underscore_head hy)
  · simp only [numberMark, firstJ, firstK, if_false, List.cons_append, List.cons.injEq,
      true_and] at same
    have letters : (Nat.toDigits 10 j).map Letter.char = (Nat.toDigits 10 k).map .char := by
      rw [← takeWhile_digits_ending hx j, same, takeWhile_digits_ending hy k]
    have digits : Nat.toDigits 10 j = Nat.toDigits 10 k :=
      List.map_injective_iff.2 (fun _ _ => Letter.char.inj) letters
    have number := congrArg (fun ds => Nat.ofDigitChars 10 ds 0) digits
    simpa using number

theorem candidate_number_unique {name s : Str} {j k : Nat} (hj : 1 ≤ j) (hk : 1 ≤ k)
    (left : s ∈ derivedNames (candidate name j)) (right : s ∈ derivedNames (candidate name k)) :
    j = k := by
  obtain ⟨x, hx, endsX⟩ := toList_of_mem_derivedNames left
  obtain ⟨y, hy, endsY⟩ := toList_of_mem_derivedNames right
  rw [toList_candidate, List.append_assoc] at endsX endsY
  exact number_of_mark hj hk hx hy (List.append_cancel_left (endsX.symm.trans endsY))

theorem exists_free_candidate (b : Builder) (name : Str) :
    ∃ k, 1 ≤ k ∧ k ≤ b.taken.toFinset.card + 1 ∧ b.isTaken (candidate name k) = false := by
  by_contra none
  have taken : ∀ k ∈ Finset.Icc 1 (b.taken.toFinset.card + 1),
      ∃ s, s ∈ derivedNames (candidate name k) ∧ s ∈ b.taken := by
    intro k hk
    have bounds := Finset.mem_Icc.1 hk
    have isTaken : b.isTaken (candidate name k) = true := by
      by_contra free
      exact none ⟨k, bounds.1, bounds.2, by simpa using free⟩
    exact isTaken_iff.1 isTaken
  -- distinct candidates would be taken by distinct names, and there are too few of these
  choose! shared derived mem using taken
  have injective : Set.InjOn shared (Finset.Icc 1 (b.taken.toFinset.card + 1)) := by
    intro j hj k hk same
    have left := derived j hj
    rw [same] at left
    exact candidate_number_unique (Finset.mem_Icc.1 hj).1 (Finset.mem_Icc.1 hk).1 left (derived k hk)
  have count := Finset.card_le_card_of_injOn (t := b.taken.toFinset) shared
    (fun k hk => by simpa using mem k hk) injective
  simp only [Nat.card_Icc, Nat.add_sub_cancel] at count
  omega

theorem firstFree_spec (b : Builder) (name : Str) (fuel k : Nat) :
    ∃ j, k ≤ j ∧ j ≤ k + fuel ∧ b.firstFree name fuel k = candidate name j ∧
      (∀ i, k ≤ i → i < j → b.isTaken (candidate name i) = true) ∧
      (j < k + fuel → b.isTaken (candidate name j) = false) := by
  induction fuel generalizing k with
  | zero => exact ⟨k, le_refl k, le_refl k, rfl, by intro i _ _; omega, by intro h; omega⟩
  | succ fuel ih =>
    by_cases taken : b.isTaken (candidate name k) = true
    · obtain ⟨j, from_k, to_j, found, before, free⟩ := ih (k + 1)
      refine ⟨j, by omega, by omega, by simp only [firstFree, taken, if_true, found], ?_, ?_⟩
      · intro i lower upper
        rcases Nat.lt_or_eq_of_le lower with later | rfl
        · exact before i later upper
        · exact taken
      · intro bound
        exact free (by omega)
    · refine ⟨k, le_refl k, by omega, by simp [firstFree, taken], by intro i _ _; omega, ?_⟩
      intro _
      simpa using taken

/-- The unique name is the first free candidate, found among one more than there are taken names. -/
theorem uniqueName_spec (b : Builder) (name : Str) :
    ∃ j, 1 ≤ j ∧ j ≤ b.taken.toFinset.card + 1 ∧ b.uniqueName name = candidate name j ∧
      (∀ i, 1 ≤ i → i < j → b.isTaken (candidate name i) = true) ∧
      b.isTaken (candidate name j) = false := by
  obtain ⟨j, lower, upper, found, before, free⟩ := firstFree_spec b name b.taken.length 1
  obtain ⟨k, hk, bound, freeK⟩ := exists_free_candidate b name
  have distinct : b.taken.toFinset.card ≤ b.taken.length := b.taken.toFinset_card_le
  have notPast : j ≤ k := by
    by_contra past
    rw [before k hk (by omega)] at freeK
    contradiction
  refine ⟨j, lower, by omega, found, before, ?_⟩
  rcases Nat.lt_or_eq_of_le notPast with less | rfl
  · exact free (by omega)
  · exact freeK

theorem uniqueName_free (b : Builder) (name : Str) :
    ∀ s ∈ derivedNames (b.uniqueName name), s ∉ b.taken := by
  obtain ⟨j, _, _, found, _, free⟩ := uniqueName_spec b name
  rw [found]
  exact isTaken_eq_false_iff.1 free

theorem uniqueName_of_free {b : Builder} {name : Str} (free : ∀ s ∈ derivedNames name, s ∉ b.taken) :
    b.uniqueName name = name := by
  obtain ⟨k, lower, -, found, before, -⟩ := uniqueName_spec b name
  have first : k = 1 := by
    by_contra later
    have taken := before 1 (le_refl 1) (by omega)
    rw [candidate_one, isTaken_eq_false_iff.2 free] at taken
    contradiction
  rw [found, first, candidate_one]

/-- The search from the `k`-th candidate on: a taken one is passed over, and it ends at a free one. -/
inductive Searches (b : Builder) (name : Str) : Nat → Str → Prop
  | found {k : Nat} (free : b.isTaken (candidate name k) = false) : Searches b name k (candidate name k)
  | next {k : Nat} {s : Str} (taken : b.isTaken (candidate name k) = true)
      (rest : Searches b name (k + 1) s) : Searches b name k s

/-- A search that passes only taken candidates on its way to a free one ends there and nowhere else. -/
theorem searches_iff {b : Builder} {name : Str} {k j : Nat} (upTo : k ≤ j)
    (before : ∀ i, k ≤ i → i < j → b.isTaken (candidate name i) = true)
    (free : b.isTaken (candidate name j) = false) (s : Str) :
    b.Searches name k s ↔ s = candidate name j := by
  induction upTo using Nat.decreasingInduction with
  | self =>
    constructor
    · intro search
      cases search with
      | found => rfl
      | next taken =>
        rw [taken] at free
        contradiction
    · rintro rfl
      exact .found free
  | of_succ k less ih =>
    have taken : b.isTaken (candidate name k) = true := before k (le_refl k) less
    rw [← ih fun i lower upper => before i (by omega) upper]
    constructor
    · intro search
      cases search with
      | found free =>
        rw [taken] at free
        contradiction
      | next _ rest => exact rest
    · intro rest
      exact .next taken rest

/-- The search ends with the unique name. That is the name itself if it is free, otherwise the name with the
    least number from 2 on that makes it free, which is at most one more than there are taken names. -/
theorem uniqueName_first_free (b : Builder) (name : Str) :
    (∀ s, b.Searches name 1 s ↔ s = b.uniqueName name) ∧
    ((∀ s ∈ derivedNames name, s ∉ b.taken) → b.uniqueName name = name) ∧
    ((∃ s ∈ derivedNames name, s ∈ b.taken) →
      ∃ k, 2 ≤ k ∧ k ≤ b.taken.toFinset.card + 1 ∧ b.uniqueName name = name ++ "_" ++ toString k ∧
        (∀ s ∈ derivedNames (name ++ "_" ++ toString k), s ∉ b.taken) ∧
        ∀ j, 2 ≤ j → j < k → ∃ s ∈ derivedNames (name ++ "_" ++ toString j), s ∈ b.taken) := by
  obtain ⟨k, lower, bound, found, before, free⟩ := uniqueName_spec b name
  refine ⟨?_, ?_, ?_⟩
  · rw [found]
    exact searches_iff lower before free
  · intro unclaimed
    exact uniqueName_of_free unclaimed
  · intro claimed
    have later : 2 ≤ k := by
      by_contra first
      obtain rfl : k = 1 := by omega
      rw [candidate_one, isTaken_iff.2 claimed] at free
      contradiction
    rw [candidate_later name later] at found free
    refine ⟨k, later, bound, found, isTaken_eq_false_iff.1 free, fun j numbered less => ?_⟩
    rw [← candidate_later name numbered]
    exact isTaken_iff.1 (before j (by omega) less)

/-- A builder in which a name is taken, and its first number by the type of a definition. -/
def reserved : Builder := ⟨"Pets", [], [], ["list", "list_2Responses"]⟩

theorem reserved_first_free :
    ((∀ s ∈ derivedNames "show", s ∉ reserved.taken) ∧ ∃ s ∈ derivedNames "list", s ∈ reserved.taken) ∧
    reserved.uniqueName "show" = "show" ∧ reserved.uniqueName "list" = "list_3" ∧
    ∃ k, 2 ≤ k ∧ k ≤ reserved.taken.toFinset.card + 1 ∧
      reserved.uniqueName "list" = "list" ++ "_" ++ toString k ∧
      (∀ s ∈ derivedNames ("list" ++ "_" ++ toString k), s ∉ reserved.taken) ∧
      ∀ j, 2 ≤ j → j < k → ∃ s ∈ derivedNames ("list" ++ "_" ++ toString j), s ∈ reserved.taken := by
  have unclaimed : ∀ s ∈ derivedNames "show", s ∉ reserved.taken := by decide
  have claimed : ∃ s ∈ derivedNames "list", s ∈ reserved.taken := by decide
  obtain ⟨-, free, -⟩ := uniqueName_first_free reserved "show"
  obtain ⟨-, -, numbered⟩ := uniqueName_first_free reserved "list"
  exact ⟨⟨unclaimed, claimed⟩, free unclaimed, by decide, numbered claimed⟩

end Builder

inductive Role
  | parameters
  | responses
  deriving DecidableEq

namespace Role

def typeName : Role → Str → Str
  | parameters => parametersTypeName
  | responses => responsesTypeName

theorem typeName_mem_derivedNames (role : Role) (name : Str) :
    role.typeName name ∈ derivedNames name := by
  cases role <;> simp [typeName, derivedNames]

theorem typeName_ne_self (role : Role) (name : Str) : role.typeName name ≠ name := by
  intro same
  have lengths := congrArg (fun s => s.toList.length) same
  cases role <;> simp [typeName, parametersTypeName, responsesTypeName, Str.toList_coe] at lengths

theorem typeName_ne_empty (role : Role) (name : Str) : role.typeName name ≠ "" := by
  intro same
  have lengths := congrArg (fun s => s.toList.length) same
  cases role <;> simp [typeName, parametersTypeName, responsesTypeName, Str.toList_coe] at lengths

theorem typeName_inj {role other : Role} {a b : Str} (same : role.typeName a = other.typeName b) :
    role = other ∧ a = b := by
  have lists := congrArg (fun s => s.toList.reverse) same
  cases role <;> cases other <;>
    simp [typeName, parametersTypeName, responsesTypeName, Str.toList_coe] at lists
  · exact ⟨rfl, Str.ext lists⟩
  · exact ⟨rfl, Str.ext lists⟩

end Role

end ApiModel
