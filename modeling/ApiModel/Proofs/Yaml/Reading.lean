import ApiModel.Proofs.Yaml.Values

namespace ApiModel.Yaml

open Json Text

theorem read_whole (t : Whole) (bracketed : isBracketed t.body = true) :
    Gives (isReadable t) (Yaml.read t.chars) (t.body.value dialect) := by
  have labels : t.obeys labelRules = t.body.obeys labelRules := Bool.and_true _
  have numerals : t.obeys readerRules = t.body.obeys readerRules := Bool.and_true _
  rw [Yaml.read, folded_whole, isReadable, labels, numerals]
  obtain ⟨scanned, unscanned⟩ := scanned_whole t bracketed
  cases t.chars.all isAllowed with
  | false => exact ⟨.malformed, rfl⟩
  | true =>
    cases words : t.obeys wordRules with
    | false =>
      obtain ⟨e, fault⟩ := ofTokens_fault (unscanned words)
      rw [fault]
      exact ⟨e, rfl⟩
    | true =>
      rw [scanned words]
      exact (composed_whole t.body bracketed).bind (value_tree t.body)

/-- None of the codes is the first half of a pair in front of the second. -/
def isPairless : List Nat → Bool
  | n :: m :: r => !(isFirstHalf n && isSecondHalf m) && isPairless (m :: r)
  | _ => true

def plainRules : Rules where
  blanks _ := true
  text ps := ps.all (!·.isLineEnd) && isPairless (ps.map Piece.number)
  numeral := isResolved
  label _ := true

theorem letter_of_isSpace {p : Piece} (space : p.isSpace = true) : p.letter = .char ' ' := by
  cases p with
  | raw c plain =>
    cases of_decide_eq_true space
    rfl
  | named | code => contradiction

theorem breaksAhead_plain {ps : List Piece} (plain : ps.all (!·.isLineEnd) = true) :
    breaksAhead ps = false := by
  rw [breaksAhead]
  cases behind : ps.dropWhile Piece.isSpace with
  | nil => rfl
  | cons p r =>
    have mem : p ∈ ps := (List.dropWhile_suffix _).subset (behind ▸ List.mem_cons_self ..)
    have ends := List.all_eq_true.1 plain p mem
    rw [Bool.not_eq_true'] at ends
    exact ends

theorem foldPieces_plain {ps : List Piece} (plain : ps.all (!·.isLineEnd) = true) :
    foldPieces false ps = ps.map Piece.letter := by
  induction ps with
  | nil => rfl
  | cons p r ih =>
    rw [List.all_cons, Bool.and_eq_true, Bool.not_eq_true'] at plain
    rw [foldPieces, ih plain.2, breaksAhead_plain plain.2, List.map_cons, plain.1]
    cases space : p.isSpace with
    | false => rfl
    | true =>
      rw [letter_of_isSpace space]
      rfl

theorem joinPairs_pairless {codes : List Nat} (pairless : isPairless codes = true) :
    joinPairs codes = codes.map .ofCode := by
  induction codes with
  | nil => rfl
  | cons n r ih =>
    cases r with
    | nil => rfl
    | cons m r =>
      rw [isPairless, Bool.and_eq_true, Bool.not_eq_true'] at pairless
      rw [joinPairs, pairless.1, if_neg Bool.false_ne_true, ih pairless.2]
      rfl

theorem text_plain {ps : List Piece} (plain : plainRules.text ps = true) :
    dialect.text ps = Dialect.json.text ps := by
  rw [plainRules, Bool.and_eq_true] at plain
  rw [dialect, Dialect.json]
  dsimp only
  rw [foldPieces_plain plain.1, joinPairs_pairless plain.2, List.map_map]
  rfl

theorem key_plain {l : Label} (plain : l.obeys plainRules = true) :
    dialect.text l.key = Dialect.json.text l.key := by
  simp only [Label.obeys, Bool.and_eq_true] at plain
  exact text_plain plain.1.1.1.2

theorem scalar_plain (word : Bare) (plain : word.obeys plainRules = true) :
    word.scalar dialect = word.scalar .json := by
  cases word with
  | null | bool => rfl
  | numeral n => exact if_pos plain

mutual

theorem value_plain (t : Spelling) (plain : t.obeys plainRules = true) :
    t.value dialect = t.value .json := by
  cases t with
  | bare word => exact congrArg Value.scalar (scalar_plain word plain)
  | quoted ps => exact congrArg Value.str (text_plain plain)
  | emptyList | emptyObject => rfl
  | list items => exact congrArg Value.list (values_plain items plain)
  | object members =>
    exact congrArg (fun es => Value.map (Entries.ofList es)) (entries_plain members plain)

theorem values_plain (items : Items) (plain : items.obeys plainRules = true) :
    items.values dialect = items.values .json := by
  cases items with
  | last before item after =>
    simp only [Items.obeys, Bool.and_eq_true] at plain
    rw [Items.values, Items.values, value_plain item plain.1.2]
  | more before item after rest =>
    simp only [Items.obeys, Bool.and_eq_true] at plain
    rw [Items.values, Items.values, value_plain item plain.1.1.2, values_plain rest plain.2]

theorem entries_plain (members : Members) (plain : members.obeys plainRules = true) :
    members.entries dialect = members.entries .json := by
  cases members with
  | last label value after =>
    simp only [Members.obeys, Bool.and_eq_true] at plain
    rw [Members.entries, Members.entries, key_plain plain.1.1, value_plain value plain.1.2]
  | more label value after rest =>
    simp only [Members.obeys, Bool.and_eq_true] at plain
    rw [Members.entries, Members.entries, key_plain plain.1.1.1, value_plain value plain.1.1.2,
      entries_plain rest plain.2]

end

end ApiModel.Yaml
