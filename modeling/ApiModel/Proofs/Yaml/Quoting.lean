import ApiModel.Proofs.Yaml.Cursor
import ApiModel.Proofs.Yaml.Rereading
import ApiModel.Yaml.QuotedScalar

namespace ApiModel.Yaml

open Text

variable {double : Bool} {c d e : Cursor} {cs bs r : List Char} {ls text : List Letter} {x : Char}
  {fuel indent : Nat}

def IsSolid (r : List Char) : Prop := ∀ x, r.head? = some x → isBlank x = false ∧ isBreak x = false

structure Quotes (double : Bool) (c : Cursor) (text : List Letter) (d : Cursor) : Prop where
  reaches : c.Reaches d
  read : ∀ fuel, c.rest.length ≤ fuel → quotedScalar double fuel c = .ok (text, d)

structure QuotePiece (double : Bool) (c : Cursor) (ls : List Letter) (d : Cursor) : Prop where
  reaches : c.Reaches d
  shorter : d.rest.length < c.rest.length
  read : ∀ fuel, c.rest.length ≤ fuel + 1 → quotedScalar double (fuel + 1) c =
    (quotedScalar double fuel d).map fun (more, e) => (ls ++ more, e)

theorem Quotes.cons (piece : QuotePiece double c ls d) (more : Quotes double d text e) :
    Quotes double c (ls ++ text) e where
  reaches := piece.reaches.trans more.reaches
  read fuel room := by
    have shorter := piece.shorter
    obtain ⟨n, rfl⟩ : ∃ n, fuel = n + 1 := ⟨fuel - 1, by omega⟩
    rw [piece.read n room, more.read n (by omega)]
    rfl

theorem Quotes.letter {l : Letter} (piece : QuotePiece double c [l] d) (more : Quotes double d text e) :
    Quotes double c (l :: text) e := .cons piece more

theorem Quotes.skip (piece : QuotePiece double c [] d) (more : Quotes double d text e) :
    Quotes double c text e := .cons piece more

theorem length_next_lt (at_ : c.rest = x :: r) : c.next.rest.length < c.rest.length := by
  rw [Cursor.next_rest at_, at_]
  exact Nat.lt_succ_self _

theorem Cursor.Reaches.shorter (at_ : c.rest = x :: r) (behind : c.next.Reaches d) :
    c.Reaches d ∧ d.rest.length < c.rest.length :=
  ⟨(Cursor.passes_next at_).reaches.trans behind,
    Nat.lt_of_le_of_lt behind.length_le (length_next_lt at_)⟩

def isMark (double : Bool) (x : Char) : Bool := if double then x = '"' || x = '\\' else x = '\''

theorem quotes_close (at_ : c.rest = '"' :: r) : Quotes true c [] c.next where
  reaches := (Cursor.passes_next at_).reaches
  read fuel room := by
    rw [at_, List.length_cons] at room
    obtain ⟨n, rfl⟩ : ∃ n, fuel = n + 1 := ⟨fuel - 1, by omega⟩
    rw [quotedScalar, Cursor.peek_eq at_]
    rfl

theorem quotes_closeSingle (at_ : c.rest = '\'' :: r) (last : r.head? ≠ some '\'') :
    Quotes false c [] c.next where
  reaches := (Cursor.passes_next at_).reaches
  read fuel room := by
    rw [at_, List.length_cons] at room
    obtain ⟨n, rfl⟩ : ∃ n, fuel = n + 1 := ⟨fuel - 1, by omega⟩
    have alone : isNext c.peekSecond '\'' = false := by
      rw [Cursor.peekSecond, at_]
      exact decide_eq_false last
    rw [quotedScalar, Cursor.peek_eq at_]
    simp only [alone]
    rfl

theorem piece_char (at_ : c.rest = x :: r) (solid : isBlank x = false ∧ isBreak x = false)
    (mark : isMark double x = false) : QuotePiece double c [.char x] c.next where
  reaches := (Cursor.passes_next at_).reaches
  shorter := length_next_lt at_
  read fuel _ := by
    rw [quotedScalar, Cursor.peek_eq at_]
    cases double with
    | true =>
      simp only [isMark, if_true, Bool.or_eq_false_iff, decide_eq_false_iff_not] at mark
      simp only [solid.1, solid.2, Bool.or_self, Bool.false_eq_true, if_false, if_true, mark.1, mark.2]
    | false =>
      simp only [isMark, Bool.false_eq_true, if_false, decide_eq_false_iff_not] at mark
      simp only [solid.1, solid.2, Bool.or_self, Bool.false_eq_true, if_false, mark]

theorem piece_doubled (at_ : c.rest = '\'' :: '\'' :: r) :
    QuotePiece false c [.char '\''] (c.forward 2) ∧ (c.forward 2).rest = r := by
  have both : c.rest = ['\'', '\''] ++ r := at_
  have passes : c.Passes ['\'', '\''] (c.forward 2) := Cursor.passes_forward both
  have rest : (c.forward 2).rest = r := Cursor.forward_rest both
  refine ⟨⟨passes.reaches, ?_, fun fuel _ => ?_⟩, rest⟩
  · rw [rest, at_, List.length_cons, List.length_cons]
    omega
  · have twice : isNext c.peekSecond '\'' = true := by
      rw [Cursor.peekSecond, at_]
      rfl
    rw [quotedScalar, Cursor.peek_eq at_]
    simp only [twice]
    rfl

theorem piece_gap (at_ : c.rest = x :: r) (gap : (isBlank x || isBreak x) = true)
    (behind : c.next.Reaches d)
    (read : ∀ fuel, c.rest.length ≤ fuel + 1 → quotedGap fuel c = .ok (cs, d)) :
    QuotePiece double c (cs.map .char) d where
  reaches := (behind.shorter at_).1
  shorter := (behind.shorter at_).2
  read fuel room := by
    rw [quotedScalar, Cursor.peek_eq at_]
    simp only [gap, if_true, read fuel room]
    rfl

theorem piece_escape (at_ : c.rest = '\\' :: r) (behind : c.next.Reaches d)
    (read : ∀ fuel, c.rest.length ≤ fuel + 1 → quotedEscape fuel c.next = .ok (ls, d)) :
    QuotePiece true c ls d where
  reaches := (behind.shorter at_).1
  shorter := (behind.shorter at_).2
  read fuel room := by
    rw [quotedScalar, Cursor.peek_eq at_]
    have other : (isBlank '\\' || isBreak '\\') = false := rfl
    have noQuote : '\\' ≠ '"' := by decide
    simp only [other, noQuote, Bool.false_eq_true, if_false, if_true, read fuel room]
    rfl

def lineEnd (x : Char) : Char := if x = '\x85' then '\n' else x

theorem lineBreak?_of_solid (solid : IsSolid c.rest) : c.lineBreak? = none :=
  Cursor.lineBreak?_eq_none fun x next => (solid x next).2

theorem skipBlanks_solid (at_ : c.rest = List.replicate indent ' ' ++ r) (solid : IsSolid r) :
    (c.skipWhile isBlank).rest = r ∧ c.Reaches (c.skipWhile isBlank) := by
  refine ⟨?_, (Cursor.passes_skipWhile isBlank c).reaches⟩
  have blanks : ∀ y ∈ List.replicate indent ' ', isBlank y = true := fun y mem => by
    rw [List.eq_of_mem_replicate mem]
    rfl
  rw [Cursor.skipWhile_rest, at_, List.dropWhile_append_of_pos blanks]
  cases r with
  | nil => rfl
  | cons x r => rw [List.dropWhile_cons_of_neg (by rw [(solid x rfl).1]; decide)]

theorem not_atMarker_of_head (at_ : c.rest = x :: r) (other : x ≠ '-' ∧ x ≠ '.') :
    c.atMarker = false := by
  rw [← Bool.not_eq_true, Cursor.atMarker_iff]
  simp [at_, other]

theorem ne_marker_of_isBreak (breaks : isBreak x = true) : x ≠ '-' ∧ x ≠ '.' := by
  constructor <;> rintro rfl <;> contradiction

theorem isBlank_of_isBreak (breaks : isBreak x = true) : isBlank x = false := by
  simp only [isBreak, Bool.or_eq_true, decide_eq_true_eq] at breaks
  rcases breaks with ((rfl | rfl) | rfl) | rfl <;> rfl

theorem quotedBreaks_lines (breaks : ∀ b ∈ bs, isBreak b = true) (solid : IsSolid r)
    (at_ : c.rest = bs ++ (List.replicate (indent + 1) ' ' ++ r)) :
    ∃ d, c.Reaches d ∧ d.rest = r ∧
      ∀ fuel, c.rest.length ≤ fuel → quotedBreaks fuel c = .ok (bs.map lineEnd, d) := by
  induction bs generalizing c with
  | nil =>
    obtain ⟨rest, reaches⟩ := skipBlanks_solid at_ solid
    rw [List.nil_append, List.replicate_succ, List.cons_append] at at_
    refine ⟨_, reaches, rest, fun fuel room => ?_⟩
    rw [at_, List.length_cons] at room
    obtain ⟨n, rfl⟩ : ∃ n, fuel = n + 1 := ⟨fuel - 1, by omega⟩
    rw [quotedBreaks, not_atMarker_of_head at_ (by decide), if_neg Bool.false_ne_true]
    dsimp only
    rw [lineBreak?_of_solid (rest.symm ▸ solid)]
    rfl
  | cons b bs ih =>
    rw [List.forall_mem_cons] at breaks
    obtain ⟨d, reaches, rest, read⟩ := ih breaks.2 (Cursor.next_rest at_)
    refine ⟨d, (Cursor.passes_next at_).reaches.trans reaches, rest, fun fuel room => ?_⟩
    have shorter := length_next_lt at_
    obtain ⟨n, rfl⟩ : ∃ n, fuel = n + 1 := ⟨fuel - 1, by omega⟩
    rw [quotedBreaks, not_atMarker_of_head at_ (ne_marker_of_isBreak breaks.1),
      if_neg Bool.false_ne_true, Cursor.skipWhile_of_neg at_ (isBlank_of_isBreak breaks.1)]
    dsimp only
    rw [Cursor.lineBreak?_eq_some (Cursor.peek_eq at_) breaks.1]
    dsimp only
    rw [read n (by omega)]
    rfl

theorem piece_lines {b : Char} (breaks : ∀ y ∈ b :: bs, isBreak y = true) (solid : IsSolid r)
    (at_ : c.rest = b :: (bs ++ (List.replicate (indent + 1) ' ' ++ r))) :
    ∃ d, QuotePiece double c ((foldBreaks (lineEnd b) (bs.map lineEnd)).map .char) d ∧ d.rest = r := by
  rw [List.forall_mem_cons] at breaks
  obtain ⟨d, reaches, rest, read⟩ := quotedBreaks_lines breaks.2 solid (Cursor.next_rest at_)
  refine ⟨d, piece_gap at_ (by rw [breaks.1, Bool.or_true]) reaches fun fuel room => ?_, rest⟩
  have shorter := length_next_lt at_
  have noBlanks : c.rest.takeWhile isBlank = [] := by
    rw [at_, List.takeWhile_cons_of_neg (by rw [isBlank_of_isBreak breaks.1]; decide)]
  rw [quotedGap, noBlanks]
  dsimp only
  rw [List.length_nil, Cursor.forward, Cursor.lineBreak?_eq_some (Cursor.peek_eq at_) breaks.1]
  dsimp only
  rw [read fuel (by omega)]
  rfl

theorem piece_fold (solid : IsSolid r) (at_ : c.rest = '\\' :: (newLine (indent + 1) ++ r)) :
    ∃ d, QuotePiece true c [] d ∧ d.rest = r := by
  have feed : c.next.rest = '\n' :: ([] ++ (List.replicate (indent + 1) ' ' ++ r)) :=
    Cursor.next_rest at_
  have alone : ∀ b ∈ ([] : List Char), isBreak b = true := List.forall_mem_nil _
  obtain ⟨d, reaches, rest, read⟩ := quotedBreaks_lines alone solid (Cursor.next_rest feed)
  refine ⟨d, piece_escape at_ ((Cursor.passes_next feed).reaches.trans reaches) fun fuel room => ?_,
    rest⟩
  have shorter := length_next_lt at_
  have shorter' := length_next_lt feed
  have unnamed : namedEscape? '\n' = none := rfl
  have noCode : codeLength? '\n' = none := rfl
  rw [quotedEscape, Cursor.peek_eq feed]
  simp only [unnamed, noCode, Cursor.lineBreak?_eq_some (Cursor.peek_eq feed) rfl]
  rw [read fuel (by omega)]
  rfl

theorem quotedScalar_blanks (at_ : c.rest = x :: r) (blank : isBlank x = true)
    (flat : IsSolid (r.dropWhile isBlank)) (fuel : Nat) :
    quotedScalar double (fuel + 1) c = (quotedScalar double fuel (c.skipWhile isBlank)).map
      fun (more, e) => ((c.rest.takeWhile isBlank).map .char ++ more, e) := by
  have rest : (c.skipWhile isBlank).rest = r.dropWhile isBlank := by
    rw [Cursor.skipWhile_rest, at_, List.dropWhile_cons_of_pos blank]
  have gap : quotedGap fuel c = .ok (c.rest.takeWhile isBlank, c.skipWhile isBlank) := by
    rw [quotedGap]
    dsimp only
    rw [← Cursor.skipWhile, lineBreak?_of_solid (rest ▸ flat)]
  rw [quotedScalar, Cursor.peek_eq at_]
  simp only [blank, Bool.true_or, if_true, gap]
  rfl

theorem quotes_blank (at_ : c.rest = x :: r) (blank : isBlank x = true)
    (flat : IsSolid (r.dropWhile isBlank)) (more : Quotes double c.next text d) :
    Quotes double c (.char x :: text) d where
  reaches := (Cursor.passes_next at_).reaches.trans more.reaches
  read fuel room := by
    have rest := Cursor.next_rest at_
    have shorter := length_next_lt at_
    obtain ⟨n, rfl⟩ : ∃ n, fuel = n + 1 := ⟨fuel - 1, by omega⟩
    rw [quotedScalar_blanks at_ blank flat, at_, List.takeWhile_cons_of_pos blank,
      Cursor.skipWhile_of_pos at_ blank]
    cases ahead : r with
    | nil =>
      have stays : c.next.skipWhile isBlank = c.next := by
        rw [Cursor.skipWhile, rest, ahead]
        rfl
      rw [stays, more.read n (by omega)]
      rfl
    | cons y r' =>
      rw [ahead] at rest flat
      by_cases blank' : isBlank y = true
      · rw [List.dropWhile_cons_of_pos blank'] at flat
        have read := more.read (n + 1) (by omega)
        rw [quotedScalar_blanks rest blank' flat, rest] at read
        cases inner : quotedScalar double n (c.next.skipWhile isBlank) with
        | error e =>
          rw [inner] at read
          contradiction
        | ok result =>
          rw [inner] at read
          cases read
          rfl
      · rw [Bool.not_eq_true] at blank'
        rw [Cursor.skipWhile_of_neg rest blank', more.read n (by omega),
          List.takeWhile_cons_of_neg (by rw [blank']; decide)]
        rfl

end ApiModel.Yaml
