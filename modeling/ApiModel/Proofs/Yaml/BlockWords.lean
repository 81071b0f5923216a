import ApiModel.Proofs.Yaml.BlockKeys

namespace ApiModel.Yaml

open Scan

variable {size fuel : Nat} {s t u : Scan} {c : Cursor} {x : Char} {r w : List Char}
  {blocks outer : List Int} {indent : Int} {column : Nat} {name : String}

theorem isSkipped_of_solid (solid : IsSolid (x :: r)) : isSkipped x = false := by
  obtain ⟨noBlank, noBreak⟩ := solid x rfl
  rw [isSkipped, Bool.or_eq_false_iff, decide_eq_false_iff_not, decide_eq_false_iff_not]
  constructor <;> rintro rfl <;> contradiction

theorem StartsLine.startsWord (starts : StartsLine r) : StartsWord r := by
  intro x head
  have noBreak := (starts.solid x head).2
  rcases starts x head with lower | ⟨rfl, -⟩
  · exact ⟨ne_of_isLower lower rfl, noBreak, ne_of_isLower lower rfl⟩
  · decide

theorem takeWhile_solid (solid : IsSolid r) : r.takeWhile isSkipped = [] := by
  cases r with
  | nil => rfl
  | cons x r => exact List.takeWhile_cons_of_neg (by rw [isSkipped_of_solid solid]; decide)

namespace Scan

theorem faces_gap (gap : List Char) (at_ : s.cursor.rest = gap ++ r)
    (skipped : ∀ y ∈ gap, isSkipped y = true) (solid : IsSolid r) (starts : StartsWord r) :
    s.Faces (s.cursor.forward gap.length).column r := by
  have taken : s.cursor.rest.takeWhile isSkipped = gap := by
    rw [at_, List.takeWhile_append_of_pos skipped, takeWhile_solid solid, List.append_nil]
  refine ⟨?_, by rw [Cursor.skipWhile, taken], starts⟩
  have behind := Cursor.skipWhile_rest isSkipped s.cursor
  rw [Cursor.skipWhile, taken, Cursor.forward_rest at_] at behind
  exact behind.symm

theorem faces_here (at_ : s.cursor.rest = r) (starts : StartsLine r) :
    s.Faces s.cursor.column r :=
  faces_gap [] at_ (List.forall_mem_nil _) starts.solid starts.startsWord

theorem faces_behindSpace (at_ : s.cursor.rest = ' ' :: r) (solid : IsSolid r)
    (starts : StartsWord r) : s.Faces (s.cursor.column + 1) r := by
  have faces := faces_gap [' '] at_ (List.forall_mem_singleton.2 rfl) solid starts
  have column_ : (s.cursor.forward 1).column = s.cursor.column + 1 :=
    Cursor.next_column at_ (by decide)
  rwa [List.length_singleton, column_] at faces

theorem faces_newLine {j : Nat} (at_ : s.cursor.rest = newLine j ++ r) (starts : StartsLine r) :
    s.Faces j r ∧ s.Allows := by
  have skipped : ∀ y ∈ newLine j, isSkipped y = true := by
    intro y mem
    rcases List.mem_cons.1 mem with rfl | mem
    · rfl
    · rw [List.eq_of_mem_replicate mem]
      rfl
  have faces := faces_gap (newLine j) at_ skipped starts.solid starts.startsWord
  have column_ : (s.cursor.forward (newLine j).length).column = j := by
    rw [newLine, List.length_cons, List.length_replicate]
    exact (behind_newLine at_).2.2
  rw [column_] at faces
  refine ⟨faces, .inr ?_⟩
  rw [at_, List.takeWhile_append_of_pos skipped]
  exact List.mem_append_left _ (List.mem_cons_self ..)

theorem saveKey_right (within : s.Within size (indent :: outer))
    (right : indent < s.cursor.column) : ∃ keys, s.saveKey = .ok { s with keys } ∧
      ∀ k ∈ keys, k.2.required = false := by
  by_cases allowed : s.keyAllowed = true
  · refine ⟨_, saveKey_allowed within.loose allowed, ?_⟩
    have notRequired : s.keyPlace.required = false := by
      have other : ¬s.indent = s.cursor.column := by
        rw [within.indent_eq]
        omega
      simp [keyPlace, other]
    exact List.forall_mem_cons.2
      ⟨notRequired, fun k mem => within.loose k (List.mem_filter.1 mem).1⟩
  · exact ⟨s.keys, by rw [saveKey, if_neg allowed], within.loose⟩

theorem endsWord_sign {deep column : Nat} {cs : List Char} (leads : leadsBadly x cs.head? = false)
    (sign : x = '-' ∨ x = '?' ∨ x = ':') :
    endsWord (plainFrom deep (some x) column cs ++ r).head? = false := by
  rw [leadsBadly, Bool.or_eq_false_iff] at leads
  have indicator : ['?', ':', '-'].contains x = true := by
    rcases sign with rfl | rfl | rfl <;> rfl
  rw [indicator, Bool.true_and] at leads
  cases cs with
  | nil => exact absurd leads.2 (by decide)
  | cons y cs =>
    have noGap := leads.2
    simp only [List.head?_cons, Option.all_some, isGap, Bool.or_eq_false_iff] at noGap
    have other : y ≠ ' ' := by
      rintro rfl
      exact absurd noGap.1.1.1 (by decide)
    rw [plainFrom_cons _ _ other, List.cons_append, List.head?_cons, endsWord, Option.all_some,
      noGap.1.1.1, noGap.1.1.2]
    rfl

theorem tells_plain {j k : Nat} (deep column : Nat) {cs : List Char}
    (within : s.Within size ((k : Int) :: outer))
    (at_ : s.cursor.rest = ' ' :: (plainFrom deep none column (x :: cs) ++ (newLine j ++ r)))
    (run : isPlainRun (x :: cs) = true) (first : x ≠ ' ') (leads : leadsBadly x cs.head? = false)
    (starts : StartsLine r) (back : j ≤ k) (indented : k < deep) (right : k ≤ s.cursor.column) :
    ∃ u, s.Tells size ((k : Int) :: outer) [.scalar (String.ofList (x :: cs)) true] u ∧
      u.Faces j r ∧ u.Allows := by
  obtain ⟨⟨noBreak, noTab, noMark⟩, -⟩ := (isPlainRun_cons _ _).1 run
  have solid : isBlank x = false ∧ isBreak x = false := ⟨by simp [isBlank, first, noTab], noBreak⟩
  have noComment : x ≠ '#' := by
    rintro rfl
    contradiction
  have written : plainFrom deep none column (x :: cs) =
      x :: plainFrom deep (some x) (column + 1) cs := plainFrom_cons _ _ first
  have faces : s.Faces (s.cursor.column + 1)
      (plainFrom deep none column (x :: cs) ++ (newLine j ++ r)) :=
    faces_behindSpace at_ (by rw [written]; exact isSolid_cons solid)
      (by rw [written]; exact startsWord_cons ⟨noComment, noBreak, noMark⟩)
  have rest := settled_rest faces
  have settled := within.settled
  have column_ : s.settled.cursor.column = s.cursor.column + 1 := faces.column
  have least : (s.settled.indent + 1).toNat = k + 1 := by
    rw [settled.indent_eq]
    omega
  have read : ReadsPlain _ (plainScalar false (k + 1) size s.settled.cursor) (x :: cs) j r :=
    plainScalar_text none column run first starts rest (by omega) (by omega) (by omega) settled.room
  obtain ⟨keys, saved, loose⟩ := saveKey_right settled (by omega)
  rw [written, List.cons_append] at rest faces
  let p := plainScalar false (k + 1) size s.settled.cursor
  let u : Scan := { ({ s.settled with keys } : Scan).push (.scalar (String.ofList p.text) true) with
    cursor := p.after, keyAllowed := p.breaksLine }
  have word : s.settled.scanWord size x = .ok u := by
    rw [scanWord_plainStart rest settled.flow (fun front => by omega) solid leads
        (endsWord_sign leads),
      scanPlain_eq saved settled.flow, least]
  have here : u.cursor.rest = r := read.rest
  have shorter : u.cursor.rest.length ≤
      (plainFrom deep (some x) (column + 1) cs ++ (newLine j ++ r)).length := by
    rw [here, List.length_append, List.length_append]
    omega
  have room := settled.room
  rw [rest, List.length_cons] at room
  have leads_ : Leads size s u := within.leads faces (by omega) word settled.going shorter
  have words : u.words = .scalar (String.ofList (x :: cs)) true :: s.words := by
    rw [← read.text]
    rfl
  have facing := faces_here here starts
  rw [show u.cursor.column = j from read.column] at facing
  exact ⟨u, ⟨leads_, words, ⟨settled.blocks, settled.flow, loose, settled.going, by omega⟩⟩, facing,
    .inl read.breaksLine⟩

theorem scanWord_quoteMark (quote : x = '\'' ∨ x = '"') : s.scanWord size x =
    s.keyWord fun c => (quotedScalar (x = '"') size c.next).map fun (text, c) =>
      (.scalar (.ofList text) false, c) := by
  rcases quote with rfl | rfl <;> rfl

theorem tells_quoted {j k : Nat} {text : List Letter}
    (within : s.Within size ((k : Int) :: outer)) (quote : x = '\'' ∨ x = '"')
    (at_ : s.cursor.rest = ' ' :: x :: w)
    (quotes : ∀ c : Cursor, c.rest = w →
      ∃ d, Quotes (x = '"') c text d ∧ d.rest = newLine j ++ r)
    (starts : StartsLine r) (right : k ≤ s.cursor.column) :
    ∃ u, s.Tells size ((k : Int) :: outer) [.scalar (.ofList text) false] u ∧
      u.Faces j r ∧ u.Allows := by
  have solid : isBlank x = false ∧ isBreak x = false := by rcases quote with rfl | rfl <;> decide
  have begins : x ≠ '#' ∧ isBreak x = false ∧ x ≠ '\ufeff' := by
    rcases quote with rfl | rfl <;> decide
  have faces : s.Faces (s.cursor.column + 1) (x :: w) :=
    faces_behindSpace at_ (isSolid_cons solid) (startsWord_cons begins)
  have rest := settled_rest faces
  have settled := within.settled
  have column_ : s.settled.cursor.column = s.cursor.column + 1 := faces.column
  obtain ⟨keys, saved, loose⟩ := saveKey_right settled (by omega)
  obtain ⟨d, read, behind⟩ := quotes _ (Cursor.next_rest rest)
  have room := settled.room
  have length := read.reaches.length_le
  rw [rest, List.length_cons] at room
  rw [Cursor.next_rest rest] at length
  let u : Scan := { ({ s.settled with keys } : Scan).push (.scalar (.ofList text) false) with
    cursor := d, keyAllowed := false }
  have word : s.settled.scanWord size x = .ok u := by
    have roomInside : s.settled.cursor.next.rest.length ≤ size := by
      rw [Cursor.next_rest rest]
      omega
    rw [scanWord_quoteMark quote, keyWord, saved]
    change ((quotedScalar (x = '"') size s.settled.cursor.next).map _).bind _ = _
    rw [read.read size roomInside]
    rfl
  have leads : Leads size s u := within.leads faces (by omega) word settled.going length
  obtain ⟨facing, allows⟩ := faces_newLine (s := u) behind starts
  have fits : u.cursor.rest.length < size := by
    change d.rest.length < size
    omega
  exact ⟨u, ⟨leads, rfl, ⟨settled.blocks, settled.flow, loose, settled.going, fits⟩⟩, facing, allows⟩

theorem tells_doubleQuoted {j k deep column : Nat} {text : Str}
    (within : s.Within size ((k : Int) :: outer))
    (at_ : s.cursor.rest = ' ' :: (doubleQuoted deep column text ++ (newLine j ++ r)))
    (starts : StartsLine r) (indented : 0 < deep) (far : deep ≤ column) (right : k ≤ s.cursor.column) :
    ∃ u, s.Tells size ((k : Int) :: outer) [.scalar (.ofList (rereadDouble deep text.toList)) false] u ∧
      u.Faces j r ∧ u.Allows := by
  refine tells_quoted within (.inr rfl) at_ (fun c here => ?_) starts right
  exact quotes_doubleFrom indented (by omega) here

theorem tells_text {j k deep column : Nat} {text : Str}
    (within : s.Within size ((k : Int) :: outer))
    (at_ : s.cursor.rest = ' ' :: (writeText deep column text ++ (newLine j ++ r)))
    (starts : StartsLine r) (back : j ≤ k) (indented : k < deep) (far : deep ≤ column)
    (right : k ≤ s.cursor.column) :
    ∃ u, s.Tells size ((k : Int) :: outer) [.scalar (reread deep text) (isPlain text)] u ∧
      u.Faces j r ∧ u.Allows := by
  rw [writeText] at at_
  rw [reread, isPlain]
  cases chars : text.chars? with
  | none =>
    rw [chars] at at_
    exact tells_doubleQuoted within at_ starts (by omega) far right
  | some cs =>
    simp only [chars] at at_
    simp only [Option.any_some]
    cases plain : isPlainText cs with
    | true =>
      rw [Str.chars?_eq_some_iff.1 chars]
      obtain ⟨run, -, x, cs, rfl, first, leads⟩ := isPlainRun_of_isPlainText plain
      rw [plain] at at_
      exact tells_plain _ _ within at_ run first leads starts back indented right
    | false =>
      simp only [plain, Bool.false_eq_true, if_false] at at_ ⊢
      split at at_
      · rename_i quotable
        rw [if_pos quotable]
        have reads := tells_quoted within (.inl rfl) at_ (fun c here =>
          singleReads (by omega) (by simp [newLine]) quotable none _ c (by simp) here) starts right
        simpa only [Str.ofString, String.toList_ofList] using reads
      · rename_i special
        rw [if_neg special]
        exact tells_doubleQuoted within at_ starts (by omega) far right

theorem tells_bare {j k : Nat} (word : w = "null".toList ∨ w = "true".toList ∨ w = "false".toList)
    (within : s.Within size ((k : Int) :: outer)) (at_ : s.cursor.rest = ' ' :: (w ++ (newLine j ++ r)))
    (starts : StartsLine r) (back : j ≤ k) (right : k ≤ s.cursor.column) :
    ∃ u, s.Tells size ((k : Int) :: outer) [.scalar (String.ofList w) true] u ∧
      u.Faces j r ∧ u.Allows := by
  rcases word with rfl | rfl | rfl
  all_goals
    exact tells_plain (k + 1) 0 within at_ rfl (by decide) (by decide) starts back
      (Nat.lt_succ_self k) right

theorem step_closing {last : Token} (bracket : x = ']' ∧ last = .flowSequenceEnd ∨
      x = '\x7d' ∧ last = .flowMappingEnd)
    (at_ : s.cursor.rest = x :: r) (inside : 0 < s.flow)
    (loose : ∀ k ∈ s.keys, k.2.required = false) (room : s.cursor.rest.length < size) :
    ∃ u, s.step size = .ok u ∧ u.cursor.rest = r ∧ u.flow = s.flow - 1 ∧
      u.indent :: u.outer = s.indent :: s.outer ∧ u.done = s.done ∧ u.words = last :: s.words ∧
      ∀ k ∈ u.keys, k.2.required = false := by
  have begins : isSkipped x = false ∧ (x ≠ '#' ∧ isBreak x = false ∧ x ≠ '\ufeff') := by
    rcases bracket with ⟨rfl, -⟩ | ⟨rfl, -⟩ <;> decide
  obtain ⟨noGap, starts⟩ := begins
  have ahead_ : s.ahead = x :: r := by
    rw [ahead, at_, List.dropWhile_cons_of_neg (by rw [noGap]; decide)]
  have stays : s.settled.cursor = s.cursor := Cursor.skipWhile_of_neg at_ noGap
  have rest : s.settled.cursor.rest = x :: r := stays.symm ▸ at_
  have loose' : ∀ k ∈ s.settled.keys, k.2.required = false :=
    fun k mem => loose k (List.mem_filter.1 mem).1
  have same : s.settled.unwind s.settled.cursor.column = s.settled := by
    rw [unwind]
    exact if_pos inside
  have scan : s.settled.scanWord size x = s.settled.closeFlow last := by
    rcases bracket with ⟨rfl, rfl⟩ | ⟨rfl, rfl⟩ <;> rfl
  have open_ : ¬s.settled.flow = 0 := Nat.ne_of_gt inside
  rw [step_eq (ahead_ ▸ startsWord_cons starts) room (fine_of_loose loose)]
  simp only [same]
  rw [Cursor.peek_eq rest]
  dsimp only
  rw [scan, closeFlow, dropKey_loose loose']
  refine ⟨_, (if_neg open_).trans rfl, Cursor.next_rest rest, rfl, rfl, rfl, rfl, fun k mem => ?_⟩
  exact loose' k (List.mem_filter.1 mem).1

theorem tells_brackets {j k : Nat} {a b : Char} {first last : Token}
    (brackets : a = '[' ∧ b = ']' ∧ first = .flowSequenceStart ∧ last = .flowSequenceEnd ∨
      a = '\x7b' ∧ b = '\x7d' ∧ first = .flowMappingStart ∧ last = .flowMappingEnd)
    (within : s.Within size ((k : Int) :: outer))
    (at_ : s.cursor.rest = ' ' :: a :: b :: (newLine j ++ r)) (starts : StartsLine r)
    (right : k ≤ s.cursor.column) :
    ∃ u, s.Tells size ((k : Int) :: outer) [first, last] u ∧ u.Faces j r ∧ u.Allows := by
  have begins : (isBlank a = false ∧ isBreak a = false) ∧
      (a ≠ '#' ∧ isBreak a = false ∧ a ≠ '\ufeff') := by
    rcases brackets with ⟨rfl, -⟩ | ⟨rfl, -⟩ <;> decide
  have faces : s.Faces (s.cursor.column + 1) (a :: b :: (newLine j ++ r)) :=
    faces_behindSpace at_ (isSolid_cons begins.1) (startsWord_cons begins.2)
  have rest := settled_rest faces
  have settled := within.settled
  have column_ : s.settled.cursor.column = s.cursor.column + 1 := faces.column
  have room := settled.room
  rw [rest, List.length_cons] at room
  obtain ⟨keys, saved, loose⟩ := saveKey_right settled (by omega)
  let t : Scan := { ({ s.settled with keys } : Scan).take 1 first with
    flow := s.settled.flow + 1, keyAllowed := true }
  have opened : s.settled.scanWord size a = .ok t := by
    have scan : s.settled.scanWord size a = s.settled.openFlow first := by
      rcases brackets with ⟨rfl, -, rfl, -⟩ | ⟨rfl, -, rfl, -⟩ <;> rfl
    rw [scan, openFlow, saved]
    rfl
  have here : t.cursor.rest = b :: (newLine j ++ r) := Cursor.next_rest rest
  have leads : Leads size s t :=
    within.leads faces (by omega) opened settled.going (Nat.le_of_eq (congrArg List.length here))
  have bracket : b = ']' ∧ last = .flowSequenceEnd ∨ b = '\x7d' ∧ last = .flowMappingEnd :=
    brackets.imp (fun h => ⟨h.2.1, h.2.2.2⟩) fun h => ⟨h.2.1, h.2.2.2⟩
  have fits : t.cursor.rest.length < size := by
    rw [here]
    exact Nat.lt_of_succ_lt room
  obtain ⟨u, closed_, behind, flow, blocks, going, words, loose'⟩ :=
    step_closing bracket here (Nat.succ_pos _) loose fits
  have going' : u.done = false := going.trans settled.going
  have shorter : u.cursor.rest.length < t.cursor.rest.length := by
    rw [behind, here, List.length_cons]
    exact Nat.lt_succ_self _
  obtain ⟨facing, allows⟩ := faces_newLine behind starts
  have within' : u.Within size ((k : Int) :: outer) :=
    ⟨blocks.trans settled.blocks, flow.trans settled.flow, loose', going',
      by rw [behind]; rw [List.length_cons] at room; omega⟩
  exact ⟨u, ⟨leads.trans (.of_step closed_ going' shorter), words, within'⟩, facing, allows⟩

theorem run_closing (within : s.Within size [0, -1]) (faces : s.Faces 0 [])
    (room : s.cursor.rest.length < fuel) :
    run size fuel s = ⟨(Token.blockEnd :: s.words).reverse, none⟩ := by
  obtain ⟨n, rfl⟩ : ∃ n, fuel = n + 1 := ⟨fuel - 1, by omega⟩
  have settled := within.settled
  have starts : StartsWord s.ahead := faces.rest ▸ faces.starts
  have column_ : s.settled.cursor.column = 0 := faces.column
  have same : s.settled.unwind s.settled.cursor.column = s.settled := by
    refine unwind_of_le ?_
    rw [column_, settled.indent_eq]
    exact Int.le_refl 0
  have nothing : s.settled.cursor.peek = none := by
    rw [Cursor.peek, settled_rest faces, List.head?_nil]
  have last : s.settled.unwind (-1) = s.settled.closed := by
    have noFlow : ¬0 < s.settled.flow := by
      rw [settled.flow]
      exact Nat.lt_irrefl 0
    rw [closed_eq settled.outer_eq, unwind, if_neg noFlow, settled.indent_eq, settled.outer_eq]
    rfl
  have taken : ∃ u : Scan, s.step size = .ok u ∧ u.done = true ∧ u.words = .blockEnd :: s.words := by
    rw [step_eq starts within.room within.fine]
    simp only [same, nothing]
    rw [scanEnd, last, dropKey_loose settled.closed.loose]
    exact ⟨_, rfl, rfl, by rw [closed_eq settled.outer_eq]; rfl⟩
  obtain ⟨u, step_, done, words⟩ := taken
  rw [run, step_]
  simp only [done, words, if_true]

end Scan

end ApiModel.Yaml
