import ApiModel.Proofs.Yaml.BlockSteps
import ApiModel.Proofs.Yaml.SingleQuoted

namespace ApiModel.Yaml

open Scan

variable {size fuel : Nat} {s t u : Scan} {c : Cursor} {x : Char} {r w : List Char}
  {blocks outer : List Int} {indent : Int} {column : Nat} {name : String}

def isName (name : String) : Bool :=
  name.toList.head?.any Char.isLower && name.toList.all (fun c => c.isLower || c = '_') &&
    name.length ≤ 1024 && Tag.ofSpelling name.toList = .str

theorem startsWord_cons (starts : x ≠ '#' ∧ isBreak x = false ∧ x ≠ '\ufeff') :
    StartsWord (x :: r) := by
  intro y head
  cases head
  exact starts

namespace Scan

theorem scanWord_hyphen (rest : s.cursor.rest = '-' :: ' ' :: r) :
    s.scanWord size '-' = s.scanBlockEntry := by
  have next : s.cursor.peekSecond = some ' ' := by rw [Cursor.peekSecond, rest]; rfl
  have noMarker : s.cursor.atMarker = false := by
    rw [← Bool.not_eq_true, Cursor.atMarker_iff, rest]
    simp
  rw [scanWord, next]
  simp only [noMarker, Bool.and_false]
  rfl

theorem tells_hyphen (within : s.Within size (indent :: outer))
    (faces : s.Faces column ('-' :: ' ' :: r)) (allows : s.Allows) (inside : indent ≤ column) :
    ∃ u, s.Tells size (entered column indent outer)
        (opening .blockSequenceStart column indent ++ [.blockEntry]) u ∧
      u.cursor.rest = ' ' :: r ∧ u.cursor.column = column + 1 ∧ u.keyAllowed = true := by
  have rest := settled_rest faces
  have allowed := allows.settled within.flow
  obtain ⟨t, block, within', words, cursor⟩ :=
    blockFor_eq .blockSequenceStart within.settled allowed faces.column inside
  have behind : t.cursor.next.rest = ' ' :: r := by rw [cursor]; exact Cursor.next_rest rest
  let dropped : Scan := { t with keys := t.keys.filter fun key => key.1 ≠ t.flow }
  let u : Scan := { dropped.take 1 .blockEntry with keyAllowed := true }
  have word : s.settled.scanWord size '-' = .ok u := by
    rw [scanWord_hyphen rest, scanBlockEntry, block]
    change t.dropKey.bind _ = _
    rw [dropKey_loose within'.loose]
    rfl
  have shorter : u.cursor.rest.length ≤ (' ' :: r).length := Nat.le_of_eq (congrArg List.length behind)
  have leads := within.leads faces inside word within'.going shorter
  have column_ : u.cursor.column = column + 1 := by
    change t.cursor.next.column = column + 1
    rw [cursor, Cursor.next_column rest (by decide)]
    exact congrArg (· + 1) faces.column
  refine ⟨u, ⟨leads, ?_, ⟨within'.blocks, within'.flow, ?_, within'.going, ?_⟩⟩, behind, column_, rfl⟩
  · rw [List.reverse_append]
    exact congrArg (Token.blockEntry :: ·) words
  · exact fun k mem => within'.loose k (List.mem_filter.1 mem).1
  · have room := within.settled.room
    rw [rest, List.length_cons] at room
    omega

end Scan

theorem ne_of_isLower {y : Char} (lower : x.isLower = true) (other : y.isLower = false) : x ≠ y := by
  rintro rfl
  rw [lower] at other
  contradiction

theorem isName_iff (name : String) : isName name = true ↔
    (∃ x r, name.toList = x :: r ∧ x.isLower = true) ∧
      (∀ y ∈ name.toList, y.isLower = true ∨ y = '_') ∧ name.toList.length ≤ 1024 ∧
        Tag.ofSpelling name.toList = .str := by
  have first : name.toList.head?.any Char.isLower = true ↔
      ∃ x r, name.toList = x :: r ∧ x.isLower = true := by
    cases name.toList <;> simp
  simp only [isName, Bool.and_eq_true, first, List.all_eq_true, Bool.or_eq_true, decide_eq_true_eq,
    and_assoc, String.length_toList]

theorem nameChar_plain (letter : x.isLower = true ∨ x = '_') :
    (isBlank x = false ∧ isBreak x = false ∧ x ≠ '\ufeff') ∧ x ≠ ':' := by
  rcases letter with lower | rfl
  · have other (y : Char) (notLower : y.isLower = false) : x ≠ y := ne_of_isLower lower notLower
    simp [isBlank, isBreak, other ' ' rfl, other '\t' rfl, other '\n' rfl, other '\x85' rfl,
      other '\u2028' rfl, other '\u2029' rfl, other '\ufeff' rfl, other ':' rfl]
  · decide

theorem plainLength_name {cs : List Char} (letters : ∀ y ∈ cs, y.isLower = true ∨ y = '_')
    (gap : endsWord r.head? = true) : plainLength false (cs ++ ':' :: r) = cs.length := by
  induction cs with
  | nil =>
    rw [List.nil_append, plainLength, endsPlain, gap]
    rfl
  | cons y cs ih =>
    obtain ⟨letter, letters⟩ := List.forall_mem_cons.1 letters
    obtain ⟨⟨noBlank, noBreak, -⟩, noColon⟩ := nameChar_plain letter
    rw [List.cons_append, plainLength, ih letters, endsPlain, noBlank, noBreak]
    simp [noColon]

theorem plainScalar_name {cs : List Char} (letters : ∀ y ∈ cs, y.isLower = true ∨ y = '_')
    (gap : endsWord r.head? = true) (at_ : c.rest = cs ++ ':' :: r) (least : Nat) :
    plainScalar false least (fuel + 1) c = ⟨cs, false, c.forward cs.length⟩ := by
  have word := plainLength_name letters gap
  rw [← at_] at word
  have rest := Cursor.forward_rest at_
  have noGap : plainGap fuel (c.forward cs.length) = ⟨[], false, c.forward cs.length⟩ := by
    have flat : (c.forward cs.length).lineBreak? = none := by
      apply Cursor.lineBreak?_eq_none
      intro y next
      rw [Cursor.peek_eq rest, Option.some.injEq] at next
      rw [← next]
      rfl
    rw [plainGap, rest, List.takeWhile_cons_of_neg (by decide), List.length_nil, Cursor.forward]
    simp only [flat]
  rw [plainScalar_succ word at_ noGap, if_pos (by simp)]

namespace Scan

theorem scanWord_plainStart {next : Option Char} (rest : s.cursor.rest = x :: r) (flow : s.flow = 0)
    (noMarker : s.cursor.column = 0 → s.cursor.atMarker = false)
    (solid : isBlank x = false ∧ isBreak x = false)
    (leads : leadsBadly x next = false)
    (word : x = '-' ∨ x = '?' ∨ x = ':' → endsWord r.head? = false) :
    s.scanWord size x = s.scanPlain size := by
  have second : s.cursor.peekSecond = r.head? := by rw [Cursor.peekSecond, rest]; rfl
  rw [leadsBadly, Bool.or_eq_false_iff, Bool.or_eq_false_iff] at leads
  obtain ⟨⟨leads, noTick⟩, -⟩ := leads
  have others : x ≠ '#' ∧ x ≠ ',' ∧ x ≠ '[' ∧ x ≠ ']' ∧ x ≠ '\x7b' ∧ x ≠ '\x7d' ∧ x ≠ '&' ∧ x ≠ '*' ∧
      x ≠ '!' ∧ x ≠ '|' ∧ x ≠ '>' ∧ x ≠ '\'' ∧ x ≠ '"' ∧ x ≠ '%' ∧ x ≠ '@' := by
    simpa using leads
  have ends (y : Char) (one : y = '-' ∨ y = '?' ∨ y = ':') :
      (decide (x = y) && endsWord r.head?) = false := by
    rw [Bool.and_eq_false_iff, decide_eq_false_iff_not]
    by_cases same : x = y
    · exact .inr (word (same ▸ one))
    · exact .inl same
  have unmarked (y : Char) :
      (decide (x = y) && decide (s.cursor.column = 0) && s.cursor.atMarker) = false := by
    by_cases front : s.cursor.column = 0
    · rw [noMarker front, Bool.and_false]
    · rw [decide_eq_false front, Bool.and_false, Bool.false_and]
  have starts : startsPlain s.flow x r.head? = true := by
    rw [startsPlain, flow]
    split
    · rename_i dash
      rw [word (.inl dash)]
      rfl
    · split
      · rename_i sign
        rw [Bool.or_eq_true, decide_eq_true_eq, decide_eq_true_eq] at sign
        rw [word (.inr sign)]
        rfl
      · simp [solid, others, of_decide_eq_false noTick]
  rw [scanWord, second]
  simp only [flow, unmarked, others, ends '-' (.inl rfl), ends '?' (.inr (.inl rfl)),
    ends ':' (.inr (.inr rfl)), Nat.lt_irrefl, decide_false, Bool.false_or, Bool.false_and,
    Bool.false_eq_true, if_false, Bool.or_self]
  rw [← flow, if_pos starts]

def keyPlace (s : Scan) : KeyPlace :=
  ⟨s.count, s.flow = 0 && s.indent = s.cursor.column, s.cursor.index, s.cursor.line, s.cursor.column⟩

theorem saveKey_allowed (loose : ∀ k ∈ s.keys, k.2.required = false) (allowed : s.keyAllowed = true) :
    s.saveKey = .ok { s with
      keys := (s.flow, s.keyPlace) :: s.keys.filter fun (flow, _) => flow ≠ s.flow } := by
  rw [saveKey, if_pos allowed, dropKey_loose loose]
  rfl

theorem scanPlain_eq {keys : List (Nat × KeyPlace)} (saved : s.saveKey = .ok { s with keys })
    (flow : s.flow = 0) : s.scanPlain size =
      let p := plainScalar false (s.indent + 1).toNat size s.cursor
      .ok { ({ s with keys } : Scan).push (.scalar (String.ofList p.text) true) with
        cursor := p.after, keyAllowed := p.breaksLine } := by
  have outside : decide (0 < s.flow) = false := by simp [flow]
  rw [scanPlain, saved]
  change Except.ok _ = Except.ok _
  simp only [outside]

def named (name : String) (s : Scan) : Scan :=
  { s with
    cursor := s.cursor.forward name.toList.length
    keyAllowed := false
    keys := (s.flow, s.keyPlace) :: s.keys.filter fun (flow, _) => flow ≠ s.flow
    words := .scalar name true :: s.words
    count := s.count + 1 }

theorem leads_named (within : s.Within size (indent :: outer))
    (faces : s.Faces column (name.toList ++ ':' :: r)) (allows : s.Allows)
    (inside : indent ≤ column) (isName_ : isName name = true) (gap : endsWord r.head? = true) :
    Leads size s (s.settled.named name) := by
  obtain ⟨⟨x, cs, chars, lower⟩, letters, -⟩ := (isName_iff name).1 isName_
  have rest := settled_rest faces
  have settled := within.settled
  obtain ⟨n, rfl⟩ : ∃ n, size = n + 1 := ⟨size - 1, by have := within.room; omega⟩
  have solid := (nameChar_plain (.inl lower)).1
  have other (y : Char) (notLower : y.isLower = false) : x ≠ y := ne_of_isLower lower notLower
  have leads : leadsBadly x (some 'a') = false := by
    simp [leadsBadly, other '#' rfl, other ',' rfl, other '[' rfl, other ']' rfl, other '\x7b' rfl,
      other '\x7d' rfl, other '&' rfl, other '*' rfl, other '!' rfl, other '|' rfl, other '>' rfl,
      other '\'' rfl, other '"' rfl, other '%' rfl, other '@' rfl, other (Char.ofNat 0x60) rfl,
      other '?' rfl, other ':' rfl, other '-' rfl]
  have noSign : x = '-' ∨ x = '?' ∨ x = ':' → endsWord (cs ++ ':' :: r).head? = false := by
    rintro (sign | sign | sign)
    · exact absurd sign (other _ rfl)
    · exact absurd sign (other _ rfl)
    · exact absurd sign (other _ rfl)
  rw [chars, List.cons_append] at faces
  have rest' := settled_rest faces
  have noMarker := not_atMarker_of_head rest' ⟨other _ rfl, other _ rfl⟩
  have word : s.settled.scanWord (n + 1) x = .ok (s.settled.named name) := by
    rw [scanWord_plainStart rest' settled.flow (fun _ => noMarker) ⟨solid.1, solid.2.1⟩ leads noSign,
      scanPlain_eq (saveKey_allowed settled.loose (allows.settled within.flow)) settled.flow,
      plainScalar_name letters gap rest]
    simp only [String.ofList_toList]
    rfl
  have behind : (s.settled.named name).cursor.rest = ':' :: r := Cursor.forward_rest rest
  refine within.leads faces inside word settled.going ?_
  rw [behind, List.length_append, List.length_cons]
  omega

theorem scanWord_colonGap (rest : s.cursor.rest = ':' :: r) (gap : endsWord r.head? = true) :
    s.scanWord size ':' = s.scanValue := by
  have next : s.cursor.peekSecond = r.head? := by rw [Cursor.peekSecond, rest]; rfl
  rw [scanWord, next]
  simp only [gap, Bool.or_true]
  rfl

theorem scanValue_last {k : KeyPlace} {last : Token} {before : List Token}
    (flow : s.flow = 0) (indent_ : s.indent = indent) (inside : indent ≤ k.column)
    (found : (s.keys.find? fun (flow, _) => flow = s.flow) = some (0, k))
    (count : s.count - k.count = 1) (words : s.words = last :: before) :
    ∃ u, s.scanValue = .ok u ∧ u.cursor = s.cursor.next ∧ u.flow = 0 ∧ u.done = s.done ∧
      u.indent :: u.outer = entered k.column indent s.outer ∧ u.keyAllowed = false ∧
      u.words = (opening .blockMappingStart k.column indent ++ [.key, last, .value]).reverse ++ before ∧
      u.keys = s.keys.filter fun (flow, _) => flow ≠ s.flow := by
  let left : Scan := { s with keys := s.keys.filter fun (flow, _) => flow ≠ s.flow }
  have value : s.scanValue =
      let t := if decide (s.flow = 0) && s.opens k.column then
          (left.openBlock k.column).insertAt k.count [.blockMappingStart, .key]
        else left.insertAt k.count [.key]
      .ok { t.take 1 .value with keyAllowed := false } := by
    rw [scanValue, found]
    rfl
  rw [value]
  by_cases open_ : indent = k.column
  · have noOpen : (decide (s.flow = 0) && s.opens k.column) = false := by
      simp [opens, indent_, open_]
    rw [noOpen, entered, if_pos open_, opening, if_pos open_, ← indent_]
    refine ⟨_, rfl, rfl, flow, rfl, rfl, rfl, ?_, rfl⟩
    change Token.value :: (s.words.take (s.count - k.count) ++ [.key] ++
      s.words.drop (s.count - k.count)) = _
    rw [count, words]
    rfl
  · have opens_ : (decide (s.flow = 0) && s.opens k.column) = true := by
      rw [flow, opens, indent_, Bool.and_eq_true, decide_eq_true_eq, decide_eq_true_eq]
      exact ⟨rfl, by omega⟩
    rw [opens_, entered, if_neg open_, opening, if_neg open_, ← indent_]
    refine ⟨_, rfl, rfl, flow, rfl, rfl, rfl, ?_, rfl⟩
    change Token.value :: (s.words.take (s.count - k.count) ++ [.key, .blockMappingStart] ++
      s.words.drop (s.count - k.count)) = _
    rw [count, words]
    rfl

theorem isStale_keyPlace {key : List Char} (passes : s.cursor.Passes key t.cursor)
    (noBreak : ∀ y ∈ key, isBreak y = false) (short : key.length ≤ 1024) :
    t.isStale s.keyPlace = false := by
  have line := passes.line
  have index := passes.index
  rw [List.countP_eq_zero.2 (fun y mem => by rw [noBreak y mem]; decide), Nat.add_zero] at line
  simp only [isStale, keyPlace, line, index, ne_eq, not_true, decide_false, Bool.false_or,
    decide_eq_false_iff_not]
  omega

/-- The scan at the colon behind the name of a field: the name is remembered, wherever it stands. -/
structure AtColon (size : Nat) (column : Nat) (name : String) (r : List Char) (t s : Scan) : Prop where
  step : s.step size = s.settled.scanValue
  rest : s.settled.cursor.rest = ':' :: r
  column : s.settled.cursor.column = column + name.length
  found : (s.settled.keys.find? fun (flow, _) => flow = s.settled.flow) = some (0, t.keyPlace)
  loose : ∀ k ∈ s.settled.keys.filter fun (flow, _) => flow ≠ s.settled.flow, k.2.required = false

theorem settled_named_keys (near : (s.named name).skipped.isStale s.keyPlace = false) :
    (s.named name).settled.keys = (s.flow, s.keyPlace) ::
      (s.keys.filter fun (flow, _) => flow ≠ s.flow).filter
        fun k => !(s.named name).skipped.isStale k.2 := by
  have fresh : (s.named name).settled.keys =
      (s.named name).keys.filter fun k => !(s.named name).skipped.isStale k.2 := rfl
  rw [fresh, named, List.filter_cons_of_pos]
  exact congrArg Bool.not near

theorem atColon_named (within : s.Within size (indent :: outer))
    (rest : s.cursor.rest = name.toList ++ ':' :: r) (inside : indent ≤ s.cursor.column)
    (isName_ : isName name = true) (gap : endsWord r.head? = true) :
    AtColon size s.cursor.column name r s (s.named name) := by
  obtain ⟨-, letters, short, -⟩ := (isName_iff name).1 isName_
  have plain (y : Char) (mem : y ∈ name.toList) := (nameChar_plain (letters y mem)).1.2
  have passes := Cursor.passes_forward rest
  have behind : (s.named name).cursor.rest = ':' :: r := Cursor.forward_rest rest
  have column_ : (s.named name).cursor.column = s.cursor.column + name.length := by
    rw [← String.length_toList]
    exact Cursor.forward_column plain rest
  have stays : (s.named name).skipped.cursor = (s.named name).cursor :=
    Cursor.skipWhile_of_neg behind rfl
  have near : (s.named name).skipped.isStale s.keyPlace = false :=
    isStale_keyPlace (stays.symm ▸ passes) (fun y mem => (plain y mem).1) short
  have loose : ∀ k ∈ s.keys.filter fun (flow, _) => flow ≠ s.flow, k.2.required = false :=
    fun k mem => within.loose k (List.mem_filter.1 mem).1
  have keys := settled_named_keys near
  have settled : (s.named name).settled.cursor = (s.named name).cursor := stays
  refine ⟨?_, settled ▸ behind, settled ▸ column_, ?_, ?_⟩
  · have ahead_ : (s.named name).ahead = ':' :: r := by
      rw [ahead, behind, List.dropWhile_cons_of_neg (by decide)]
    have room : (s.named name).cursor.rest.length < size := by
      have room := within.room
      rw [rest, List.length_append] at room
      rw [behind]
      omega
    have fine : ∀ k ∈ (s.named name).keys, k.2.required = true →
        (s.named name).skipped.isStale k.2 = false := by
      intro k mem required
      rcases List.mem_cons.1 mem with rfl | mem
      · exact near
      · rw [loose k mem] at required
        contradiction
    have same : (s.named name).settled.unwind (s.named name).settled.cursor.column =
        (s.named name).settled := by
      refine unwind_of_le ?_
      have indent_ : (s.named name).settled.indent = indent := within.indent_eq
      rw [indent_, settled, column_]
      omega
    rw [step_eq (ahead_ ▸ startsWord_cons (by decide)) room fine]
    simp only [same]
    rw [Cursor.peek_eq (settled ▸ behind)]
    exact scanWord_colonGap (settled ▸ behind) gap
  · rw [keys, ← within.flow]
    exact List.find?_cons_of_pos (decide_eq_true rfl)
  · intro k mem
    rw [keys] at mem
    obtain ⟨mem, other⟩ := List.mem_filter.1 mem
    rcases List.mem_cons.1 mem with rfl | mem
    · exact absurd rfl (of_decide_eq_true other)
    · exact loose k (List.mem_filter.1 mem).1

theorem tells_key (within : s.Within size (indent :: outer))
    (faces : s.Faces column (name.toList ++ ':' :: r)) (allows : s.Allows)
    (inside : indent ≤ column) (isName_ : isName name = true) (gap : endsWord r.head? = true) :
    ∃ u, s.Tells size (entered column indent outer)
        (opening .blockMappingStart column indent ++ [.key, .scalar name true, .value]) u ∧
      u.cursor.rest = r ∧ u.cursor.column = column + name.length + 1 ∧ u.keyAllowed = false := by
  have column_ : s.settled.cursor.column = column := faces.column
  have leads := leads_named within faces allows inside isName_ gap
  have colon := atColon_named within.settled (settled_rest faces) (by rw [column_]; exact inside)
    isName_ gap
  rw [column_] at colon
  have found := colon.found
  have place : s.settled.keyPlace.column = column := column_
  have count : (s.settled.named name).settled.count - s.settled.keyPlace.count = 1 :=
    Nat.add_sub_cancel_left _ _
  obtain ⟨u, value, cursor, flow, going, blocks, allowed, words, keys⟩ :=
    scanValue_last (s := (s.settled.named name).settled) within.flow within.indent_eq
      (by rw [place]; exact inside) found count rfl
  have behind : u.cursor.rest = r := by rw [cursor]; exact Cursor.next_rest colon.rest
  have shorter : u.cursor.rest.length < (s.settled.named name).cursor.rest.length := by
    have length := (Cursor.passes_skipWhile isSkipped (s.settled.named name).cursor).reaches.length_le
    have rest := congrArg List.length colon.rest
    change ((s.settled.named name).cursor.skipWhile isSkipped).rest.length = _ at rest
    rw [List.length_cons] at rest
    rw [behind]
    omega
  have going' : u.done = false := going.trans within.going
  have room : (s.settled.named name).cursor.rest.length < size := by
    have room := within.settled.room
    have passes := Cursor.passes_forward (settled_rest faces)
    exact Nat.lt_of_le_of_lt passes.reaches.length_le room
  -- two steps: the name, as a scalar, and the colon, which makes it a key
  have second : Leads size (s.settled.named name) u := .of_step (colon.step.trans value) going' shorter
  rw [place] at blocks words
  refine ⟨u, ⟨leads.trans second, words, ?_⟩, behind, ?_, allowed⟩
  · refine ⟨blocks.trans ?_, flow, keys ▸ colon.loose, going', by omega⟩
    exact congrArg (entered column indent) within.outer_eq
  · rw [cursor, Cursor.next_column colon.rest (by decide), colon.column]

end Scan

end ApiModel.Yaml
