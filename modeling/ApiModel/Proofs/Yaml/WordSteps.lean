import ApiModel.Proofs.Yaml.Steps

namespace ApiModel.Yaml.Scan

open Json

variable {size fuel : Nat} {s t u : Scan} {x : Char} {r : List Char} {ts us : List Token}
  {ps : List Piece}

theorem reads_open {open_ : Token} (ready : s.Ready size) (next : s.ahead = x :: r)
    (bracket : x = '[' ∧ open_ = .flowSequenceStart ∨ x = '\x7b' ∧ open_ = .flowMappingStart) :
    ∃ u, s.Reads size [open_] u ∧ u.cursor.rest = r ∧ u.flow = s.flow + 1 ∧ u.keyAllowed = true := by
  obtain ⟨t, settles, rest⟩ := exists_settles_word ready next
    (by rcases bracket with ⟨rfl, -⟩ | ⟨rfl, -⟩ <;> decide)
  obtain ⟨keys, saved, loose, -⟩ := saveKey_ready settles.ready
  have scan : t.scanWord size x = t.openFlow open_ := by
    rcases bracket with ⟨rfl, rfl⟩ | ⟨rfl, rfl⟩ <;> rfl
  let u : Scan := { ({ t with keys } : Scan).take 1 open_ with flow := t.flow + 1, keyAllowed := true }
  have word : t.scanWord size x = .ok u := by
    rw [scan, openFlow, saved]
    rfl
  have behind : u.cursor.rest = r := Cursor.next_rest rest
  exact ⟨u, settles.reads word rest rfl loose ⟨rfl, rfl, rfl⟩ (by rw [behind]), behind,
    congrArg (· + 1) settles.flow, rfl⟩

theorem reads_close {close : Token} (ready : s.Ready size) (next : s.ahead = x :: r)
    (inside : 0 < s.flow)
    (bracket : x = ']' ∧ close = .flowSequenceEnd ∨ x = '\x7d' ∧ close = .flowMappingEnd) :
    ∃ u, s.Reads size [close] u ∧ u.cursor.rest = r ∧ u.flow = s.flow - 1 := by
  obtain ⟨t, settles, rest⟩ := exists_settles_word ready next
    (by rcases bracket with ⟨rfl, -⟩ | ⟨rfl, -⟩ <;> decide)
  have scan : t.scanWord size x = t.closeFlow close := by
    rcases bracket with ⟨rfl, rfl⟩ | ⟨rfl, rfl⟩ <;> rfl
  let dropped : Scan := { t with keys := t.keys.filter fun k => k.1 ≠ t.flow }
  let u : Scan := { dropped.take 1 close with flow := t.flow - 1, keyAllowed := false }
  have word : t.scanWord size x = .ok u := by
    have open_ : ¬t.flow = 0 := by
      rw [settles.flow]
      omega
    rw [scan, closeFlow, dropKey_ready settles.ready]
    change (if t.flow = 0 then _ else _ : Except Fault Scan) = _
    rw [if_neg open_]
    rfl
  have behind : u.cursor.rest = r := Cursor.next_rest rest
  have loose (k : Nat × KeyPlace) (mem : k ∈ u.keys) : k.2.required = false :=
    settles.ready.loose k (List.mem_filter.1 mem).1
  exact ⟨u, settles.reads word rest rfl loose ⟨rfl, rfl, rfl⟩ (by rw [behind]), behind,
    congrArg (· - 1) settles.flow⟩

theorem reads_comma (ready : s.Ready size) (next : s.ahead = ',' :: r) :
    ∃ u, s.Reads size [.flowEntry] u ∧ u.cursor.rest = r ∧ u.flow = s.flow ∧
      u.keyAllowed = true := by
  obtain ⟨t, settles, rest⟩ := exists_settles_word ready next (by decide)
  let dropped : Scan := { t with keys := t.keys.filter fun k => k.1 ≠ t.flow }
  let u : Scan := { dropped.take 1 .flowEntry with keyAllowed := true }
  have word : t.scanWord size ',' = .ok u := by
    change t.scanFlowEntry = _
    rw [scanFlowEntry, dropKey_ready settles.ready]
    rfl
  have behind : u.cursor.rest = r := Cursor.next_rest rest
  have loose (k : Nat × KeyPlace) (mem : k ∈ u.keys) : k.2.required = false :=
    settles.ready.loose k (List.mem_filter.1 mem).1
  exact ⟨u, settles.reads word rest rfl loose ⟨rfl, rfl, rfl⟩ (by rw [behind]), behind,
    settles.flow, rfl⟩

theorem fails_tab (ready : s.Ready size) (next : s.ahead = '\t' :: r) : s.Fails size := by
  obtain ⟨t, settles, rest⟩ := exists_settles_word ready next (by decide)
  exact settles.fails rest rfl

theorem scanWord_quote (s : Scan) : s.scanWord size '"' =
    s.keyWord fun c => (quotedScalar true size c.next).map fun (text, c) =>
      (.scalar (.ofList text) false, c) := rfl

theorem reads_quoted (ready : s.Ready size) (next : s.ahead = '"' :: (spell ps ++ '"' :: r))
    (clean : isClean ps = true) :
    ∃ t u, s.Settles size t ∧ s.Reads size [.scalar (.ofList (foldPieces false ps)) false] u ∧
      u.cursor.rest = r ∧ u.flow = s.flow ∧ u.count = s.count + 1 ∧
      t.cursor.Passes ('"' :: spell ps ++ ['"']) u.cursor ∧
      (t.keyAllowed = true →
        u.keys = (t.flow, t.place) :: t.keys.filter fun (flow, _) => flow ≠ t.flow) := by
  obtain ⟨t, settles, rest⟩ := exists_settles_word ready next (by decide)
  obtain ⟨keys, saved, loose, remembered⟩ := saveKey_ready settles.ready
  have room := settles.ready.room
  rw [rest, List.length_cons, ← Cursor.next_rest rest] at room
  obtain ⟨bad, -⟩ | ⟨-, d, read, reaches, behind⟩ :=
    quotedScalar_spelled (Cursor.next_rest rest) (Nat.le_of_succ_le (Nat.le_of_lt room))
  · rw [clean] at bad
    contradiction
  · let token : Token := .scalar (.ofList (foldPieces false ps)) false
    let u : Scan := { ({ t with keys } : Scan).push token with cursor := d, keyAllowed := false }
    have word : t.scanWord size '"' = .ok u := by
      rw [scanWord_quote, keyWord, saved]
      change ((quotedScalar true size t.cursor.next).map _).bind _ = _
      rw [read]
      rfl
    have shorter : u.cursor.rest.length ≤ (spell ps ++ '"' :: r).length := by
      rw [List.length_append, List.length_cons, behind]
      omega
    refine ⟨t, u, settles, settles.reads word rest rfl loose ⟨rfl, rfl, rfl⟩ shorter, behind,
      settles.flow, congrArg (· + 1) settles.count, ?_, remembered⟩
    have passes := (Cursor.passes_next rest).reaches.trans reaches
    exact passes.passes (by rw [rest, behind]; simp)

theorem fails_quoted (ready : s.Ready size) (next : s.ahead = '"' :: (spell ps ++ '"' :: r))
    (bad : isClean ps = false) : s.Fails size := by
  obtain ⟨t, settles, rest⟩ := exists_settles_word ready next (by decide)
  obtain ⟨keys, saved, -, -⟩ := saveKey_ready settles.ready
  have room := settles.ready.room
  rw [rest, List.length_cons, ← Cursor.next_rest rest] at room
  obtain ⟨-, e, fault⟩ | ⟨clean, -⟩ :=
    quotedScalar_spelled (Cursor.next_rest rest) (Nat.le_of_succ_le (Nat.le_of_lt room))
  · have word : t.scanWord size '"' = .error e := by
      rw [scanWord_quote, keyWord, saved]
      change ((quotedScalar true size t.cursor.next).map _).bind _ = _
      rw [fault]
      rfl
    exact settles.fails rest word
  · rw [bad] at clean
    contradiction

theorem scanWord_plain (first : x ∈ firstChars) : s.scanWord size x = s.scanPlain size := by
  simp only [firstChars, List.mem_cons, List.not_mem_nil, or_false] at first
  rcases first with rfl | rfl | rfl | rfl | rfl | rfl | rfl | rfl | rfl | rfl | rfl | rfl | rfl <;> rfl

theorem scanWord_minus (rest : s.cursor.rest = '-' :: x :: r) (digit : x.isDigit = true) :
    s.scanWord size '-' = s.scanPlain size := by
  have word : endsWord s.cursor.peekSecond = false := by
    rw [Cursor.peekSecond, rest]
    exact digit_of_all (fun y => endsWord (some y) = false) (by decide) digit
  have noMarker : s.cursor.atMarker = false := by
    rw [← Bool.not_eq_true, Cursor.atMarker_iff, rest]
    have noMinus := digit_of_all (fun y => y ≠ '-' ∧ y ≠ '.') (by decide) digit
    simp [noMinus]
  rw [scanWord]
  simp only [word, noMarker, Bool.and_false, startsPlain]
  rfl

theorem isPlainChar_word (word : Bare) : ∀ y ∈ word.chars, isPlainChar y = true :=
  all_word word (fun y => isPlainChar y = true) (by decide)

theorem reads_plain (ready : s.Ready size) (inside : 0 < s.flow) {word : Bare}
    (next : s.ahead = word.chars ++ r) (follows : Follows r) :
    ∃ u, s.Reads size [.scalar (String.ofList word.chars) true] u ∧
      u.cursor.rest = r.dropWhile isSkipped ∧ u.flow = s.flow := by
  obtain ⟨x, cs, starts, first⟩ := word_starts word
  have next' : s.ahead = x :: (cs ++ r) := by rw [next, starts, List.cons_append]
  have settled : x ≠ '#' ∧ isBreak x = false ∧ x ≠ '\ufeff' := by
    rcases first with first | ⟨rfl, -⟩
    · exact forall_of_all (p := fun y => y ≠ '#' ∧ isBreak y = false ∧ y ≠ '\ufeff') (by decide)
        x first
    · decide
  obtain ⟨t, settles, rest⟩ := exists_settles_word ready next' settled
  have scan : t.scanWord size x = t.scanPlain size := by
    rcases first with first | ⟨rfl, d, ds, rfl, digit⟩
    · exact scanWord_plain first
    · exact scanWord_minus rest digit
  obtain ⟨keys, saved, loose, -⟩ := saveKey_ready settles.ready
  have inside' : 0 < t.flow := by rwa [settles.flow]
  have at_ : t.cursor.rest = word.chars ++ r := by rw [rest, starts, List.cons_append]
  obtain ⟨text, behind, reaches⟩ :=
    plainScalar_word (isPlainChar_word word) at_ follows settles.ready.room (t.indent + 1).toNat
  generalize result : plainScalar true (t.indent + 1).toNat size t.cursor = p at text behind reaches
  let token : Token := .scalar (String.ofList p.text) true
  let u : Scan := { ({ t with keys } : Scan).push token with
    cursor := p.after, keyAllowed := p.breaksLine }
  have read : t.scanWord size x = .ok u := by
    rw [scan, scanPlain, saved]
    change Except.ok _ = Except.ok _
    simp only [decide_eq_true inside', result]
    rfl
  have shorter : u.cursor.rest.length ≤ (cs ++ r).length := by
    have length := List.length_dropWhile_le isSkipped r
    rw [behind, List.length_append]
    omega
  have reads : s.Reads size [.scalar (String.ofList word.chars) true] u :=
    settles.reads read rest (by rw [← text]; rfl) loose ⟨rfl, rfl, rfl⟩ shorter
  exact ⟨u, reads, behind, settles.flow⟩

structure Colon (s : Scan) (words : List Token) (t : Scan) : Prop where
  value : s.scanValue = .ok t
  cursor : t.cursor = s.cursor.next
  flow : t.flow = s.flow
  words : t.words = words
  fewer : ∀ k ∈ t.keys, k ∈ s.keys
  outside : t.indent = s.indent ∧ t.outer = s.outer ∧ t.done = s.done

theorem colon_of_some {k : KeyPlace} (inside : 0 < s.flow)
    (found : (s.keys.find? fun (flow, _) => flow = s.flow) = some (s.flow, k)) :
    ∃ t, s.Colon (.value :: (s.words.take (s.count - k.count) ++
      .key :: s.words.drop (s.count - k.count))) t := by
  have notOutside : ¬s.flow = 0 := by omega
  let left : Scan := { s with keys := s.keys.filter fun (flow, _) => flow ≠ s.flow }
  let t : Scan := { (left.insertAt k.count [.key]).take 1 .value with keyAllowed := false }
  have value : s.scanValue = .ok t := by
    rw [scanValue, found]
    simp only [notOutside, decide_false, Bool.false_and]
    rfl
  refine ⟨t, value, rfl, rfl, ?_, fun _ mem => (List.mem_filter.1 mem).1, rfl, rfl, rfl⟩
  change Token.value :: (_ ++ [Token.key] ++ _) = _
  rw [List.append_assoc]
  rfl

theorem colon_of_none (ready : s.Ready size) (inside : 0 < s.flow)
    (none : (s.keys.find? fun (flow, _) => flow = s.flow) = none) :
    ∃ t, s.Colon (.value :: s.words) t := by
  let left : Scan := { s with keys := s.keys.filter fun (flow, _) => flow ≠ s.flow }
  let t : Scan := { left.take 1 .value with keyAllowed := s.flow = 0 }
  have value : s.scanValue = .ok t := by
    rw [scanValue, none]
    dsimp only
    rw [blockFor, if_pos inside]
    change s.dropKey.bind _ = _
    rw [dropKey_ready ready]
    rfl
  exact ⟨t, value, rfl, rfl, rfl, fun _ mem => (List.mem_filter.1 mem).1, rfl, rfl, rfl⟩

theorem colon_of_key {k : KeyPlace} {near : Bool} {token : Token} {before : List Token}
    (ready : s.Ready size) (inside : 0 < s.flow)
    (found : (s.keys.find? fun (flow, _) => flow = s.flow) = if near then some (s.flow, k) else none)
    (last : s.count - k.count = 1) (words : s.words = token :: before) :
    ∃ t, s.Colon (.value :: token :: ((if near then [.key] else []) ++ before)) t := by
  cases near with
  | true =>
    obtain ⟨t, colon⟩ := colon_of_some inside found
    rw [last, words] at colon
    exact ⟨t, colon⟩
  | false =>
    obtain ⟨t, colon⟩ := colon_of_none ready inside found
    rw [words] at colon
    exact ⟨t, colon⟩

theorem scanWord_colon (inside : 0 < s.flow) : s.scanWord size ':' = s.scanValue := by
  have loose : (decide (0 < s.flow) || endsWord s.cursor.peekSecond) = true := by
    rw [decide_eq_true inside, Bool.true_or]
  rw [scanWord]
  simp only [loose]
  rfl

theorem Settles.colon {words : List Token} (settles : s.Settles size t) (rest : t.cursor.rest = ':' :: r)
    (inside : 0 < t.flow) (colon : t.Colon words u) :
    Steps size s u ∧ u.Ready size ∧ u.cursor.rest = r ∧ u.flow = s.flow := by
  have behind : u.cursor.rest = r := by rw [colon.cursor, Cursor.next_rest rest]
  have loose (k : Nat × KeyPlace) (mem : k ∈ u.keys) : k.2.required = false :=
    settles.ready.loose k (colon.fewer k mem)
  have scan : t.scanWord size ':' = .ok u := (scanWord_colon inside).trans colon.value
  obtain ⟨steps, ready⟩ := settles.steps scan rest loose colon.outside (by rw [behind])
  exact ⟨steps, ready, behind, colon.flow.trans settles.flow⟩

def keyTokens (ps : List Piece) (near : Bool) : List Token :=
  (if near then [.key] else []) ++ [.scalar (.ofList (foldPieces false ps)) false, .value]

theorem isStale_place {key gap : List Char} (gaps : ∀ y ∈ gap, isSkipped y = true)
    (passes : s.cursor.Passes ('"' :: key ++ ['"'] ++ gap) t.cursor) :
    t.isStale s.place = !isNearby key gap := by
  have line := passes.line
  have index := passes.index
  have length : ('"' :: key ++ ['"'] ++ gap).length = key.length + gap.length + 2 := by
    simp only [List.length_append, List.length_cons, List.length_nil]
    omega
  have ends : ('"' :: key ++ ['"'] ++ gap).countP isBreak = 0 ↔
      gap.all (· = ' ') = true ∧ key.all (!isBreak ·) = true := by
    have space : (∀ y ∈ gap, isBreak y = false) ↔ ∀ y ∈ gap, y = ' ' := by
      refine forall₂_congr fun y mem => ?_
      have gap := gaps y mem
      rw [isSkipped, Bool.or_eq_true, decide_eq_true_eq, decide_eq_true_eq] at gap
      rcases gap with rfl | rfl <;> decide
    simp [List.countP_append, List.countP_eq_zero, ← space, isBreak, and_comm]
  rw [length] at index
  have far : decide (1024 < t.cursor.index - s.cursor.index) =
      !decide (key.length + gap.length + 2 ≤ 1024) := by
    rw [← decide_not, decide_eq_decide]
    omega
  have split : (s.cursor.line ≠ t.cursor.line) ↔
      ¬('"' :: key ++ ['"'] ++ gap).countP isBreak = 0 := by
    omega
  have stale : t.isStale s.place = (decide (s.cursor.line ≠ t.cursor.line) ||
    decide (1024 < t.cursor.index - s.cursor.index)) := rfl
  rw [stale, far, isNearby]
  simp only [split, ends]
  cases gap.all (· = ' ') <;> cases key.all (!isBreak ·) <;> simp

theorem reads_key {gap : List Char} (ready : s.Ready size) (inside : 0 < s.flow)
    (allowed : s.keyAllowed = true)
    (next : s.ahead = '"' :: (spell ps ++ '"' :: (gap ++ ':' :: r)))
    (gaps : ∀ y ∈ gap, isSkipped y = true) (clean : isClean ps = true) :
    ∃ u, s.Reads size (keyTokens ps (isNearby (spell ps) gap)) u ∧ u.cursor.rest = r ∧
      u.flow = s.flow := by
  obtain ⟨t, u, settles, reads, behind, flow, count, passes, remembered⟩ :=
    reads_quoted ready next clean
  have keys := remembered ((settles.allowed inside).trans allowed)
  have colon : u.ahead = ':' :: r := by
    rw [ahead, behind, List.dropWhile_append_of_pos gaps, List.dropWhile_cons_of_neg (by decide)]
  obtain ⟨v, settles', rest⟩ := exists_settles_word reads.ready colon (by decide)
  have inside' : 0 < v.flow := by rwa [settles'.flow, flow]
  have passed : t.cursor.Passes ('"' :: spell ps ++ ['"'] ++ gap) v.cursor :=
    passes.trans (settles'.reaches.passes (by rw [behind, rest]))
  have stale := isStale_place gaps passed
  have sameFlow : v.flow = t.flow := by rw [settles'.flow, flow, settles.flow]
  have kept := settles'.keys
  rw [keys, List.filter_cons] at kept
  have words : v.words = .scalar (.ofList (foldPieces false ps)) false :: s.words :=
    settles'.words.trans reads.words
  have found : (v.keys.find? fun (flow, _) => flow = v.flow) =
      if isNearby (spell ps) gap then some (v.flow, t.place) else none := by
    rw [kept, stale, sameFlow]
    cases isNearby (spell ps) gap <;> simp
  have last : v.count - t.place.count = 1 := by
    have place : t.place.count = s.count := settles.count
    rw [settles'.count, count, place]
    omega
  obtain ⟨w, colon⟩ := colon_of_key settles'.ready inside' found last words
  obtain ⟨steps, ready', behind', flow'⟩ := settles'.colon rest inside' colon
  refine ⟨w, ⟨reads.steps.trans steps, colon.words.trans ?_, ready'⟩, behind', flow'.trans flow⟩
  cases isNearby (spell ps) gap <;> rfl

end ApiModel.Yaml.Scan
