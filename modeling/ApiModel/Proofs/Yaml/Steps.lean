import ApiModel.Proofs.Yaml.Numeral
import ApiModel.Proofs.Yaml.Plain
import ApiModel.Proofs.Yaml.Quoted

namespace ApiModel.Yaml.Scan

open Json

variable {size fuel : Nat} {s t u : Scan} {x : Char} {r : List Char} {ts us : List Token}
  {ps : List Piece}

def ahead (s : Scan) : List Char := s.cursor.rest.dropWhile isSkipped

structure Ready (size : Nat) (s : Scan) : Prop where
  indent : s.indent = -1
  outer : s.outer = []
  loose : ∀ k ∈ s.keys, k.2.required = false
  going : s.done = false
  room : s.cursor.rest.length < size

inductive Steps (size : Nat) : Scan → Scan → Prop
  | refl (s : Scan) : Steps size s s
  | step {s t u : Scan} (taken : s.step size = .ok t) (going : t.done = false)
      (shorter : t.cursor.rest.length < s.cursor.rest.length) (more : Steps size t u) :
      Steps size s u

def Fails (size : Nat) (s : Scan) : Prop := ∃ t e, Steps size s t ∧ t.step size = .error e

structure Reads (size : Nat) (s : Scan) (ts : List Token) (t : Scan) : Prop where
  steps : Steps size s t
  words : t.words = ts.reverse ++ s.words
  ready : t.Ready size

theorem Steps.trans (first : Steps size s t) (second : Steps size t u) : Steps size s u := by
  induction first with
  | refl => exact second
  | step taken going shorter _ ih => exact .step taken going shorter (ih second)

theorem Reads.trans (first : s.Reads size ts t) (second : t.Reads size us u) :
    s.Reads size (ts ++ us) u where
  steps := first.steps.trans second.steps
  words := by rw [second.words, first.words, List.reverse_append, List.append_assoc]
  ready := second.ready

theorem Reads.refl (ready : s.Ready size) : s.Reads size [] s := ⟨.refl s, rfl, ready⟩

theorem Reads.fails (reads : s.Reads size ts t) (fails : t.Fails size) : s.Fails size := by
  obtain ⟨u, e, steps, fault⟩ := fails
  exact ⟨u, e, reads.steps.trans steps, fault⟩

theorem run_of_steps (steps : Steps size s t) (room : s.cursor.rest.length < fuel) :
    ∃ fuel', t.cursor.rest.length < fuel' ∧ run size fuel s = run size fuel' t := by
  induction steps generalizing fuel with
  | refl => exact ⟨fuel, room, rfl⟩
  | @step s t u taken going shorter _ ih =>
    cases fuel with
    | zero => omega
    | succ fuel =>
      have less : t.cursor.rest.length < fuel := by omega
      obtain ⟨fuel', room', same⟩ := ih less
      refine ⟨fuel', room', ?_⟩
      rw [run, taken]
      simp only [going]
      exact same

theorem run_of_fails (fails : s.Fails size) (room : s.cursor.rest.length < fuel) :
    (run size fuel s).fault.isSome = true := by
  obtain ⟨t, e, steps, fault⟩ := fails
  obtain ⟨fuel', room', same⟩ := run_of_steps steps room
  rw [same]
  cases fuel' with
  | zero => omega
  | succ fuel' =>
    rw [run, fault]
    rfl

theorem unwind_of_le {column : Int} (inside : s.indent ≤ column) : s.unwind column = s := by
  have none : (s.indent :: s.outer).takeWhile (column < ·) = [] :=
    List.takeWhile_cons_of_neg (by simpa using inside)
  rw [unwind, none]
  split
  · rfl
  · simp

theorem unwind_outside (indent : s.indent = -1) {column : Int} (inside : -1 ≤ column) :
    s.unwind column = s := unwind_of_le (indent ▸ inside)

def StartsWord (cs : List Char) : Prop :=
  ∀ x, cs.head? = some x → x ≠ '#' ∧ isBreak x = false ∧ x ≠ '\ufeff'

theorem StartsWord.other {c : Cursor} (starts : StartsWord c.rest) :
    c.peek ≠ some '#' ∧ c.lineBreak? = none :=
  ⟨fun comment => (starts _ comment).1 rfl,
    Cursor.lineBreak?_eq_none fun x next => (starts x next).2.1⟩

theorem skipToWord_ahead (starts : StartsWord s.ahead) (room : s.cursor.rest.length < fuel) :
    ∃ d allowed, s.skipToWord fuel = { s with cursor := d, keyAllowed := allowed } ∧
      s.cursor.Reaches d ∧ d.rest = s.ahead ∧ (0 < s.flow → allowed = s.keyAllowed) := by
  induction fuel generalizing s with
  | zero => omega
  | succ fuel ih =>
    obtain ⟨d, skipped, passed, (⟨rest, same⟩ | ⟨-, stops⟩)⟩ := skipSpaces_cases s.cursor
    -- past a line end the gap goes on, with the same word ahead
    · have feed : d.peek = some '\n' := Cursor.peek_eq rest
      have length := passed.length_le
      rw [rest, List.length_cons] at length
      let t : Scan := { s with cursor := d.next, keyAllowed := s.keyAllowed || decide (s.flow = 0) }
      have behind : t.ahead = s.ahead := same
      have less : t.cursor.rest.length < fuel := by
        change d.next.rest.length < fuel
        omega
      obtain ⟨e, allowed, skipped', reaches, rest', kept⟩ := ih (behind ▸ starts) less
      refine ⟨e, allowed, ?_, ?_, rest'.trans behind, ?_⟩
      · rw [skipToWord, skipped, Cursor.skipComment_of_ne (by rw [feed]; decide),
          Cursor.lineBreak?_eq_some feed rfl]
        exact skipped'
      · exact passed.trans ((Cursor.passes_next rest).reaches.trans reaches)
      · intro inside
        have notOutside : s.flow ≠ 0 := by omega
        rw [kept inside]
        simp [t, notOutside]
    · have here : StartsWord d.rest := stops ▸ starts
      rw [skipToWord, skipped, Cursor.skipComment_of_ne here.other.1, here.other.2]
      exact ⟨d, s.keyAllowed, rfl, passed, stops, fun _ => rfl⟩

/-- `t` is `s` behind the gap and without the keys that are too far away, ready to read a word. -/
structure Settles (size : Nat) (s t : Scan) : Prop where
  step : s.step size = match t.cursor.peek with
    | none => t.scanEnd
    | some x => t.scanWord size x
  rest : t.cursor.rest = s.ahead
  reaches : s.cursor.Reaches t.cursor
  words : t.words = s.words
  count : t.count = s.count
  flow : t.flow = s.flow
  keys : t.keys = s.keys.filter fun k => !t.isStale k.2
  allowed : 0 < s.flow → t.keyAllowed = s.keyAllowed
  ready : t.Ready size

theorem skipMark_of_startsWord (starts : StartsWord s.ahead) : s.skipMark = s := by
  rw [skipMark, if_neg]
  intro marked
  simp only [Bool.and_eq_true, isNext, decide_eq_true_eq] at marked
  have head : s.ahead.head? = some '\ufeff' := by
    have mark := marked.2
    rw [Cursor.peek] at mark
    rw [ahead]
    cases chars : s.cursor.rest with
    | nil =>
      rw [chars] at mark
      contradiction
    | cons x r =>
      rw [chars, List.head?_cons, Option.some.injEq] at mark
      subst mark
      rw [List.dropWhile_cons_of_neg (by decide), List.head?_cons]
  exact (starts _ head).2.2 rfl

theorem exists_settles (ready : s.Ready size) (starts : StartsWord s.ahead) :
    ∃ t, s.Settles size t := by
  obtain ⟨d, allowed, skipped, reaches, rest, kept⟩ := skipToWord_ahead starts ready.room
  let skip : Scan := { s with cursor := d, keyAllowed := allowed }
  let t : Scan := { skip with keys := s.keys.filter fun k => !skip.isStale k.2 }
  have loose (k : Nat × KeyPlace) (mem : k ∈ t.keys) : k.2.required = false :=
    ready.loose k (List.mem_filter.1 mem).1
  have fresh : skip.dropStale = .ok t := by
    rw [dropStale, if_neg]
    rw [List.any_eq_true]
    rintro ⟨k, mem, required⟩
    rw [Bool.and_eq_true, ready.loose k mem] at required
    exact Bool.false_ne_true required.2
  have length := reaches.length_le
  have ready' : t.Ready size :=
    ⟨ready.indent, ready.outer, loose, ready.going, Nat.lt_of_le_of_lt length ready.room⟩
  refine ⟨t, ?_, rest, reaches, rfl, rfl, rfl, rfl, kept, ready'⟩
  rw [Scan.step, skipMark_of_startsWord starts, skipped]
  change skip.dropStale.bind _ = _
  rw [fresh, Except.bind]
  have unwound : t.unwind t.cursor.column = t := unwind_outside ready'.indent (by omega)
  exact congrArg (fun u : Scan => match u.cursor.peek with
    | none => u.scanEnd
    | some x => u.scanWord size x) unwound

theorem exists_settles_word (ready : s.Ready size) (next : s.ahead = x :: r)
    (starts : x ≠ '#' ∧ isBreak x = false ∧ x ≠ '\ufeff') :
    ∃ t, s.Settles size t ∧ t.cursor.rest = x :: r := by
  have word : StartsWord s.ahead := by
    rw [next]
    intro y head
    cases head
    exact starts
  obtain ⟨t, settles⟩ := exists_settles ready word
  exact ⟨t, settles, settles.rest.trans next⟩

theorem dropKey_loose (loose : ∀ k ∈ s.keys, k.2.required = false) :
    s.dropKey = .ok { s with keys := s.keys.filter fun (flow, _) => flow ≠ s.flow } := by
  rw [dropKey, if_neg]
  rw [List.any_eq_true]
  rintro ⟨k, mem, required⟩
  rw [Bool.and_eq_true, loose k mem] at required
  exact Bool.false_ne_true required.2

theorem dropKey_ready (ready : s.Ready size) :
    s.dropKey = .ok { s with keys := s.keys.filter fun (flow, _) => flow ≠ s.flow } :=
  dropKey_loose ready.loose

def place (s : Scan) : KeyPlace :=
  ⟨s.count, false, s.cursor.index, s.cursor.line, s.cursor.column⟩

theorem saveKey_ready (ready : s.Ready size) : ∃ keys, s.saveKey = .ok { s with keys } ∧
    (∀ k ∈ keys, k.2.required = false) ∧
    (s.keyAllowed = true →
      keys = (s.flow, s.place) :: s.keys.filter fun (flow, _) => flow ≠ s.flow) := by
  rw [saveKey]
  by_cases allowed : s.keyAllowed = true
  · have notRequired : (decide (s.flow = 0) && decide (s.indent = s.cursor.column)) = false := by
      rw [ready.indent, Bool.and_eq_false_iff]
      exact .inr (decide_eq_false (by omega))
    rw [if_pos allowed, dropKey_ready ready]
    refine ⟨_, by simp only [notRequired]; rfl, ?_, fun _ => rfl⟩
    intro k mem
    rcases List.mem_cons.1 mem with rfl | mem
    · rfl
    · exact ready.loose k (List.mem_filter.1 mem).1
  · rw [if_neg allowed]
    exact ⟨s.keys, rfl, ready.loose, fun other => absurd other allowed⟩

theorem Settles.steps (settles : s.Settles size t) (word : t.scanWord size x = .ok u)
    (rest : t.cursor.rest = x :: r) (loose : ∀ k ∈ u.keys, k.2.required = false)
    (outside : u.indent = t.indent ∧ u.outer = t.outer ∧ u.done = t.done)
    (shorter : u.cursor.rest.length ≤ r.length) : Steps size s u ∧ u.Ready size := by
  have ready := settles.ready
  have length := settles.reaches.length_le
  have room := ready.room
  rw [rest, List.length_cons] at length room
  obtain ⟨indent, outer, done⟩ := outside
  have going : u.done = false := done.trans ready.going
  have taken : s.step size = .ok u := by
    rw [settles.step, Cursor.peek_eq rest]
    exact word
  exact ⟨.step taken going (by omega) (.refl u),
    ⟨indent.trans ready.indent, outer.trans ready.outer, loose, going, by omega⟩⟩

theorem Settles.reads (settles : s.Settles size t) (word : t.scanWord size x = .ok u)
    (rest : t.cursor.rest = x :: r) (words : u.words = ts.reverse ++ t.words)
    (loose : ∀ k ∈ u.keys, k.2.required = false)
    (outside : u.indent = t.indent ∧ u.outer = t.outer ∧ u.done = t.done)
    (shorter : u.cursor.rest.length ≤ r.length) : s.Reads size ts u := by
  obtain ⟨steps, ready⟩ := settles.steps word rest loose outside shorter
  exact ⟨steps, by rw [words, settles.words], ready⟩

theorem Settles.fails (settles : s.Settles size t) (rest : t.cursor.rest = x :: r) {e : Fault}
    (fault : t.scanWord size x = .error e) : s.Fails size := by
  refine ⟨s, e, .refl s, ?_⟩
  rw [settles.step, Cursor.peek_eq rest]
  exact fault

end ApiModel.Yaml.Scan
