import ApiModel.Proofs.Yaml.PlainText
import ApiModel.Proofs.Yaml.WordSteps

namespace ApiModel.Yaml.Scan

variable {size fuel : Nat} {s t u : Scan} {x : Char} {r : List Char} {ts us : List Token}
  {blocks outer : List Int} {indent : Int} {column : Nat}

/-- The scan stands outside of brackets in these blocks, the innermost first; no word has to be a key. -/
structure Within (size : Nat) (blocks : List Int) (s : Scan) : Prop where
  blocks : s.indent :: s.outer = blocks
  flow : s.flow = 0
  loose : ∀ k ∈ s.keys, k.2.required = false
  going : s.done = false
  room : s.cursor.rest.length < size

theorem Within.indent_eq (within : s.Within size (indent :: outer)) : s.indent = indent :=
  (List.cons.inj within.blocks).1

theorem Within.outer_eq (within : s.Within size (indent :: outer)) : s.outer = outer :=
  (List.cons.inj within.blocks).2

/-- The scan goes on from `t` as from `s`, unless it meets a fault: then words may be missing at `s`. -/
def Leads (size : Nat) (s t : Scan) : Prop :=
  ∀ fuel, s.cursor.rest.length < fuel → ∃ fuel', t.cursor.rest.length < fuel' ∧
    ((run size fuel' t).fault = none → run size fuel s = run size fuel' t)

theorem Leads.trans (first : Leads size s t) (second : Leads size t u) : Leads size s u := by
  intro fuel room
  obtain ⟨fuel', room', same⟩ := first fuel room
  obtain ⟨fuel'', room'', same'⟩ := second fuel' room'
  refine ⟨fuel'', room'', fun sound => ?_⟩
  rw [same (by rw [same' sound, sound]), same' sound]

theorem Leads.of_step (taken : s.step size = .ok t) (going : t.done = false)
    (shorter : t.cursor.rest.length < s.cursor.rest.length) : Leads size s t := by
  intro fuel room
  obtain ⟨fuel', room', same⟩ := run_of_steps (.step taken going shorter (.refl t)) room
  exact ⟨fuel', room', fun _ => same⟩

theorem Leads.of_same (step : s.step size = t.step size) (cursor : s.cursor = t.cursor) :
    Leads size s t := by
  intro fuel room
  refine ⟨fuel, cursor ▸ room, fun sound => ?_⟩
  obtain ⟨n, rfl⟩ : ∃ n, fuel = n + 1 := ⟨fuel - 1, by omega⟩
  rw [run] at sound ⊢
  rw [step]
  rw [run]
  cases taken : t.step size with
  | error e =>
    rw [taken] at sound
    contradiction
  | ok u => rfl

structure Faces (s : Scan) (column : Nat) (r : List Char) : Prop where
  rest : s.ahead = r
  column : (s.cursor.skipWhile isSkipped).column = column
  starts : StartsWord r

def Allows (s : Scan) : Prop := s.keyAllowed = true ∨ '\n' ∈ s.cursor.rest.takeWhile isSkipped

def skipped (s : Scan) : Scan :=
  { s with
    cursor := s.cursor.skipWhile isSkipped
    keyAllowed := s.keyAllowed || (s.flow = 0 && (s.cursor.rest.takeWhile isSkipped).contains '\n') }

def settled (s : Scan) : Scan :=
  { s.skipped with keys := s.keys.filter fun k => !s.skipped.isStale k.2 }

theorem skipWhile_split (c : Cursor) :
    (c.skipWhile (· = ' ')).skipWhile isSkipped = c.skipWhile isSkipped ∧
      (c.rest.takeWhile isSkipped).contains '\n' =
        ((c.skipWhile (· = ' ')).rest.takeWhile isSkipped).contains '\n' := by
  generalize length : c.rest.length = n
  induction n generalizing c with
  | zero =>
    have none : c.rest = [] := List.eq_nil_of_length_eq_zero length
    have stays : c.skipWhile (· = ' ') = c := by
      rw [Cursor.skipWhile, none]
      rfl
    rw [stays]
    exact ⟨rfl, rfl⟩
  | succ n ih =>
    cases at_ : c.rest with
    | nil =>
      rw [at_] at length
      contradiction
    | cons x r =>
      by_cases space : x = ' '
      · subst space
        have length' : c.next.rest.length = n := by
          rw [Cursor.next_rest at_]
          rw [at_] at length
          exact Nat.succ.inj length
        obtain ⟨same, contains⟩ := ih c.next length'
        rw [Cursor.skipWhile_of_pos at_ (by decide), Cursor.skipWhile_of_pos at_ rfl,
          List.takeWhile_cons_of_pos rfl, ← contains, Cursor.next_rest at_]
        exact ⟨same, by simp⟩
      · rw [Cursor.skipWhile_of_neg at_ (by simpa using space), at_]
        exact ⟨rfl, rfl⟩

theorem takeWhile_dropWhile_isSkipped (cs : List Char) :
    (cs.dropWhile isSkipped).takeWhile isSkipped = [] := by
  have head := List.head?_dropWhile_not isSkipped cs
  cases behind : cs.dropWhile isSkipped with
  | nil => rfl
  | cons x r =>
    rw [behind] at head
    exact List.takeWhile_cons_of_neg (by simpa using head)

theorem skipToWord_eq (starts : StartsWord s.ahead) (room : s.cursor.rest.length < fuel) :
    s.skipToWord fuel = s.skipped := by
  -- line by line: spaces up to a line end, or up to the word
  induction fuel generalizing s with
  | zero => omega
  | succ fuel ih =>
    obtain ⟨same, contains⟩ := skipWhile_split s.cursor
    obtain ⟨d, skip, passed, (⟨rest, ahead_⟩ | ⟨-, stops⟩)⟩ := skipSpaces_cases s.cursor
    · have feed : d.peek = some '\n' := Cursor.peek_eq rest
      have length := passed.length_le
      rw [rest, List.length_cons] at length
      let t : Scan := { s with cursor := d.next, keyAllowed := s.keyAllowed || decide (s.flow = 0) }
      have behind : t.ahead = s.ahead := ahead_
      have more := ih (s := t) (behind ▸ starts) (show d.next.rest.length < fuel by omega)
      rw [skip, Cursor.skipWhile_of_pos rest rfl] at same
      rw [skip, rest, List.takeWhile_cons_of_pos rfl, List.contains_cons] at contains
      rw [skipToWord, skip, Cursor.skipComment_of_ne (by rw [feed]; decide),
        Cursor.lineBreak?_eq_some feed rfl]
      refine more.trans ?_
      rw [skipped, skipped, ← same, contains]
      simp only [t, beq_self_eq_true, Bool.true_or, Bool.and_true, Bool.or_assoc]
      cases decide (s.flow = 0) <;> rfl
    · have here : StartsWord d.rest := stops ▸ starts
      have noGap : d.rest.takeWhile isSkipped = [] := by
        rw [stops]
        exact takeWhile_dropWhile_isSkipped _
      have stays : d.skipWhile isSkipped = d := by
        rw [Cursor.skipWhile, noGap]
        rfl
      rw [skip, stays] at same
      rw [skip, noGap] at contains
      rw [skipToWord, skip, Cursor.skipComment_of_ne here.other.1, here.other.2, skipped, ← same,
        contains]
      simp

theorem step_eq (starts : StartsWord s.ahead) (room : s.cursor.rest.length < size)
    (fine : ∀ k ∈ s.keys, k.2.required = true → s.skipped.isStale k.2 = false) :
    s.step size =
      let t := s.settled.unwind s.settled.cursor.column
      match t.cursor.peek with
      | none => t.scanEnd
      | some x => t.scanWord size x := by
  have fresh : s.skipped.dropStale = .ok s.settled := by
    rw [dropStale, if_neg]
    · rfl
    · rw [List.any_eq_true]
      rintro ⟨k, mem, both⟩
      rw [Bool.and_eq_true] at both
      rw [fine k mem both.2] at both
      exact Bool.false_ne_true both.1
  rw [step, skipMark_of_startsWord starts, skipToWord_eq starts room]
  change s.skipped.dropStale.bind _ = _
  rw [fresh]
  rfl

theorem fine_of_loose (loose : ∀ k ∈ s.keys, k.2.required = false) :
    ∀ k ∈ s.keys, k.2.required = true → s.skipped.isStale k.2 = false := by
  intro k mem required
  rw [loose k mem] at required
  contradiction

theorem Within.fine (within : s.Within size blocks) :
    ∀ k ∈ s.keys, k.2.required = true → s.skipped.isStale k.2 = false :=
  fine_of_loose within.loose

theorem settled_rest (faces : s.Faces column r) : s.settled.cursor.rest = r := by
  rw [← faces.rest]
  exact Cursor.skipWhile_rest isSkipped s.cursor

theorem Within.settled (within : s.Within size blocks) : s.settled.Within size blocks where
  blocks := within.blocks
  flow := within.flow
  loose k mem := within.loose k (List.mem_filter.1 mem).1
  going := within.going
  room := Nat.lt_of_le_of_lt (Cursor.passes_skipWhile isSkipped s.cursor).reaches.length_le within.room

theorem Allows.settled (allows : s.Allows) (flow : s.flow = 0) : s.settled.keyAllowed = true := by
  rcases allows with allowed | feed
  · simp [Scan.settled, skipped, allowed]
  · simp [Scan.settled, skipped, flow, feed]

theorem Within.step_word (within : s.Within size (indent :: outer)) (faces : s.Faces column (x :: r))
    (inside : indent ≤ column) : s.step size = s.settled.scanWord size x := by
  have starts : StartsWord s.ahead := faces.rest ▸ faces.starts
  have same : s.settled.unwind s.settled.cursor.column = s.settled := by
    refine unwind_of_le ?_
    have column_ : s.settled.cursor.column = column := faces.column
    rw [column_, within.settled.indent_eq]
    exact inside
  rw [step_eq starts within.room within.fine]
  simp only [same, Cursor.peek_eq (settled_rest faces)]

def closed (s : Scan) : Scan :=
  match s.outer with
  | [] => s
  | indent :: outer => { s with
      indent, outer
      words := .blockEnd :: s.words
      count := s.count + 1 }

theorem closed_eq {j : Int} (outer_ : s.outer = j :: outer) :
    s.closed = { s with
      indent := j
      outer
      words := .blockEnd :: s.words
      count := s.count + 1 } := by
  rw [closed, outer_]

theorem unwind_closed {j : Int} (flow : s.flow = 0) (outer_ : s.outer = j :: outer)
    (left : (column : Int) < s.indent) (bottom : -1 ∈ s.outer) :
    s.unwind column = s.closed.unwind column := by
  have noFlow : ¬0 < s.flow := by omega
  -- the block at -1 is never closed, so there is one to stay in
  have stays : ((j :: outer).drop ((j :: outer).takeWhile ((column : Int) < ·)).length) ≠ [] := by
    rw [outer_] at bottom
    rw [Ne, List.drop_eq_nil_iff]
    intro all
    rw [← (List.takeWhile_prefix _).eq_of_length_le all] at bottom
    have below := List.mem_takeWhile_imp bottom
    rw [decide_eq_true_eq] at below
    omega
  rw [closed_eq outer_, unwind, unwind, if_neg noFlow, if_neg noFlow, outer_]
  dsimp only
  rw [List.takeWhile_cons_of_pos (by simpa using left), List.length_cons, List.drop_succ_cons]
  cases rest : (j :: outer).drop ((j :: outer).takeWhile ((column : Int) < ·)).length with
  | nil => exact absurd rest stays
  | cons i o =>
    dsimp only
    rw [List.replicate_succ', List.append_assoc]
    simp only [List.singleton_append, Nat.add_assoc, Nat.add_comm 1]

theorem Within.closed {j : Int} (within : s.Within size (indent :: j :: outer)) :
    s.closed.Within size (j :: outer) := by
  rw [closed_eq within.outer_eq]
  exact ⟨rfl, within.flow, within.loose, within.going, within.room⟩

theorem closed_settled (s : Scan) : s.closed.settled = s.settled.closed := by
  unfold closed
  cases outer_ : s.outer with
  | nil =>
    have settled : s.settled.outer = [] := outer_
    simp only [settled]
  | cons j o =>
    have settled : s.settled.outer = j :: o := outer_
    simp only [settled]
    rfl

theorem closed_cursor (s : Scan) : s.closed.cursor = s.cursor ∧ s.closed.keys = s.keys ∧
    s.closed.keyAllowed = s.keyAllowed := by
  unfold closed
  split <;> exact ⟨rfl, rfl, rfl⟩

theorem Faces.closed (faces : s.Faces column r) : s.closed.Faces column r := by
  obtain ⟨rest, column_, starts⟩ := faces
  refine ⟨?_, ?_, starts⟩
  · rw [ahead, (closed_cursor s).1]
    exact rest
  · rw [(closed_cursor s).1]
    exact column_

theorem Allows.closed (allows : s.Allows) : s.closed.Allows := by
  rw [Allows, (closed_cursor s).1, (closed_cursor s).2.2]
  exact allows

theorem Within.leads_closed {j : Int} (within : s.Within size (indent :: j :: outer))
    (faces : s.Faces column r) (left : (column : Int) < indent) (bottom : -1 ∈ j :: outer) :
    Leads size s s.closed := by
  refine .of_same ?_ (closed_cursor s).1.symm
  have starts : StartsWord s.ahead := faces.rest ▸ faces.starts
  have starts' : StartsWord s.closed.ahead := faces.closed.rest ▸ faces.starts
  have column_ : s.settled.cursor.column = column := faces.column
  have column' : s.settled.closed.cursor.column = column := by
    rw [(closed_cursor s.settled).1, column_]
  have same : s.settled.unwind column = s.settled.closed.unwind column :=
    unwind_closed within.settled.flow within.settled.outer_eq
      (within.settled.indent_eq.symm ▸ left) (within.settled.outer_eq.symm ▸ bottom)
  rw [step_eq starts within.room within.fine, step_eq starts' within.closed.room within.closed.fine,
    closed_settled, column_, column', same]

structure Tells (size : Nat) (blocks : List Int) (s : Scan) (ts : List Token) (t : Scan) : Prop where
  leads : Leads size s t
  words : t.words = ts.reverse ++ s.words
  within : t.Within size blocks

theorem Tells.trans {blocks' : List Int} (first : s.Tells size blocks ts t)
    (second : t.Tells size blocks' us u) : s.Tells size blocks' (ts ++ us) u where
  leads := first.leads.trans second.leads
  words := by rw [second.words, first.words, List.reverse_append, List.append_assoc]
  within := second.within

theorem Tells.close {j : Int} (tells : s.Tells size (indent :: j :: outer) ts t)
    (faces : t.Faces column r) (left : (column : Int) < indent) (bottom : -1 ∈ j :: outer) :
    s.Tells size (j :: outer) (ts ++ [.blockEnd]) t.closed where
  leads := tells.leads.trans (tells.within.leads_closed faces left bottom)
  words := by
    rw [closed_eq tells.within.outer_eq, List.reverse_append]
    exact congrArg (Token.blockEnd :: ·) tells.words
  within := tells.within.closed

theorem Within.leads (within : s.Within size (indent :: outer)) (faces : s.Faces column (x :: r))
    (inside : indent ≤ column) (word : s.settled.scanWord size x = .ok u) (going : u.done = false)
    (shorter : u.cursor.rest.length ≤ r.length) : Leads size s u := by
  have length := (Cursor.passes_skipWhile isSkipped s.cursor).reaches.length_le
  have rest := congrArg List.length (settled_rest faces)
  change (s.cursor.skipWhile isSkipped).rest.length = _ at rest
  rw [List.length_cons] at rest
  exact .of_step ((within.step_word faces inside).trans word) going (by omega)

def entered (column : Nat) (indent : Int) (outer : List Int) : List Int :=
  if indent = column then indent :: outer else column :: indent :: outer

def opening (start : Token) (column : Nat) (indent : Int) : List Token :=
  if indent = column then [] else [start]

theorem blockFor_eq (start : Token) (within : s.Within size (indent :: outer))
    (allowed : s.keyAllowed = true) (column_ : s.cursor.column = column) (inside : indent ≤ column) :
    ∃ t : Scan, s.blockFor start = .ok t ∧ t.Within size (entered column indent outer) ∧
      t.words = (opening start column indent).reverse ++ s.words ∧ t.cursor = s.cursor := by
  obtain ⟨blocks, flow, loose, going, room⟩ := within
  have indent_ := (List.cons.inj blocks).1
  rw [blockFor, flow, if_neg (by decide), allowed, if_neg (by decide), column_]
  by_cases open_ : indent = column
  · rw [opens, indent_, open_, if_neg (by simp), entered, if_pos rfl, opening, if_pos rfl, ← open_]
    exact ⟨s, rfl, ⟨blocks, flow, loose, going, room⟩, rfl, rfl⟩
  · rw [opens, indent_, if_pos (by simp; omega), entered, if_neg open_, opening, if_neg open_]
    exact ⟨_, rfl, ⟨congrArg (List.cons _) blocks, flow, loose, going, room⟩, rfl, rfl⟩

end ApiModel.Yaml.Scan
