import ApiModel.Command.Files
import Mathlib.Data.List.Infix

namespace ApiModel.Command

/-- The second tree has the files of the first and its directories, and perhaps more directories. -/
structure Files.AddsDirs (before after : Files) : Prop where
  files : after.files = before.files
  dirs : before.dirs <+: after.dirs

namespace Files

variable {t after : Files} {p : Path} {names : List String} {bytes : List UInt8}

theorem AddsDirs.refl (t : Files) : t.AddsDirs t := ⟨rfl, List.prefix_refl _⟩

theorem AddsDirs.trans {between : Files} (first : t.AddsDirs between) (second : between.AddsDirs after) :
    t.AddsDirs after :=
  ⟨second.files.trans first.files, first.dirs.trans second.dirs⟩

theorem AddsDirs.bytes?_eq (adds : t.AddsDirs after) (names : List String) :
    after.bytes? names = t.bytes? names := by
  rw [bytes?, bytes?, adds.files]

theorem addsDirs_of_makeDir (made : t.makeDir p = .ok after) : t.AddsDirs after := by
  unfold makeDir at made
  split at made
  · contradiction
  · cases new : t.newNames p with
    | error e => simp [new, Except.map] at made
    | ok names =>
      simp only [new, Except.map, Except.ok.injEq] at made
      subst made
      exact ⟨rfl, List.prefix_append ..⟩
  · contradiction

theorem addsDirs_ensureDir (t : Files) (p : Path) : t.AddsDirs (t.ensureDir p).1 := by
  unfold ensureDir
  cases made : t.makeDir p with
  | ok after => exact addsDirs_of_makeDir made
  | error e =>
    dsimp only
    split
    · exact .refl t
    · exact .refl t

theorem addsDirs_ensureDirs (fuel : Nat) (t : Files) (p : Path) : t.AddsDirs (ensureDirs fuel t p).1 := by
  induction fuel generalizing t p with
  | zero => exact addsDirs_ensureDir t p
  | succ fuel ih =>
    unfold ensureDirs
    split
    · split
      · exact .refl t
      · have above := ih t p.parent
        split
        · rename_i between made
          rw [made] at above
          exact above.trans (addsDirs_ensureDir between p)
        · rename_i between e failed
          rw [failed] at above
          exact above
    · exact addsDirs_ensureDir t p

theorem find?_replaced (files : List (List String × List UInt8)) (names other : List String)
    (bytes : List UInt8) :
    ((files.map fun f => if f.1 = names then (names, bytes) else f).find? fun f => f.1 = other).map (·.2) =
      if other = names then (files.find? fun f => f.1 = names).map fun _ => bytes
      else (files.find? fun f => f.1 = other).map (·.2) := by
  induction files with
  | nil => simp
  | cons f files ih =>
    by_cases replaced : f.1 = names
    · by_cases same : other = names
      · simp [replaced, same]
      · have differs : names ≠ other := Ne.symm same
        simpa [replaced, same, differs] using ih
    · by_cases found : f.1 = other
      · have differs : other ≠ names := fun same => replaced (found.trans same)
        simp [found, differs]
      · simpa [replaced, found] using ih

theorem bytes?_put (t : Files) (names other : List String) (bytes : List UInt8) :
    (t.put names bytes).bytes? other = if other = names then some bytes else t.bytes? other := by
  unfold put
  by_cases known : (t.bytes? names).isSome
  · rw [if_pos known, bytes?, find?_replaced]
    obtain ⟨old, found⟩ := Option.isSome_iff_exists.1 known
    obtain ⟨f, first, -⟩ := Option.map_eq_some_iff.1 found
    rw [first]
    rfl
  · have absent : t.files.find? (fun f => f.1 = names) = none := by
      rw [Option.not_isSome_iff_eq_none] at known
      exact Option.map_eq_none_iff.1 known
    rw [if_neg known, bytes?, List.find?_append]
    by_cases same : other = names
    · subst same
      simp [absent]
    · have differs : names ≠ other := Ne.symm same
      simp [same, differs, bytes?]

@[simp] theorem dirs_put (t : Files) (names : List String) (bytes : List UInt8) :
    (t.put names bytes).dirs = t.dirs := by
  unfold put
  split
  · rfl
  · rfl

end Files

def Place.rewritten (names : List String) (bytes : List UInt8) : Place → Place
  | .directory inside => .directory inside
  | .file own old => .file own (if own = names then bytes else old)

namespace Files

variable {t after : Files} {p : Path} {names : List String} {bytes : List UInt8}

/-- A file can stand under some names: no directory does, unless there is a file already. -/
def AdmitsFile (t : Files) (names : List String) : Prop :=
  t.dirs.contains names = true → (t.bytes? names).isSome = true

theorem named_put (free : t.AdmitsFile names) (bytes : List UInt8) {own : List String} {q : Place}
    (known : t.named own = .ok q) : (t.put names bytes).named own = .ok (q.rewritten names bytes) := by
  unfold named at known ⊢
  rw [bytes?_put, dirs_put]
  cases old : t.bytes? own with
  | some bs =>
    simp only [old, Except.ok.injEq] at known
    subst known
    by_cases same : own = names
    · simp [same, Place.rewritten]
    · simp [same, Place.rewritten]
  | none =>
    simp only [old] at known
    split at known
    · rename_i directory
      cases known
      -- a directory that is no file does not become one
      have other : own ≠ names := by
        intro same
        have file := free (same ▸ directory)
        rw [← same, old] at file
        contradiction
      simp only [other, directory, if_true, if_false, Place.rewritten]
    · contradiction

theorem enter_put (free : t.AdmitsFile names) (bytes : List UInt8) {inside : List String} {piece : String}
    {q : Place} (entered : t.enter inside piece = .ok q) :
    (t.put names bytes).enter inside piece = .ok (q.rewritten names bytes) := by
  unfold enter at entered ⊢
  split
  · rename_i stays
    rw [if_pos stays] at entered
    cases entered
    rfl
  · rename_i leaves
    rw [if_neg leaves] at entered
    split
    · rename_i up
      rw [if_pos up] at entered
      cases entered
      rfl
    · rename_i down
      rw [if_neg down] at entered
      exact named_put free bytes entered

theorem walk_put (free : t.AdmitsFile names) (bytes : List UInt8) {place q : Place} {pieces : List String}
    (walked : t.walk place pieces = .ok q) :
    (t.put names bytes).walk (place.rewritten names bytes) pieces = .ok (q.rewritten names bytes) := by
  induction pieces generalizing place with
  | nil =>
    rw [walk] at walked ⊢
    cases walked
    rfl
  | cons piece pieces ih =>
    cases place with
    | file own old => contradiction
    | directory inside =>
      rw [walk] at walked
      cases entered : t.enter inside piece with
      | error e => simp [entered] at walked
      | ok next =>
        rw [entered] at walked
        rw [Place.rewritten, walk, enter_put free bytes entered]
        exact ih walked

theorem walk_append (t : Files) (place : Place) (pieces more : List String) :
    t.walk place (pieces ++ more) = t.walk place pieces >>= fun q => t.walk q more := by
  induction pieces generalizing place with
  | nil => cases more <;> rfl
  | cons piece pieces ih =>
    cases place with
    | file own old => rfl
    | directory inside =>
      rw [List.cons_append, walk, walk]
      cases t.enter inside piece with
      | error e => rfl
      | ok next => exact ih next

theorem named_absent_iff : t.named names = .error .absent ↔
    t.bytes? names = none ∧ t.dirs.contains names = false := by
  unfold named
  cases t.bytes? names with
  | some bs => simp
  | none =>
    cases t.dirs.contains names with
    | true => simp
    | false => simp

/-- Where a step leads nowhere, it is one down to a name that nothing has, and leads to what gets that
    name. -/
theorem enter_of_absent {inside : List String} {piece : String}
    (absent : t.enter inside piece = .error .absent) :
    t.named (inside ++ [piece]) = .error .absent ∧
      ∀ other : Files, other.enter inside piece = other.named (inside ++ [piece]) := by
  unfold enter at absent ⊢
  split at absent
  · contradiction
  · rename_i regular
    split at absent
    · contradiction
    · rename_i down
      refine ⟨absent, fun other => ?_⟩
      rw [if_neg regular, if_neg down]

theorem of_newNames (absent : t.find p = .error .absent) (new : t.newNames p = .ok names) :
    ∃ inside, t.find p.parent = .ok (.directory inside) ∧ names = inside ++ [p.name] ∧
      p.parts = p.parent.parts ++ [p.name] ∧ t.enter inside p.name = .error .absent := by
  unfold newNames at new
  cases held : t.find p.parent with
  | error e => simp [held] at new
  | ok place =>
    cases place with
    | file own old => simp [held] at new
    | directory inside =>
      simp only [held, Except.ok.injEq] at new
      have some : p.parts ≠ [] := by
        intro none
        simp [find, none, walk] at absent
      have parts : p.parts = p.parent.parts ++ [p.name] := by
        rw [Path.parent, Path.name, List.getLastD_eq_getLast?, List.getLast?_eq_some_getLast some]
        exact (List.dropLast_append_getLast some).symm
      refine ⟨inside, rfl, new.symm, parts, ?_⟩
      rw [find, parts, walk_append] at absent
      have start : p.parent.start = p.start := rfl
      rw [find, start] at held
      rw [held] at absent
      simp only [Bind.bind, Except.bind, walk] at absent
      cases entered : t.enter inside p.name with
      | error e =>
        rw [entered] at absent
        exact absent
      | ok place => simp [entered] at absent

theorem bytes?_of_enter {inside own : List String} {piece : String} {old : List UInt8}
    (entered : t.enter inside piece = .ok (.file own old)) : t.bytes? own = some old := by
  unfold enter at entered
  split at entered
  · cases entered
  · split at entered
    · cases entered
    · unfold named at entered
      split at entered
      · rename_i found
        cases entered
        exact found
      · split at entered
        · cases entered
        · cases entered

theorem bytes?_of_walk {inside own : List String} {pieces : List String} {old : List UInt8}
    (walked : t.walk (.directory inside) pieces = .ok (.file own old)) : t.bytes? own = some old := by
  induction pieces generalizing inside with
  | nil => simp [walk] at walked
  | cons piece pieces ih =>
    rw [walk] at walked
    cases entered : t.enter inside piece with
    | error e => simp [entered] at walked
    | ok next =>
      rw [entered] at walked
      cases next with
      | directory below => exact ih walked
      | file below bs =>
        cases pieces with
        | cons piece pieces => contradiction
        | nil =>
          cases walked
          exact bytes?_of_enter entered

theorem of_write (written : t.write p bytes = .ok after) :
    ∃ names, after = t.put names bytes ∧ after.find p = .ok (.file names bytes) := by
  unfold write at written
  split at written
  · rename_i names old found
    cases written
    have known : t.bytes? names = some old := bytes?_of_walk found
    have free : t.AdmitsFile names := fun _ => by rw [known]; rfl
    have place := walk_put free bytes found
    rw [Place.rewritten, Place.rewritten, if_pos rfl] at place
    exact ⟨names, rfl, place⟩
  · contradiction
  · rename_i absent
    cases new : t.newNames p with
    | error e => simp [new, Except.map] at written
    | ok names =>
      simp only [new, Except.map, Except.ok.injEq] at written
      obtain ⟨inside, held, rfl, parts, missing⟩ := of_newNames absent new
      obtain ⟨nothing, enters⟩ := enter_of_absent missing
      obtain ⟨noFile, noDir⟩ := named_absent_iff.1 nothing
      have free : t.AdmitsFile (inside ++ [p.name]) := by
        intro directory
        rw [noDir] at directory
        contradiction
      have above := walk_put free bytes held
      rw [Place.rewritten, Place.rewritten, written] at above
      refine ⟨inside ++ [p.name], written.symm, ?_⟩
      have start : p.parent.start = p.start := rfl
      rw [find, parts, walk_append, ← start, above]
      show after.walk (.directory inside) [p.name] = _
      rw [walk, enters after, named, ← written, bytes?_put, if_pos rfl]
      rfl
  · contradiction

end Files

end ApiModel.Command
