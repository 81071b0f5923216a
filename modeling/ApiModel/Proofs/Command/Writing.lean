import ApiModel.Command.Run
import ApiModel.Proofs.Command.Files

namespace ApiModel.Command

namespace Action

variable {α β : Type}

/-- From a tree the action ends as said: with a result and the files that it leaves, or early with its
    files. -/
def Ends (x : Action α) (t : Files) (success : α → Files → Prop) (stopped : Files → Prop) : Prop :=
  ∀ level, match (x level t).result with
    | .ok a => success a (x level t).files
    | .error _ => stopped (x level t).files

variable {t : Files} {success : α → Files → Prop} {stopped : Files → Prop}

theorem Ends.bind {x : Action α} {f : α → Action β} {finished : β → Files → Prop}
    (first : x.Ends t success stopped)
    (second : ∀ a between, success a between → (f a).Ends between finished stopped) :
    (x >>= f).Ends t finished stopped := by
  intro level
  have before := first level
  cases ended : (x level t).result with
  | error e =>
    rw [ended] at before
    rw [bind_of_error ended]
    exact before
  | ok a =>
    rw [ended] at before
    rw [bind_of_ok ended]
    exact second a _ before level

theorem ends_print (t : Files) (lines : List Str) :
    (print lines).Ends t (fun _ after => after = t) (fun after => after = t) := by
  intro level
  unfold print
  cases (printable lines).2 <;> rfl

theorem ends_print_whole (t : Files) (line : String) :
    (print [line]).Ends t (fun _ after => after = t) stopped := by
  intro level
  simp only [print, printable, Str.encode_coe]

theorem ends_note (t : Files) (n : Note) : (note n).Ends t (fun _ after => after = t) stopped := fun _ => rfl

theorem ends_ofExcept (t : Files) (x : Except Stop α) :
    (ofExcept x).Ends t (fun a after => x = .ok a ∧ after = t) (fun after => after = t) := by
  intro level
  cases x with
  | error e => rfl
  | ok a => exact ⟨rfl, rfl⟩

theorem ends_ofOption (t : Files) (f : Failure) (x : Option α) :
    (ofOption f x).Ends t (fun a after => x = some a ∧ after = t) (fun after => after = t) := by
  cases x with
  | none => exact fun _ => rfl
  | some a => exact fun _ => ⟨rfl, rfl⟩

theorem ends_look (t : Files) (f : Files → Except Stop α) :
    (look f).Ends t (fun a after => f t = .ok a ∧ after = t) (fun after => after = t) :=
  ends_ofExcept t (f t)

theorem ends_change (t : Files) (f : Files → Files × Except Stop Unit) :
    (change f).Ends t (fun _ after => f t = (after, .ok ())) (fun after => ∃ e, f t = (after, .error e)) := by
  intro level
  unfold change
  rcases f t with ⟨after, e | a⟩
  · exact ⟨e, rfl⟩
  · rfl

theorem ends_ofTraced (t : Files) (x : Traced α) :
    (ofTraced x).Ends t (fun a after => x.result = .ok a ∧ after = t) (fun after => after = t) := by
  intro level
  unfold ofTraced
  cases x.result with
  | error e => rfl
  | ok a => exact ⟨rfl, rfl⟩

theorem Ends.mono {x : Action α} {success' : α → Files → Prop} {stopped' : Files → Prop}
    (ends : x.Ends t success stopped) (more : ∀ a after, success a after → success' a after)
    (also : ∀ after, stopped after → stopped' after) : x.Ends t success' stopped' := by
  intro level
  have known := ends level
  cases ended : (x level t).result with
  | error e =>
    rw [ended] at known
    exact also _ known
  | ok a =>
    rw [ended] at known
    exact more a _ known

end Action

theorem eq_ok_of_mapError {ε ε' α : Type} {x : Except ε α} {f : ε → ε'} {a : α}
    (result : x.mapError f = .ok a) : x = .ok a := by
  cases x with
  | error e => contradiction
  | ok b => exact congrArg Except.ok (Except.ok.inj result)

namespace Files

def HoldsModel (t : Files) (path : Path) (m : Model) : Prop :=
  ∃ bytes d, t.read path = .ok bytes ∧ Document.load bytes = .ok d ∧ d.toModel.result = .ok m

/-- The file under a path has some bytes, and every other file is as it was before. -/
def Gets (before : Files) (p : Path) (bytes : List UInt8) (after : Files) : Prop :=
  ∃ names, after.find p = .ok (.file names bytes) ∧
    ∀ other, other ≠ names → after.bytes? other = before.bytes? other

theorem gets_of_write {t after : Files} {p : Path} {bytes : List UInt8}
    (written : t.write p bytes = .ok after) : t.Gets p bytes after := by
  obtain ⟨names, put, found⟩ := of_write written
  refine ⟨names, found, fun other differs => ?_⟩
  rw [put, bytes?_put, if_neg differs]

end Files

theorem ends_modelOf (t : Files) (path : Path) :
    (modelOf path).Ends t (fun m after => t.HoldsModel path m ∧ after = t) (fun after => after = t) := by
  apply (Action.ends_look t _).bind
  rintro bytes _ ⟨read, rfl⟩
  apply (Action.ends_ofExcept _ _).bind
  rintro format _ ⟨-, rfl⟩
  split
  -- a description in another format stops the command before anything is loaded
  · intro level
    rfl
  apply (Action.ends_ofExcept _ _).bind
  rintro d _ ⟨loaded, rfl⟩
  apply (Action.ends_note _ _).bind
  rintro _ _ rfl
  apply (Action.ends_ofTraced _ _).mono
  · rintro m _ ⟨built, rfl⟩
    exact ⟨⟨bytes, d, eq_ok_of_mapError read, eq_ok_of_mapError loaded, built⟩, rfl⟩
  · exact fun _ same => same

theorem ends_ensureDirs (t : Files) (p : Path) :
    (ensureDirs p).Ends t (fun _ after => t.AddsDirs after) (fun after => t.AddsDirs after) := by
  have adds := Files.addsDirs_ensureDirs (p.parts.length + 1) t p
  apply (Action.ends_change t _).mono
  · intro _ after made
    have left : (Files.ensureDirs (p.parts.length + 1) t p).1 = after := congrArg Prod.fst made
    exact left ▸ adds
  · rintro after ⟨e, made⟩
    have left : (Files.ensureDirs (p.parts.length + 1) t p).1 = after := congrArg Prod.fst made
    exact left ▸ adds

theorem ends_writeText (t : Files) (p : Path) (text : Str) :
    (writeText p text).Ends t
      (fun _ after => ∃ file : String, text = file ∧ t.Gets p (Text.encodeUtf8 file.toList) after)
      (fun after => after = t ∨ text.hasHalf = true ∧ t.Gets p [] after) := by
  apply (Action.ends_change t _).mono
  · intro _ after made
    cases written : t.write p ((text.chars?.map Text.encodeUtf8).getD []) with
    | error e => simp [written] at made
    | ok last =>
      simp only [written, Prod.mk.injEq] at made
      obtain ⟨rfl, encoded⟩ := made
      cases whole : text.encode with
      | error e =>
        rw [whole] at encoded
        contradiction
      | ok cs =>
        have same := Str.encode_eq_ok_iff.1 whole
        refine ⟨String.ofList cs, same, ?_⟩
        rw [same, Str.chars?_coe] at written
        exact Files.gets_of_write written
  · rintro after ⟨e, made⟩
    cases written : t.write p ((text.chars?.map Text.encodeUtf8).getD []) with
    | error e =>
      simp only [written, Prod.mk.injEq] at made
      exact .inl made.1.symm
    | ok last =>
      simp only [written, Prod.mk.injEq] at made
      obtain ⟨rfl, failed⟩ := made
      -- the file is open by the time the text turns out to be none that can be written
      cases torn : text.chars? with
      | some cs =>
        rw [Str.chars?_eq_some_iff.1 torn, Str.encode_coe] at failed
        contradiction
      | none =>
        rw [torn] at written
        exact .inr ⟨Str.chars?_eq_none_iff.1 torn, Files.gets_of_write written⟩

/-- The file under a path holds a model of a document, and every other file is as it was before. -/
def Files.GetsModel (before : Files) (path output : Path) (format : FileFormat) (after : Files) : Prop :=
  ∃ m, ∃ file : String, before.HoldsModel path m ∧ m.render format = some (file : Str) ∧
    before.Gets output (Text.encodeUtf8 file.toList) after

/-- The file under a path is empty instead of holding the model of a document, whose text has a half of a
    pair; every other file is as it was before. -/
def Files.LosesModel (before : Files) (path output : Path) (format : FileFormat) (after : Files) : Prop :=
  ∃ m text, before.HoldsModel path m ∧ m.render format = some text ∧ text.hasHalf = true ∧
    before.Gets output [] after

theorem Files.AddsDirs.gets {t between after : Files} {p : Path} {bytes : List UInt8}
    (adds : t.AddsDirs between) (gets : between.Gets p bytes after) : t.Gets p bytes after := by
  obtain ⟨names, found, others⟩ := gets
  exact ⟨names, found, fun other differs => (others other differs).trans (adds.bytes?_eq other)⟩

theorem ends_build (t : Files) (path output : Path) (format : FileFormat) :
    (build path output format).Ends t (fun _ after => t.GetsModel path output format after)
      (fun after => t.AddsDirs after ∨ t.LosesModel path output format after) := by
  have keeps {after : Files} (same : after = t) :
      t.AddsDirs after ∨ t.LosesModel path output format after := .inl (same ▸ .refl t)
  apply (Action.ends_print_whole t _).bind
  rintro _ _ rfl
  apply ((ends_modelOf _ path).mono (fun _ _ known => known) fun _ => keeps).bind
  rintro m _ ⟨model, rfl⟩
  apply (Action.ends_print_whole _ _).bind
  rintro _ _ rfl
  -- from here on directories may be there that were not before, so files are compared by their bytes
  apply ((ends_ensureDirs _ output.parent).mono (fun _ _ known => known) fun _ => .inl).bind
  intro _ between adds
  replace keeps {after : Files} (same : after = between) := same ▸ adds
  apply ((Action.ends_ofOption between _ _).mono (fun _ _ known => known)
    fun _ same => .inl (keeps same)).bind
  rintro text _ ⟨rendered, rfl⟩
  apply ((ends_writeText _ output _).mono (fun _ _ known => known) ?_).bind
  · rintro _ after ⟨file, rfl, gets⟩
    apply (Action.ends_print_whole after _).mono
    · rintro _ _ rfl
      exact ⟨m, file, model, rendered, adds.gets gets⟩
    · exact fun _ impossible => impossible
  · rintro after (same | ⟨torn, gets⟩)
    · exact .inl (keeps same)
    · exact .inr ⟨m, text, model, rendered, torn, adds.gets gets⟩

theorem ends_describe (t : Files) (path : Path) :
    (describe path).Ends t (fun _ after => after = t) (fun after => after = t) := by
  apply (ends_modelOf t path).bind
  rintro m _ ⟨-, rfl⟩
  exact Action.ends_print _ _

def Job.Leaves (t : Files) : Job → Files → Prop
  | .help _, after => after = t
  | .describe _, after => after = t
  | .build path output format, after => t.GetsModel path output format after

theorem Action.Ends.outcome {x : Action Unit} {t : Files} {success : Files → Prop} {stopped : Files → Prop}
    (ends : x.Ends t (fun _ after => success after) stopped) (level : Level) :
    ((x level t).outcome.exitCode = 0 → (x level t).outcome.failure = none ∧
      success (x level t).outcome.files) ∧
    ((x level t).outcome.exitCode ≠ 0 → stopped (x level t).outcome.files) := by
  have known := ends level
  rw [ne_eq, Ending.outcome_exitCode_eq_zero_iff, Ending.outcome_files]
  cases ended : (x level t).result with
  | error e =>
    rw [ended] at known
    exact ⟨fun done => by contradiction, fun _ => known⟩
  | ok done =>
    rw [ended] at known
    rw [Ending.outcome_of_ok ended]
    exact ⟨fun _ => ⟨rfl, known⟩, fun failed => absurd rfl failed⟩

/-- A run that ends with a fault touches no file, and leaves at most directories that it had made, unless it
    is a `build` command that had the text of the model and could not write it: then the file of its output
    is empty. A run that ends well has done a job: a `build` command has put the model of the document, as it
    was before, into the file of its output and touched no other; nothing else changes anything, however it
    ends. -/
theorem run_all_or_emptied (args : List String) (t : Files) :
    ((run args t).exitCode ≠ 0 → t.AddsDirs (run args t).files ∨
      ∃ verbose path output format, readRequest t args = .ok ⟨verbose, .build path output format⟩ ∧
        t.LosesModel path output format (run args t).files) ∧
    ((run args t).exitCode = 0 → (run args t).failure = none ∧
      ∃ request, readRequest t args = .ok request ∧ request.job.Leaves t (run args t).files) ∧
    ((∀ verbose path output format, readRequest t args ≠ .ok ⟨verbose, .build path output format⟩) →
      (run args t).files = t) := by
  unfold run
  split
  · exact ⟨fun _ => .inl (.refl t), fun zero => absurd zero (Nat.succ_ne_zero 1), fun _ => rfl⟩
  · cases asked : readRequest t args with
    | error misuse =>
      exact ⟨fun _ => .inl (.refl t), fun zero => absurd zero (Nat.succ_ne_zero 1), fun _ => rfl⟩
    | ok request =>
      obtain ⟨verbose, job⟩ := request
      cases job with
      | help topic => exact ⟨fun _ => .inl (.refl t), fun _ => ⟨rfl, _, rfl, rfl⟩, fun _ => rfl⟩
      | build path output format =>
        obtain ⟨success, stopped⟩ := (ends_build t path output format).outcome (logLevel verbose)
        refine ⟨fun failed => (stopped failed).imp_right fun lost => ⟨_, _, _, _, rfl, lost⟩,
          fun zero => ?_, fun other => absurd rfl (other verbose path output format)⟩
        obtain ⟨none, leaves⟩ := success zero
        exact ⟨none, _, rfl, leaves⟩
      | describe path =>
        obtain ⟨success, stopped⟩ := (ends_describe t path).outcome (logLevel verbose)
        have same : (describe path (logLevel verbose) t).outcome.files = t := by
          by_cases zero : (describe path (logLevel verbose) t).outcome.exitCode = 0
          · exact (success zero).2
          · exact stopped zero
        refine ⟨fun _ => .inl ?_, fun zero => ⟨(success zero).1, _, rfl, same⟩, fun _ => same⟩
        dsimp only
        rw [same]
        exact .refl t

def emptyApi (title : String) : Files := ⟨[], [
  (["d.yaml"], Text.encodeUtf8 ("swagger: '2.0'\ninfo: \x7btitle: ".toList ++ title.toList ++
    "\x7d\npaths: \x7b\x7d\n".toList)),
  (["out.json"], Text.encodeUtf8 "old".toList)]⟩

/-- The model takes the place of its own document; and where the output turns out to be a directory only the
    directories on the way to it are left. -/
theorem emptyApi_all_or_emptied :
    (emptyApi "x").GetsModel (.ofText "d.yaml") (.ofText "d.yaml") .json
      (run ["build", "d.yaml", "-o", "d.yaml"] (emptyApi "x")).files ∧
    (run ["build", "d.yaml", "-o", "a/b/.."] (emptyApi "x")).files.dirs = [["a"], ["a", "b"]] ∧
    (run ["build", "d.yaml", "-o", "a/b/.."] (emptyApi "x")).files.files = (emptyApi "x").files := by
  have built : (run ["build", "d.yaml", "-o", "d.yaml"] (emptyApi "x")).exitCode = 0 := by decide +kernel
  have asked : readRequest (emptyApi "x") ["build", "d.yaml", "-o", "d.yaml"] =
      .ok ⟨false, .build (.ofText "d.yaml") (.ofText "d.yaml") .json⟩ := rfl
  obtain ⟨-, request, read, leaves⟩ := (run_all_or_emptied _ (emptyApi "x")).2.1 built
  cases Except.ok.inj (asked.symm.trans read)
  have failed : (run ["build", "d.yaml", "-o", "a/b/.."] (emptyApi "x")).exitCode ≠ 0 ∧
      (run ["build", "d.yaml", "-o", "a/b/.."] (emptyApi "x")).files.dirs = [["a"], ["a", "b"]] ∧
      (run ["build", "d.yaml", "-o", "a/b/.."] (emptyApi "x")).files.isDir (.ofText "a/b/..") = true := by
    decide +kernel
  have asked : readRequest (emptyApi "x") ["build", "d.yaml", "-o", "a/b/.."] =
      .ok ⟨false, .build (.ofText "d.yaml") (.ofText "a/b/..") .json⟩ := rfl
  refine ⟨leaves, failed.2.1, ?_⟩
  rcases (run_all_or_emptied _ (emptyApi "x")).1 failed.1 with nothing | ⟨_, _, _, _, read, lost⟩
  · exact nothing.files
  · cases Except.ok.inj (asked.symm.trans read)
    obtain ⟨m, text, -, -, -, names, found, -⟩ := lost
    have directory := failed.2.2
    simp [Files.isDir, found] at directory

/-- A title of the two halves of a pair is read, and cannot be written. -/
theorem emptyApi_emptied :
    (emptyApi "\"\\ud83d\\ude00\"").bytes? ["out.json"] = some (Text.encodeUtf8 "old".toList) ∧
    (run ["build", "d.yaml", "-o", "out.json"] (emptyApi "\"\\ud83d\\ude00\"")).exitCode = 1 ∧
    (run ["build", "d.yaml", "-o", "out.json"] (emptyApi "\"\\ud83d\\ude00\"")).files.bytes? ["out.json"] =
      some [] := by
  decide +kernel

end ApiModel.Command
