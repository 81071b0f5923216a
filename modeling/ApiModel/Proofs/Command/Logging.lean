import ApiModel.Command.Run

namespace ApiModel.Command

structure SameButLog {α : Type} (e e' : Ending α) : Prop where
  files : e.files = e'.files
  lines : e.lines = e'.lines
  result : e.result = e'.result

theorem shown_warning (notes : List Note) : Action.shown .warning notes = [] := by
  apply List.filter_eq_nil_iff.2
  intro n _
  cases n <;> simp [Note.level, Level.rank]

namespace Action

variable {α β : Type}

structure Blind (x : Action α) : Prop where
  alike : ∀ level level' t, SameButLog (x level t) (x level' t)
  silent : ∀ t, (x .warning t).log = []

theorem Blind.bind {x : Action α} {f : α → Action β} (first : x.Blind) (second : ∀ a, (f a).Blind) :
    (x >>= f).Blind := by
  constructor
  · intro level level' t
    have before := first.alike level level' t
    cases ended : (x level t).result with
    | error e =>
      have ended' : (x level' t).result = .error e := before.result ▸ ended
      rw [bind_of_error ended, bind_of_error ended']
      exact ⟨before.files, before.lines, rfl⟩
    | ok a =>
      have ended' : (x level' t).result = .ok a := before.result ▸ ended
      have after := (second a).alike level level' (x level' t).files
      rw [bind_of_ok ended, bind_of_ok ended', before.files, before.lines]
      exact ⟨after.files, congrArg ((x level' t).lines ++ ·) after.lines, after.result⟩
  · intro t
    cases ended : (x .warning t).result with
    | error e =>
      rw [bind_of_error ended]
      exact first.silent t
    | ok a =>
      rw [bind_of_ok ended, first.silent, (second a).silent]
      rfl

theorem blind_of_const {f : Files → Ending α} (quiet : ∀ t, (f t).log = []) : Blind fun _ t => f t :=
  ⟨fun _ _ _ => ⟨rfl, rfl, rfl⟩, quiet⟩

theorem blind_print (lines : List Str) : (print lines).Blind := blind_of_const fun _ => rfl

theorem blind_stop (s : Stop) : (stop s : Action α).Blind := blind_of_const fun _ => rfl

theorem blind_ofExcept (x : Except Stop α) : (ofExcept x).Blind := blind_of_const fun _ => rfl

theorem blind_look (f : Files → Except Stop α) : (look f).Blind := blind_of_const fun _ => rfl

theorem blind_change (f : Files → Files × Except Stop Unit) : (change f).Blind := blind_of_const fun _ => rfl

theorem blind_note (n : Note) : (note n).Blind := ⟨fun _ _ _ => ⟨rfl, rfl, rfl⟩, fun _ => shown_warning _⟩

/-- The notes of a translation are shown after the fact; its result is there without them. -/
theorem blind_ofTraced (x : Traced α) : (ofTraced x).Blind :=
  ⟨fun _ _ _ => ⟨rfl, rfl, rfl⟩, fun _ => shown_warning _⟩

end Action

theorem blind_modelOf (path : Path) : (modelOf path).Blind := by
  apply (Action.blind_look _).bind
  intro bytes
  apply (Action.blind_ofExcept _).bind
  intro format
  split
  · exact Action.blind_stop (.message (unsupported path format))
  apply (Action.blind_ofExcept _).bind
  intro d
  apply (Action.blind_note _).bind
  intro _
  exact Action.blind_ofTraced _

theorem blind_build (path output : Path) (format : FileFormat) : (build path output format).Blind := by
  apply (Action.blind_print _).bind
  intro _
  apply (blind_modelOf path).bind
  intro m
  apply (Action.blind_print _).bind
  intro _
  apply (Action.blind_change _).bind
  intro _
  apply (Action.blind_ofExcept _).bind
  intro _
  apply (Action.blind_change _).bind
  intro _
  exact Action.blind_print _

theorem blind_describe (path : Path) : (describe path).Blind := by
  apply (blind_modelOf path).bind
  intro m
  exact Action.blind_print _

structure Outcome.ShowsMore (quiet loud : Outcome) : Prop where
  exitCode : loud.exitCode = quiet.exitCode
  stdout : loud.stdout = quiet.stdout
  files : loud.files = quiet.files
  failure : loud.failure = quiet.failure
  stderr : ∃ notes : List Note, loud.stderr = unlines (notes.map Note.line) ++ quiet.stderr

theorem Outcome.ShowsMore.refl (o : Outcome) : o.ShowsMore o := by
  refine ⟨rfl, rfl, rfl, rfl, [], ?_⟩
  simp [unlines]

theorem Action.Blind.showsMore {x : Action Unit} (blind : x.Blind) (t : Files) :
    (x .warning t).outcome.ShowsMore (x .debug t).outcome := by
  have alike := blind.alike .debug .warning t
  have silent := blind.silent t
  unfold Ending.outcome
  rw [alike.files, alike.lines, alike.result, silent]
  -- the same end is described twice, with more notes the first time
  rcases (x .warning t).result with (text | failure) | _
  all_goals
    refine ⟨rfl, rfl, rfl, rfl, (x .debug t).log, ?_⟩
    simp [unlines, String.append_assoc]

/-- With the option in front of its name a command is asked for the same job, or misused in the same way. -/
theorem readRequest_verbose {command : String} (known : command ∈ commandNames.map (·.1))
    (words : List String)
    (t : Files) : ∃ asked : Except Misuse Job,
      readRequest t (command :: words) = asked.map (Request.mk false) ∧
      readRequest t ("-v" :: command :: words) = asked.map (Request.mk true) := by
  have named (topic : Topic) (found : commandNames.find? (·.1 = command) = some (command, topic))
      (verbose : Bool) : readCommand t verbose command words =
        ((readJob t topic words).mapError (topic, ·)).map (Request.mk verbose) := by
    simp only [readCommand, found]
    cases readJob t topic words <;> rfl
  -- the option is taken apart by evaluation once the name that follows is known
  simp only [commandNames, List.map_cons, List.map_nil, List.mem_cons, List.not_mem_nil, or_false] at known
  rcases known with rfl | rfl
  · exact ⟨_, named .build rfl false, named .build rfl true⟩
  · exact ⟨_, named .describe rfl false, named .describe rfl true⟩

/-- The option that shows notes only shows notes: put in front of the name of a command, it leaves what the
    command prints, writes and ends with as it is, whatever words follow and whatever files are there. -/
theorem run_verbose {command : String} (known : command ∈ commandNames.map (·.1)) (words : List String)
    (t : Files) : (run (command :: words) t).ShowsMore (run ("-v" :: command :: words) t) := by
  obtain ⟨asked, quiet, loud⟩ := readRequest_verbose known words t
  unfold run
  rw [quiet, loud]
  rcases asked with misuse | topic | ⟨path, output, format⟩ | path
  · exact .refl _
  · exact .refl _
  · exact (blind_build path output format).showsMore t
  · exact (blind_describe path).showsMore t

/-- A directory with one file, which describes an API with a single operation that has no place in a model. -/
def headApi : Files := ⟨[], [(["d.yaml"], Text.encodeUtf8
  ("swagger: '2.0'\ninfo: \x7btitle: x\x7d\npaths: ".toList ++
    "\x7b/p: \x7bhead: \x7bresponses: \x7b\x7d\x7d\x7d\x7d\n".toList))]⟩

/-- What was left out is said beside what is printed, which is the same without it. -/
theorem headApi_verbose :
    (run ["-v", "describe", "d.yaml"] headApi).stderr =
      unlines ([.parsed "x" 1 0, .notModelled "HEAD" "/p", .built "x" 0 0].map Note.line) ∧
    (run ["-v", "describe", "d.yaml"] headApi).stdout = unlines ["# x", "", "## Types", "", "## Methods"] ∧
    (run ["describe", "d.yaml"] headApi).stdout = unlines ["# x", "", "## Types", "", "## Methods"] := by
  have asked : readRequest headApi ["-v", "describe", "d.yaml"] =
      .ok ⟨true, .describe (.ofText "d.yaml")⟩ := rfl
  have ran : run ["-v", "describe", "d.yaml"] headApi =
      (describe (.ofText "d.yaml") .debug headApi).outcome := by
    unfold run
    rw [asked, if_neg (by decide)]
    rfl
  have ended : (describe (.ofText "d.yaml") .debug headApi).log =
        [.parsed "x" 1 0, .notModelled "HEAD" "/p", .built "x" 0 0] ∧
      (describe (.ofText "d.yaml") .debug headApi).lines = ["# x", "", "## Types", "", "## Methods"] ∧
      (describe (.ofText "d.yaml") .debug headApi).outcome.exitCode = 0 := by
    decide +kernel
  have known : "describe" ∈ commandNames.map (·.1) := by decide
  have more := run_verbose known ["d.yaml"] headApi
  obtain ⟨log, lines, done⟩ := ended
  have loud := Ending.outcome_of_ok (Ending.outcome_exitCode_eq_zero_iff.1 done)
  rw [log, lines, ← ran] at loud
  rw [← more.stdout, loud]
  exact ⟨rfl, rfl, rfl⟩

end ApiModel.Command
