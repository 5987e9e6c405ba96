import RubyLex.Command.Tokenize
import RubyLex.Proofs.Cutting
import RubyLex.Proofs.Loading

/-!
# What a listing of tokens comes to

The command checks its arguments, loads its inputs in order, and lists what it loaded.  It fails if
a check fails or an input is not loaded, and then it reports the first of these `faults`.  Else it
gives a result that depends on the format and on what the inputs are loaded as, and on nothing else.
-/

namespace RubyLex.Command.Tokenize

variable {args : Tokenize} {w : World} {format : Format} {failure : Failure}

/-! ## Checks -/

/-- The name of the format that counts: the one that was asked for, or else the configured one. -/
def formatName (args : Tokenize) : String :=
  args.format?.getD args.configuredFormat

/-- The number of jobs that counts: the one that was asked for, or else the configured one. -/
def jobs (args : Tokenize) : Nat :=
  args.jobs?.getD args.configuredJobs

/-- How a format without a meaning is reported, by where its name was given. -/
def formatFailure (args : Tokenize) : Failure :=
  args.format?.elim (.invalidConfiguredFormat args.configuredFormat) .unknownFormat

/-- The checks on the values that count. -/
theorem validate_eq (args : Tokenize) :
    args.validate =
      if args.inputs = [] then .error .noInputs
      else
        match Format.ofName? args.formatName with
        | none => .error args.formatFailure
        | some format => if args.jobs = 0 then .error .zeroJobs else .ok (format, args.jobs) := by
  have hresolve : Format.resolve args.format? args.configuredFormat =
      (Format.ofName? args.formatName).elim (.error args.formatFailure) .ok := by
    unfold formatName formatFailure
    cases args.format? <;> rfl
  rw [validate, hresolve]
  cases Format.ofName? args.formatName <;> rfl

/-- Arguments that are in order pass the checks. -/
theorem validate_of_inOrder (hinputs : args.inputs ≠ [])
    (hformat : Format.ofName? args.formatName = some format) (hjobs : 1 ≤ args.jobs) :
    args.validate = .ok (format, args.jobs) := by
  rw [validate_eq, if_neg hinputs, hformat]
  exact if_neg (Nat.ne_of_gt hjobs)

/-! ## Runs -/

/-- The state in which the inputs are loaded: the start has been reported. -/
def started (args : Tokenize) (format : Format) (w : World) : World :=
  { w with log := w.log ++ [.startTokenize args.inputs.length format args.jobs] }

/-- Arguments that are in order: the inputs are loaded, and what was loaded is listed. -/
theorem run_execute_of_ok (h : args.validate = .ok (format, args.jobs)) (w : World) :
    args.execute.run w =
      match (Source.loadAll args.inputs).run (args.started format w) with
      | .ok sources after => .ok (result format (sources.map listing))
          { after with log := after.log ++ sources.flatMap events }
      | .error failure after => .error failure after := by
  have hstarted : args.execute.run w =
      (Source.loadAll args.inputs >>= fun sources ↦
        Session.report (sources.flatMap events) >>= fun _ ↦
          pure (result format (sources.map listing))).run (args.started format w) := by
    rw [execute, h]
    rfl
  rw [hstarted, EStateM.run_bind]
  cases (Source.loadAll args.inputs).run (args.started format w) <;> rfl

/-- Arguments that are in order: if every input is loaded, the result is that of what was loaded. -/
theorem run_execute_of_outcomes {sources : List Source}
    (h : args.validate = .ok (format, args.jobs))
    (hload : Source.outcomes w.files w.input args.inputs = sources.map .ok) :
    ∃ after, args.execute.run w = .ok (result format (sources.map listing)) after := by
  obtain ⟨after, hrun⟩ := (Source.loadAll_ok_iff (w := args.started format w)).mpr hload
  refine ⟨{ after with log := after.log ++ sources.flatMap events }, ?_⟩
  rw [run_execute_of_ok h, hrun]

/-- The warnings name the sources that consist of blanks. -/
theorem warnings_result (format : Format) (sources : List Source) :
    (result format (sources.map listing)).warnings =
      (sources.filter fun s ↦ Blanks s.content.toList).map
        fun s ↦ s.name ++ " produced no tokens" := by
  have hempty (s : Source) : (listing s).tokens.isEmpty = decide (Blanks s.content.toList) := by
    rw [listing, tokenize_eq_tokens, Bool.eq_iff_iff, List.isEmpty_iff, tokens_eq_nil_iff,
      decide_eq_true_iff]
  rw [Result.warnings, result, List.filter_map, List.map_map, List.map_map]
  simp only [Function.comp_def, hempty]
  rfl

/-- A format that was asked for hides the configured one, whatever that is. -/
theorem execute_configuredFormat (h : args.format?.isSome) (configuredFormat : String) :
    execute { args with configuredFormat } = args.execute := by
  obtain ⟨name, hname⟩ := Option.isSome_iff_exists.mp h
  simp [execute, validate, hname, Format.resolve]

/-- A number of jobs that was asked for hides the configured one, whatever that is. -/
theorem execute_configuredJobs (h : args.jobs?.isSome) (configuredJobs : Nat) :
    execute { args with configuredJobs } = args.execute := by
  obtain ⟨n, hn⟩ := Option.isSome_iff_exists.mp h
  simp [execute, validate, hn]

/-- If the arguments are in order and every input is loaded, the command gives the listing of all
inputs in order, counts them and their tokens, and warns of those that consist of blanks.  The
number of jobs does not show in the result, and what is configured only counts where nothing was
asked for. -/
theorem execute_lists_every_input (args : Tokenize) (w : World) {format : Format}
    {sources : List Source} (hinputs : args.inputs ≠ [])
    (hformat : Format.ofName? args.formatName = some format) (hjobs : 1 ≤ args.jobs)
    (hload : Source.outcomes w.files w.input args.inputs = sources.map .ok) :
    ∃ r : Result, (∃ after, args.execute.run w = .ok r after) ∧
      sources.map Source.name = args.inputs.map Source.listedName ∧
      r.text = Listing.render format (sources.map fun s ↦ ⟨s.name, tokenize s.content⟩) ∧
      r.sources = args.inputs.length ∧
      r.tokens = (sources.map fun s ↦ (tokenize s.content).length).sum ∧
      r.warnings = (sources.filter fun s ↦ Blanks s.content.toList).map
        (fun s ↦ s.name ++ " produced no tokens") ∧
      (∀ jobs? configuredJobs, 1 ≤ jobs?.getD configuredJobs →
        ∃ after, (execute { args with jobs?, configuredJobs }).run w = .ok r after) ∧
      (args.format?.isSome → ∀ configuredFormat,
        execute { args with configuredFormat } = args.execute) ∧
      (args.jobs?.isSome → ∀ configuredJobs,
        execute { args with configuredJobs } = args.execute) := by
  have hnames := Source.map_name_of_outcomes hload
  have hlength : sources.length = args.inputs.length := by
    simpa using congrArg List.length hnames
  refine ⟨result format (sources.map listing),
    run_execute_of_outcomes (validate_of_inOrder hinputs hformat hjobs) hload, hnames, rfl, ?_, ?_,
    warnings_result format sources, ?_, execute_configuredFormat, execute_configuredJobs⟩
  · simp [result, hlength]
  · simp [result, List.length_flatMap, Function.comp_def, listing]
  · intro jobs? configuredJobs hjobs'
    have hvalid : validate { args with jobs?, configuredJobs } =
        .ok (format, jobs?.getD configuredJobs) :=
      validate_of_inOrder hinputs hformat hjobs'
    exact run_execute_of_outcomes hvalid hload

/-- A directory with a source in it, and blanks on standard input. -/
def oneSource : World where
  files := ⟨[(["a.rb"], .file (Utf8.encode "@@x".toList))], []⟩
  input := Utf8.encode " \n".toList
  output := ""
  log := []

/-- A source that is named twice, and standard input, of which nothing is left the second time. -/
theorem execute_lists_every_input_twice :
    let args : Tokenize :=
      ⟨[⟨"a.rb"⟩, ⟨"-"⟩, ⟨"./a.rb"⟩, ⟨"-"⟩], none, some "TSV", none, false, "xml", 3⟩
    ∃ r : Result, (∃ after, args.execute.run oneSource = .ok r after) ∧
      r.text = "a.rb\tAT_AT\t@@\na.rb\tWORD\tx\n./a.rb\tAT_AT\t@@\n./a.rb\tWORD\tx\n" ∧
      r.sources = 4 ∧ r.tokens = 4 ∧
      r.warnings = ["<stdin> produced no tokens", "<stdin> produced no tokens"] ∧
      ∃ after, (execute { args with jobs? := some 9 }).run oneSource = .ok r after := by
  intro args
  have hformat : Format.ofName? args.formatName = some .plain := by decide +kernel
  have hload : Source.outcomes oneSource.files oneSource.input args.inputs =
      [⟨"a.rb", "@@x"⟩, ⟨"<stdin>", " \n"⟩, ⟨"./a.rb", "@@x"⟩, ⟨"<stdin>", ""⟩].map .ok := by
    decide +kernel
  obtain ⟨r, hrun, -, htext, hsources, htokens, hwarnings, hjobs, -⟩ :=
    execute_lists_every_input args oneSource (by decide) hformat (by decide) hload
  exact ⟨r, hrun, htext.trans (by decide +kernel), hsources, htokens.trans (by decide +kernel),
    hwarnings.trans (by decide +kernel), hjobs (some 9) 3 (by decide)⟩

end RubyLex.Command.Tokenize
