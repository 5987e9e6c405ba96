import RubyLex.Program

/-!
# The log changes nothing else

A command reports while it runs, and one of them reports more if it is asked to.  Two sessions are
alike (`Alike`) if, started in worlds that differ at most in the log, they end in the same way and
leave worlds that differ at most in the log.  Reports are alike whatever they say, and sessions
made of steps that are alike are alike, so that verbosity does not show in what a run does.
-/

namespace RubyLex

namespace Session

variable {α β : Type}

/-- Two ends of sessions that differ at most in the log. -/
inductive EndsAlike : EStateM.Result Failure World α → EStateM.Result Failure World α → Prop
  | ok (a : α) (w : World) (log : List Log.Event) : EndsAlike (.ok a w) (.ok a { w with log })
  | error (failure : Failure) (w : World) (log : List Log.Event) :
    EndsAlike (.error failure w) (.error failure { w with log })

/-- Two sessions that differ in nothing but what they report, and that do not look at the log. -/
def Alike (s s' : Session α) : Prop :=
  ∀ w log, EndsAlike (s.run w) (s'.run { w with log })

theorem alike_pure (a : α) : Alike (pure a) (pure a) :=
  fun w log ↦ .ok a w log

theorem alike_throw (failure : Failure) : Alike (throw failure : Session α) (throw failure) :=
  fun w log ↦ .error failure w log

theorem alike_ofExcept (result : Except Failure α) :
    Alike (ofExcept result) (ofExcept result) := by
  cases result with
  | ok a => exact alike_pure a
  | error failure => exact alike_throw failure

theorem alike_report (events events' : List Log.Event) : Alike (report events) (report events') :=
  fun w log ↦ .ok () { w with log := w.log ++ events } (log ++ events')

theorem alike_print (text : String) : Alike (print text) (print text) :=
  fun w log ↦ .ok () { w with output := w.output ++ text } log

theorem alike_takeInput : Alike takeInput takeInput :=
  fun w log ↦ .ok w.input { w with input := [] } log

theorem alike_onFiles (op : FileSystem → Except FileFault Unit × FileSystem) :
    Alike (onFiles op) (onFiles op) := by
  intro w log
  simp only [EStateM.run, onFiles]
  rcases op w.files with ⟨fault | _, files⟩
  · exact .error (.files fault) { w with files } log
  · exact .ok () { w with files } log

theorem Alike.bind {s s' : Session α} {k k' : α → Session β} (hs : s.Alike s')
    (hk : ∀ a, (k a).Alike (k' a)) : (s >>= k).Alike (s' >>= k') := by
  intro w log
  have h := hs w log
  rw [EStateM.run_bind, EStateM.run_bind]
  generalize s.run w = result, s'.run { w with log } = result' at h ⊢
  cases h with
  | ok a u log' => exact hk a u log'
  | error failure u log' => exact .error failure u log'

/-- A session may look at the world, as long as it goes on alike whatever the log. -/
theorem alike_get_bind {k k' : World → Session α} (hk : ∀ w log, (k w).Alike (k' { w with log })) :
    Alike (get >>= k) (get >>= k') :=
  fun w log ↦ hk w log w log

/-- To report something before the end or not is alike. -/
theorem alike_report_or_pure (b b' : Bool) (events : List Log.Event) (a : α) :
    Alike (if b then report events >>= fun _ ↦ pure a else pure a)
      (if b' then report events >>= fun _ ↦ pure a else pure a) := by
  intro w log
  cases b <;> cases b'
  · exact .ok a w log
  · exact .ok a w (log ++ events)
  · exact .ok a { w with log := w.log ++ events } log
  · exact .ok a { w with log := w.log ++ events } (log ++ events)

end Session

open Session

/-! ## Commands -/

theorem Output.alike_write (path? : Option Path) (text : String) (force : Bool) :
    (write path? text force).Alike (write path? text force) := by
  cases path? with
  | none => exact alike_print text
  | some path =>
    refine alike_get_bind fun w log ↦ ?_
    dsimp only
    split
    · exact (alike_throw _).bind fun _ ↦ (alike_onFiles _).bind fun _ ↦ alike_report _ _
    · exact (alike_onFiles _).bind fun _ ↦ alike_report _ _

theorem Source.alike_load (path : Path) : (load path).Alike (load path) := by
  unfold load
  split
  · exact alike_takeInput.bind fun bytes ↦ alike_ofExcept _
  · exact alike_get_bind fun w log ↦ (alike_ofExcept (readFile w.files path)).bind fun source ↦
      (alike_report _ _).bind fun _ ↦ alike_pure source

theorem Source.alike_loadAll (paths : List Path) : (loadAll paths).Alike (loadAll paths) := by
  induction paths with
  | nil => exact alike_pure []
  | cons path rest ih =>
    exact (alike_load path).bind fun source ↦ ih.bind fun sources ↦ alike_pure (source :: sources)

theorem Config.alike_save (c : Config) (path : Path) : (c.save path).Alike (c.save path) :=
  (alike_onFiles _).bind fun _ ↦ (alike_ofExcept _).bind fun _ ↦ alike_onFiles _

namespace Command

theorem Tokenize.alike_run (args : Tokenize) : args.run.Alike args.run := by
  have hexecute : args.execute.Alike args.execute :=
    (alike_ofExcept _).bind fun _ ↦ (alike_report _ _).bind fun _ ↦
      (Source.alike_loadAll _).bind fun _ ↦ (alike_report _ _).bind fun _ ↦ alike_pure _
  exact hexecute.bind fun _ ↦ (alike_report _ _).bind fun _ ↦
    (Output.alike_write _ _ _).bind fun _ ↦ alike_report _ _

theorem Kinds.alike_run (args : Kinds) : args.run.Alike args.run := by
  have hexecute : args.execute.Alike args.execute :=
    (alike_ofExcept _).bind fun _ ↦ (alike_report _ _).bind fun _ ↦ alike_pure _
  exact hexecute.bind fun text ↦ alike_print text

/-- Verbosity decides whether the new file is reported, and nothing else. -/
theorem Init.alike_run (dir? : Option Path) (force verbose verbose' : Bool) :
    (run ⟨dir?, force, verbose⟩).Alike (run ⟨dir?, force, verbose'⟩) := by
  have hexecute : (execute ⟨dir?, force, verbose⟩).Alike (execute ⟨dir?, force, verbose'⟩) := by
    refine alike_get_bind fun w log ↦ (alike_ofExcept _).bind fun _ ↦ ?_
    exact (Config.alike_save _ _).bind fun _ ↦ alike_report_or_pure verbose verbose' _ _
  exact hexecute.bind fun _ ↦ alike_pure ()

end Command

/-! ## Runs -/

namespace Program

/-- The commands look at the format and the number of jobs of a configuration, and not at its
verbosity. -/
theorem alike_execute (request : CommandLine.Request) (config : Config)
    (verbose verbose' configured : Bool) :
    (execute request verbose { config with verbose := configured }).Alike
      (execute request verbose' config) := by
  cases request with
  | tokenize => exact Command.Tokenize.alike_run _
  | kinds => exact Command.Kinds.alike_run _
  | init => exact Command.Init.alike_run _ _ _ _

/-- What a report says apart from the log: the exit code and the cause of it, the text of the
error, standard output and the files. -/
def Report.result (r : Report) : Nat × Outcome × String × String × FileSystem :=
  (r.outcome.code, r.outcome, r.errors, r.output, r.files)

/-- The report of a session that ended, with the events that a threshold shows. -/
def Report.ofEnd (threshold : Log.Threshold) : EStateM.Result Failure World Unit → Report
  | .ok _ w => ⟨.success, w.files, w.output, Log.shown threshold w.log⟩
  | .error failure w => ⟨.failed failure, w.files, w.output, Log.shown threshold w.log⟩

theorem result_ofEnd {left right : EStateM.Result Failure World Unit} (h : EndsAlike left right)
    (threshold threshold' : Log.Threshold) :
    (Report.ofEnd threshold left).result = (Report.ofEnd threshold' right).result := by
  cases h <;> rfl

theorem result_runWith (env env' : Environment) (files : FileSystem) (input : List UInt8)
    (inv : CommandLine.Invocation) (config : Config) (verbose noColor configured : Bool) :
    (runWith env' files input { inv with verbose, noColor }
      { config with verbose := configured }).result =
      (runWith env files input inv config).result := by
  have h := alike_execute inv.request config (verbose || configured)
    (inv.verbose || config.verbose) configured ⟨files, input, "", []⟩ []
  exact result_ofEnd h (threshold env' (verbose || configured))
    (threshold env (inv.verbose || config.verbose))

/-- Verbosity, wherever it is asked for, colours and the threshold of the log do not show in the
result of a run, whether its configuration is given or looked for. -/
theorem logging_shows_in_log_only (env : Environment) (files : FileSystem) (input : List UInt8)
    (inv : CommandLine.Invocation) (verbose noColor : Bool) (logLevel? : Option String) :
    (∀ config configured,
      (runWith { env with logLevel? } files input { inv with verbose, noColor }
        { config with verbose := configured }).result =
        (runWith env files input inv config).result) ∧
    (runInvocation { env with logLevel? } files input { inv with verbose, noColor }).result =
      (runInvocation env files input inv).result := by
  refine ⟨fun config configured ↦ result_runWith .., ?_⟩
  unfold runInvocation
  cases Config.load files env.places inv.config? with
  | error failure => rfl
  | ok config => exact result_runWith env _ files input inv config verbose noColor config.verbose

end Program

end RubyLex
