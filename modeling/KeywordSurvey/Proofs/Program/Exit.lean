import KeywordSurvey.Program
import KeywordSurvey.Proofs.CommandLine.KeepGoing
import KeywordSurvey.Proofs.Survey.Completeness
import KeywordSurvey.Proofs.Survey.Confined

/-!
# How the program ends

What the exit status and the standard output say of a run, in any world: over
any tree, with any number of workers, and with or without the means to have
them (`Program.exits_apart`). Over a file system and with workers to be had
that is what the program computes (`Program.ends_run`).

Two runs are compared that differ in the switch of the command line alone. They
have the same settings but for the policy, so the same workers and the same
filter; and a survey of the one with nothing left out is a survey of the other
(`World.runReturns_strict_iff`).
-/

namespace KeywordSurvey.Program

open CommandLine

/-- What the program finds around it. -/
structure World where
  tree : SourceTree
  /-- As many workers there are unless another number is asked for. -/
  processors : Nat
  /-- Why so many workers cannot be had, if they cannot. -/
  shortage? : Nat → Option String
  /-- The filter that is asked for. -/
  directives : Option String

namespace World

variable {world : World} {settings : Settings} {result : Except Abort Survey} {s : Survey}

/-- How many workers a run has. -/
def workers (world : World) (settings : Settings) : Nat :=
  max (settings.jobs.getD world.processors) 1

/-- What keeps a run from starting. Workers are looked for once the root is known to be a
directory, and not for a run that has only one. -/
def obstacle? (world : World) (settings : Settings) : Option Failure :=
  if world.tree.isDirectory settings.root && world.workers settings != 1 then
    (world.shortage? (world.workers settings)).map fun details => .of (.threadPool details)
  else none

/-- The run that the settings ask for comes to the result. -/
def RunReturns (world : World) (settings : Settings) (result : Except Abort Survey) : Prop :=
  match world.obstacle? settings with
  | some f => result = .error (.failure f)
  | none =>
    settings.plan.ReturnsWith world.tree (world.workers settings) settings.root result

/-- Where workers can be had, a run comes to what its plan comes to. -/
theorem runReturns_iff_returns (hworkers : ∀ n, world.shortage? n = none) :
    world.RunReturns settings result ↔
      settings.plan.Returns world.tree settings.root result := by
  have hfree : world.obstacle? settings = none := by
    rw [obstacle?, hworkers]
    exact ite_self _
  unfold RunReturns
  rw [hfree]
  exact Plan.returnsWith_iff

/-- A run comes to one result. -/
theorem RunReturns.unique {other : Except Abort Survey} (h : world.RunReturns settings result)
    (h' : world.RunReturns settings other) : result = other := by
  unfold RunReturns at h h'
  cases hf : world.obstacle? settings with
  | some f =>
    rw [hf] at h h'
    exact h.trans h'.symm
  | none =>
    rw [hf] at h h'
    exact (Plan.returnsWith_iff.mp h).unique (Plan.returnsWith_iff.mp h')

/-- **What is surveyed with nothing left out** does not hang on the policy. -/
theorem runReturns_strict_iff :
    world.RunReturns (settings.under .strict) (.ok s) ↔
      world.RunReturns (settings.under .skip) (.ok s) ∧ s.skipped = [] := by
  -- the workers do not hang on the policy either
  have hsame : world.obstacle? (settings.under .strict)
      = world.obstacle? (settings.under .skip) := rfl
  unfold RunReturns
  rw [hsame]
  cases world.obstacle? (settings.under .skip) with
  | some f =>
    constructor
    · nofun
    · rintro ⟨hf, -⟩
      cases hf
  | none =>
    dsimp only
    rw [Plan.returnsWith_iff, Plan.returnsWith_iff]
    exact Plan.returns_strict_ok_iff

end World

/-! ## Ends of the program -/

/-- The program ends so, in this world and with these arguments. What its
journal holds is left open. -/
def Ends (world : World) (arguments : List Bytes) (o : Outcome) : Prop :=
  match Arguments.ofList arguments with
  | .error usage => o = refused usage
  | .ok a =>
    match Settings.ofArguments a with
    | .error f => o = misconfigured f
    | .ok settings =>
      match Filter.choose? world.directives settings.level with
      | none => o = ⟨exitBrokenOff, [], [], []⟩
      | some filter => ∃ result journal, world.RunReturns settings result ∧
          o = told filter (conclude settings journal result)

/-- What the program computes over a file system is how it ends there. -/
theorem ends_run (fs : FileSystem) (processors : Nat) (directives : Option String)
    (arguments : List Bytes) :
    Ends ⟨fs.answers, processors, fun _ => none, directives⟩ arguments
      (run fs directives arguments) := by
  unfold run Ends
  cases Arguments.ofList arguments with
  | error usage => rfl
  | ok a =>
    dsimp only
    cases Settings.ofArguments a with
    | error f => rfl
    | ok settings =>
      dsimp only
      cases Filter.choose? directives settings.level with
      | none => rfl
      | some filter =>
        have hreturns : settings.plan.Returns fs.bounded.toSourceTree settings.root
            (settings.plan.run fs.bounded settings.root) := Plan.returns_iff_run.mpr rfl
        exact ⟨_, _, (World.runReturns_iff_returns fun _ => rfl).mpr hreturns, rfl⟩

/-- The program ends with this status, and has printed this. -/
def ExitsWith (world : World) (arguments : List Bytes) (code : Nat) (output : List Char) : Prop :=
  ∃ o, Ends world arguments o ∧ o.exitCode = code ∧ o.output = output

/-- A run is started with these settings: the arguments are accepted and have
them, and the filter that the world asks for, if it asks for one, can be cut
into its parts. Where it cannot, the program is broken off before it looks at
the root. -/
def Starts (world : World) (arguments : List Bytes) (settings : Settings) : Prop :=
  ∃ a, Arguments.ofList arguments = .ok a ∧ Settings.ofArguments a = .ok settings ∧
    (Filter.choose? world.directives settings.level).isSome

/-- The status of a run that comes to the result. -/
def status : Except Abort Survey → Nat
  | .error .overflow => exitBrokenOff
  | .error (.failure _) => exitFailed
  | .ok survey => if survey.skipped = [] then exitComplete else exitPartial

/-- What is printed of the result. -/
def printed (settings : Settings) : Except Abort Survey → List Char
  | .error _ => []
  | .ok survey => survey.render settings.format settings.depth

theorem exitCode_conclude (settings : Settings) (journal : List Event)
    (result : Except Abort Survey) :
    (conclude settings journal result).exitCode = status result := by
  rcases result with (f | _) | survey
  · rfl
  · rfl
  · simp only [conclude, status, ← survey.isComplete_iff]
    split <;> rfl

theorem output_conclude (settings : Settings) (journal : List Event)
    (result : Except Abort Survey) :
    (conclude settings journal result).output = printed settings result := by
  rcases result with (f | _) | survey
  · rfl
  · rfl
  · simp only [conclude, printed]
    split <;> rfl

variable {world : World} {arguments : List Bytes} {a : Arguments} {settings : Settings}
  {result : Except Abort Survey} {code : Nat} {output : List Char}

/-- What is asked of the filter has to do with the world and not with the
arguments. -/
theorem starts_iff :
    Starts world arguments settings ↔
      (∃ a, Arguments.ofList arguments = .ok a ∧ Settings.ofArguments a = .ok settings) ∧
      ∀ text, world.directives = some text → Filter.ofText text ≠ .error .withinCharacter := by
  simp only [Starts, Filter.isSome_choose?_iff, ← and_assoc, exists_and_right]

/-- Where no filter is asked for, settings are enough to start a run. -/
theorem starts_iff_of_no_directives (hnone : world.directives = none) :
    Starts world arguments settings ↔
      ∃ a, Arguments.ofList arguments = .ok a ∧ Settings.ofArguments a = .ok settings := by
  rw [starts_iff, hnone]
  exact and_iff_left (fun _ h => nomatch h)

/-- The program ends with one status, and prints one text. -/
theorem ExitsWith.unique {other : Nat} {text : List Char}
    (h : ExitsWith world arguments code output) (h' : ExitsWith world arguments other text) :
    code = other ∧ output = text := by
  obtain ⟨o, hends, rfl, rfl⟩ := h
  obtain ⟨o', hends', rfl, rfl⟩ := h'
  unfold Ends at hends hends'
  cases haccepted : Arguments.ofList arguments with
  | error usage =>
    simp only [haccepted] at hends hends'
    rw [hends, hends']
    exact ⟨rfl, rfl⟩
  | ok a =>
    simp only [haccepted] at hends hends'
    cases hsettings : Settings.ofArguments a with
    | error f =>
      simp only [hsettings] at hends hends'
      rw [hends, hends']
      exact ⟨rfl, rfl⟩
    | ok settings =>
      simp only [hsettings] at hends hends'
      cases hfilter : Filter.choose? world.directives settings.level with
      | none =>
        simp only [hfilter] at hends hends'
        rw [hends, hends']
        exact ⟨rfl, rfl⟩
      | some filter =>
        simp only [hfilter] at hends hends'
        obtain ⟨result, journal, hrun, rfl⟩ := hends
        obtain ⟨again, journal', hrun', rfl⟩ := hends'
        obtain rfl := hrun.unique hrun'
        have hcode := exitCode_conclude settings journal result
        have houtput := output_conclude settings journal result
        exact ⟨hcode.trans (exitCode_conclude settings journal' result).symm,
          houtput.trans (output_conclude settings journal' result).symm⟩

/-- **Over a file system the program ends as it computes**, if workers can be
had. -/
theorem exitsWith_run_iff {fs : FileSystem} {processors : Nat} {directives : Option String} :
    ExitsWith ⟨fs.answers, processors, fun _ => none, directives⟩ arguments code output ↔
      (run fs directives arguments).exitCode = code ∧
      (run fs directives arguments).output = output := by
  have hrun := ends_run fs processors directives arguments
  constructor
  · intro h
    exact ExitsWith.unique ⟨_, hrun, rfl, rfl⟩ h
  · rintro ⟨hcode, houtput⟩
    exact ⟨_, hrun, hcode, houtput⟩

/-- A run that is started ends with the status of its result. -/
theorem exitsWith_iff_of_starts (hstarts : Starts world arguments settings)
    (hrun : world.RunReturns settings result) :
    ExitsWith world arguments code output ↔
      code = status result ∧ output = printed settings result := by
  obtain ⟨a, haccepted, hsettings, hsome⟩ := hstarts
  obtain ⟨filter, hfilter⟩ := Option.isSome_iff_exists.mp hsome
  have hends : Ends world arguments (told filter (conclude settings [] result)) := by
    simp only [Ends, haccepted, hsettings, hfilter]
    exact ⟨result, [], hrun, rfl⟩
  have hexits : ExitsWith world arguments (status result) (printed settings result) :=
    ⟨_, hends, exitCode_conclude settings [] result, output_conclude settings [] result⟩
  constructor
  · intro h
    exact h.unique hexits
  · rintro ⟨rfl, rfl⟩
    exact hexits

/-- Arguments that are accepted but have no settings end the program at once. -/
theorem exitsWith_iff_of_misconfigured {f : Failure}
    (haccepted : Arguments.ofList arguments = .ok a)
    (hsettings : Settings.ofArguments a = .error f) :
    ExitsWith world arguments code output ↔ code = exitFailed ∧ output = [] := by
  have hends : Ends world arguments (misconfigured f) := by
    simp only [Ends, haccepted, hsettings]
  constructor
  · intro h
    exact h.unique ⟨_, hends, rfl, rfl⟩
  · rintro ⟨rfl, rfl⟩
    exact ⟨_, hends, rfl, rfl⟩

/-- Behind arguments that are accepted, a status of a survey is that of one. -/
theorem exists_survey_of_exitsWith (haccepted : Arguments.ofList arguments = .ok a)
    (h : ExitsWith world arguments code output)
    (hcode : code = exitComplete ∨ code = exitPartial) :
    ∃ settings s, Settings.ofArguments a = .ok settings ∧ Starts world arguments settings ∧
      world.RunReturns settings (.ok s) ∧ code = status (.ok s) ∧
      output = printed settings (.ok s) := by
  obtain ⟨o, hends, rfl, rfl⟩ := h
  simp only [Ends, haccepted] at hends
  split at hends
  · rw [hends] at hcode
    rcases hcode with hcode | hcode <;> cases hcode
  · next settings hsettings =>
    split at hends
    · rw [hends] at hcode
      rcases hcode with hcode | hcode <;> cases hcode
    · next filter hfilter =>
      obtain ⟨result, journal, hrun, rfl⟩ := hends
      have hexit : (told filter (conclude settings journal result)).exitCode = status result :=
        exitCode_conclude settings journal result
      have hprinted : (told filter (conclude settings journal result)).output
          = printed settings result := output_conclude settings journal result
      have hstarts : Starts world arguments settings :=
        ⟨a, haccepted, hsettings, Option.isSome_iff_exists.mpr ⟨filter, hfilter⟩⟩
      rw [hexit] at hcode ⊢
      rw [hprinted]
      rcases result with (f | _) | s
      · rcases hcode with hcode | hcode <;> cases hcode
      · rcases hcode with hcode | hcode <;> cases hcode
      · exact ⟨settings, s, hsettings, hstarts, hrun, rfl, rfl⟩

theorem status_ok_eq_complete_iff {s : Survey} :
    exitComplete = status (.ok s) ↔ s.skipped = [] := by
  simp only [status]
  split <;> simp_all [exitComplete, exitPartial]

/-! ## With the switch and without -/

theorem exists_settings_of_going {b : Bool}
    (h : Settings.ofArguments (a.going b) = .ok settings) :
    ∃ t, Settings.ofArguments a = .ok t ∧ settings = t.under (if b then .skip else .strict) := by
  rw [Settings.ofArguments_going] at h
  cases ht : Settings.ofArguments a with
  | error f =>
    rw [ht] at h
    cases h
  | ok t =>
    rw [ht] at h
    exact ⟨t, rfl, (Except.ok.inj h).symm⟩

/-- A complete survey is printed where the run comes to one under the policy
that the switch asks for. -/
theorem exitsWith_complete_iff {b : Bool}
    (haccepted : Arguments.ofList arguments = .ok (a.going b)) :
    ExitsWith world arguments exitComplete output ↔
      ∃ t s, Settings.ofArguments a = .ok t ∧
        (Filter.choose? world.directives t.level).isSome ∧
        world.RunReturns (t.under (if b then .skip else .strict)) (.ok s) ∧ s.skipped = [] ∧
        output = printed t (.ok s) := by
  constructor
  · intro h
    obtain ⟨settings, s, hsettings, ⟨c, hc, hmade, hsome⟩, hrun, hcode, houtput⟩ :=
      exists_survey_of_exitsWith haccepted h (.inl rfl)
    obtain ⟨t, ht, rfl⟩ := exists_settings_of_going hsettings
    exact ⟨t, s, ht, hsome, hrun, status_ok_eq_complete_iff.mp hcode, houtput⟩
  · rintro ⟨t, s, ht, hsome, hrun, hcomplete, rfl⟩
    have hsettings : Settings.ofArguments (a.going b)
        = .ok (t.under (if b then .skip else .strict)) := by
      rw [Settings.ofArguments_going, ht]
      rfl
    have hstarts : Starts world arguments (t.under (if b then .skip else .strict)) :=
      ⟨_, haccepted, hsettings, hsome⟩
    exact (exitsWith_iff_of_starts hstarts hrun).mpr
      ⟨status_ok_eq_complete_iff.mpr hcomplete, rfl⟩

/-- **The switch changes nothing about a complete survey.** -/
theorem exitsWith_complete_going {asking silent : List Bytes}
    (hasking : Arguments.ofList asking = .ok (a.going true))
    (hsilent : Arguments.ofList silent = .ok (a.going false)) :
    ExitsWith world asking exitComplete output ↔ ExitsWith world silent exitComplete output := by
  rw [exitsWith_complete_iff hasking, exitsWith_complete_iff hsilent]
  refine exists_congr fun t => exists_congr fun s => ?_
  refine and_congr_right fun _ => and_congr_right fun _ => ?_
  constructor
  · rintro ⟨hrun, hcomplete, houtput⟩
    exact ⟨World.runReturns_strict_iff.mpr ⟨hrun, hcomplete⟩, hcomplete, houtput⟩
  · rintro ⟨hrun, hcomplete, houtput⟩
    exact ⟨(World.runReturns_strict_iff.mp hrun).1, hcomplete, houtput⟩

/-- A run that is not told to go on leaves nothing out. -/
theorem keepGoing_of_exitsWith_partial (haccepted : Arguments.ofList arguments = .ok a)
    (h : ExitsWith world arguments exitPartial output) : a.keepGoing = true := by
  by_contra hunset
  rw [← Arguments.going_of_keepGoing (Bool.eq_false_iff.mpr hunset)] at haccepted
  obtain ⟨settings, s, hsettings, -, hrun, hcode, -⟩ :=
    exists_survey_of_exitsWith haccepted h (.inr rfl)
  obtain ⟨t, -, rfl⟩ := exists_settings_of_going hsettings
  have hcomplete : s.skipped = [] := (World.runReturns_strict_iff.mp hrun).2
  rw [status, if_pos hcomplete] at hcode
  cases hcode

/-- **Status and output tell how a run went.** Take arguments that are accepted.
If they have no settings, or the run that is started fails, the program exits
with 1 and prints nothing. If the run comes to a survey, the survey is printed,
and the program exits with 0 if nothing is left out of it and else with 2. It
does that only if it is asked to go on; and to be asked or not makes no
difference to what it prints where it exits with 0. What keeps a run with
settings from being started is a filter of the world that cannot be cut
(`starts_iff`), and nothing does if the world asks for none
(`starts_iff_of_no_directives`). -/
theorem exits_apart (world : World) :
    (∀ arguments a f, Arguments.ofList arguments = .ok a →
      Settings.ofArguments a = .error f →
      ∀ code output, ExitsWith world arguments code output ↔ code = 1 ∧ output = []) ∧
    (∀ arguments settings f, Starts world arguments settings →
      world.RunReturns settings (.error (.failure f)) →
      ∀ code output, ExitsWith world arguments code output ↔ code = 1 ∧ output = []) ∧
    (∀ arguments settings s, Starts world arguments settings →
      world.RunReturns settings (.ok s) →
      ∀ code output, ExitsWith world arguments code output ↔
        code = (if s.skipped = [] then 0 else 2) ∧
        output = s.render settings.format settings.depth) ∧
    (∀ arguments a output, Arguments.ofList arguments = .ok a →
      ExitsWith world arguments 2 output → AsksToGoOn arguments) ∧
    (∀ before after a, endOfOptions ∉ before →
      Arguments.ofList (before ++ keepGoingArgument :: after) = .ok a →
      Arguments.ofList (before ++ after) = .ok (a.going false) ∧
        ∀ output, ExitsWith world (before ++ keepGoingArgument :: after) 0 output ↔
          ExitsWith world (before ++ after) 0 output) ∧
    (∀ arguments a, Arguments.ofList arguments = .ok a → ¬ AsksToGoOn arguments →
      Arguments.ofList (keepGoingArgument :: arguments) = .ok (a.going true) ∧
        ∀ output, ExitsWith world (keepGoingArgument :: arguments) 0 output ↔
          ExitsWith world arguments 0 output) := by
  refine ⟨?_, ?_, ?_, ?_, ?_, ?_⟩
  · intro arguments a f haccepted hsettings code output
    exact exitsWith_iff_of_misconfigured haccepted hsettings
  · intro arguments settings f hstarts hrun code output
    exact exitsWith_iff_of_starts hstarts hrun
  · intro arguments settings s hstarts hrun code output
    exact exitsWith_iff_of_starts hstarts hrun
  · intro arguments a output haccepted h
    exact Arguments.asksToGoOn_of_ofList haccepted (keepGoing_of_exitsWith_partial haccepted h)
  · intro before after a hbefore haccepted
    obtain ⟨hset, hwithout⟩ := Arguments.ofList_without_keepGoing hbefore haccepted
    rw [← Arguments.going_of_keepGoing hset] at haccepted
    exact ⟨hwithout, fun output => exitsWith_complete_going haccepted hwithout⟩
  · intro arguments a haccepted hsilent
    have hunset : a.keepGoing = false :=
      Bool.eq_false_iff.mpr fun hset => hsilent (Arguments.asksToGoOn_of_ofList haccepted hset)
    have hwith := Arguments.ofList_keepGoing_cons haccepted hunset
    rw [← Arguments.going_of_keepGoing hunset] at haccepted
    exact ⟨hwith, fun output => exitsWith_complete_going hwith haccepted⟩

/-- A command line that asks to go on. -/
def asking : List Bytes :=
  ["--ext", ".j"].map Utf8.ofString ++ keepGoingArgument :: [Utf8.ofString "r"]

/-- The command line without that. -/
def silent : List Bytes := ["--ext", ".j"].map Utf8.ofString ++ [Utf8.ofString "r"]

/-- A command line that asks for no workers. -/
def idle : List Bytes := ["--jobs", "0", "r"].map Utf8.ofString

/-- The world of a tree in memory, with four processors. -/
def around (t : MemoryTree) : World := ⟨t.answers, 4, fun _ => none, none⟩

theorem ofList_asking : Arguments.ofList asking
    = .ok ⟨.ofString "r", some ".j", none, none, none, true, 0, false⟩ := rfl

theorem ofList_silent : Arguments.ofList silent
    = .ok ⟨.ofString "r", some ".j", none, none, none, false, 0, false⟩ := rfl

/-- The settings of both command lines, but for the policy. -/
def common : Settings := ⟨.ofString "r", Plan.lenient, .text, none, none, .warn⟩

theorem starts_asking (t : MemoryTree) : Starts (around t) asking (common.under .skip) :=
  (starts_iff_of_no_directives rfl).mpr ⟨_, ofList_asking, rfl⟩

theorem starts_silent (t : MemoryTree) : Starts (around t) silent (common.under .strict) :=
  (starts_iff_of_no_directives rfl).mpr ⟨_, ofList_silent, rfl⟩

theorem runReturns_around {t : MemoryTree} {policy : Policy}
    (h : Plan.Returns ⟨Plan.lenient.selector, policy⟩ t.answers (.ofString "r") result) :
    (around t).RunReturns (common.under policy) result :=
  (World.runReturns_iff_returns fun _ => rfl).mpr h

/-- The small tree is surveyed in part, and only if that is asked for. The
single file is surveyed either way. -/
theorem exits_apart_linked :
    (∃ output, ExitsWith (around .linked) asking 2 output) ∧ AsksToGoOn asking ∧
      ExitsWith (around .linked) silent 1 [] ∧ ExitsWith (around .linked) idle 1 [] ∧
      ∃ output, ExitsWith (around .single) asking 0 output ∧
        ExitsWith (around .single) silent 0 output ∧
        ExitsWith (around .single) (keepGoingArgument :: silent) 0 output := by
  obtain ⟨hsettings, hfailed, hsurvey, hasks, -, -⟩ := exits_apart (around .linked)
  obtain ⟨-, -, hsingle, -, hdrop, hput⟩ := exits_apart (around .single)
  obtain ⟨levels, part, hpart, -, -, hpaths⟩ := Plan.exists_run?_linked
  obtain ⟨whole, hwhole⟩ := Plan.severe_returns_single
  have hskipped : part.skipped ≠ [] := by
    intro hempty
    rw [hempty] at hpaths
    cases hpaths
  have htwo := (hsurvey _ _ _ (starts_asking .linked) (runReturns_around ⟨levels, hpart⟩) 2 _).mpr
    ⟨(if_neg hskipped).symm, rfl⟩
  have hzero := (hsingle _ _ _ (starts_silent .single) (runReturns_around hwhole) 0 _).mpr
    ⟨(if_pos (Plan.returns_strict_ok_iff.mp hwhole).2).symm, rfl⟩
  have hnotAsking : ¬ AsksToGoOn silent := by
    rintro ⟨before, after, heq, -⟩
    have hmem : keepGoingArgument ∈ silent := by
      rw [heq]
      exact List.mem_append_right _ List.mem_cons_self
    exact absurd hmem (by decide)
  have hone := (hfailed _ _ _ (starts_silent .linked)
    (runReturns_around Plan.severe_returns_linked) 1 []).mpr ⟨rfl, rfl⟩
  have hidle := (hsettings idle _ _ rfl rfl 1 []).mpr ⟨rfl, rfl⟩
  refine ⟨⟨_, htwo⟩, hasks _ _ _ ofList_asking htwo, hone, hidle, _, ?_, hzero, ?_⟩
  · exact ((hdrop _ _ _ (by decide) ofList_asking).2 _).mpr hzero
  · exact ((hput _ _ ofList_silent hnotAsking).2 _).mpr hzero

end KeywordSurvey.Program
