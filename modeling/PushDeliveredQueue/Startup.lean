import PushDeliveredQueue.Launcher
import PushDeliveredQueue.Runs

/-!
# The launcher, starting the projects

`StartAllProjectsAsync` of `ProjectLauncher.cs` looks whether the ports of the API and of the UI are
free, builds both projects, starts the one and, a little later, the other; if anything of that
fails, it stops what it has started (`StopAllProjectsAsync`) and throws. What the operating system
answers is up to the `PushDeliveredQueue.LaunchAction`, and a process may exit at any time.

The milestones of a start come in one order, each at most once, and the start returns exactly when
all of them have been reached; when it throws, none of the processes it has started is running,
except one that could not be killed (`PushDeliveredQueue.start_all_or_none`). The exception is the
one that was caught, unless a process could not be started. `StopAllProjectsAsync` asks such a
process whether it has exited, which is an exception, and then for its number to log that, which is
another one: nobody is ever told that a project failed to start.
-/

namespace PushDeliveredQueue

open Transitions

/-! ### Arguments and settings -/

/-- The projects the launcher starts. -/
inductive Project where
  | api
  | ui
  deriving DecidableEq

namespace Project

/-- The name of the project's directory, and of its DLL. -/
def path : Project → String
  | .api => "PushDeliveredQueue.API"
  | .ui => "PushDeliveredQueue.UI"

/-- The name of the project in messages. -/
def name : Project → String
  | .api => "API"
  | .ui => "UI"

/-- The key of the project's URL in the configuration. -/
def urlKey : Project → String
  | .api => "ApplicationUrls:Api"
  | .ui => "ApplicationUrls:Ui"

end Project

/-- The exceptions of the launcher. -/
inductive LaunchError where
  | missingUrl (project : Project)
  | noSolutionDirectory
  | portOccupied (port : ℕ) (project : Project)
  | buildNotStarted (project : Project)
  | buildFailed (project : Project) (exitCode : ℤ)
  | dllNotFound (dllPath : String)
  | notStarted (project : Project)
  | exited (project : Project) (exitCode : ℤ)
  /-- What .NET throws for a process that has not been started. -/
  | noProcess
  /-- Another exception of .NET: a malformed URL, a failing socket, a program that is not there. -/
  | system (code : ℕ)
  deriving DecidableEq

/-- The text of an exception of the launcher's own. -/
def LaunchError.message : LaunchError → Option String
  | .missingUrl p => some (p.urlKey ++ " configuration is missing from appsettings.json")
  | .noSolutionDirectory => some "Could not determine solution directory"
  | .portOccupied port p =>
    some ("Port " ++ toString port ++ " is still occupied after attempting to kill the process. " ++
      p.name ++ " cannot start. Please manually free the port and try again.")
  | .buildNotStarted p => some ("Failed to start build for " ++ p.name)
  | .buildFailed p exitCode =>
    some (p.name ++ " build failed with exit code " ++ toString exitCode)
  | .dllNotFound dllPath =>
    some ("Compiled DLL not found: " ++ dllPath ++ ". Please build the project first.")
  | .notStarted p => some ("Failed to start " ++ p.name)
  | .exited p exitCode =>
    some (p.name ++ " exited with code " ++ toString exitCode ++
      ". Check the logs above for details.")
  | .noProcess | .system _ => none

/-- What the launcher knows of the file system when it looks for the solution. -/
structure WorkingDirectory where
  currentDir : String
  /-- The directory four levels up, if there is one. -/
  fourthParent : Option String
  /-- `PushDeliveredQueue.sln` is in the current directory. -/
  hasSolution : Bool

/-- `currentDir.Contains`. -/
def WorkingDirectory.contains (dir : WorkingDirectory) (text : String) : Bool :=
  text.toList <:+: dir.currentDir.toList

/-- `GetSolutionDirectory`. -/
def getSolutionDirectory (dir : WorkingDirectory) : Except LaunchError String :=
  if dir.contains "PushDeliveredQueue.Launcher\\bin" then
    match dir.fourthParent with
    | some solutionDir =>
      if solutionDir = "" then .error .noSolutionDirectory else .ok solutionDir
    | none => .error .noSolutionDirectory
  else if dir.hasSolution then .ok dir.currentDir
  else .error .noSolutionDirectory

/-- What a start depends on. -/
structure LaunchSettings where
  /-- The configured URLs. -/
  url : Project → Option String
  /-- `new Uri(url).Port`, of a URL that is there, or the code of an exception. -/
  port : String → Except ℕ ℕ
  directory : WorkingDirectory
  /-- `Path.Combine`. -/
  combine : List String → String
  noBuild : Bool := false
  configuration : String := "Debug"

/-- `args.Contains("--no-build")`. -/
def noBuildOf (args : List String) : Bool := "--no-build" ∈ args

/-- The configuration `Main` takes from its arguments. -/
def configurationOf (args : List String) : String :=
  if "--configuration" ∈ args ∨ "-c" ∈ args then
    let configIndex := args.idxOf? "--configuration"
    let configIndex := configIndex.or (args.idxOf? "-c")
    match configIndex with
    | some i => args[i + 1]?.getD "Debug"
    | none => "Debug"
  else "Debug"

/-- The settings `Main` starts the projects with. -/
def LaunchSettings.ofArgs (cfg : LaunchSettings) (args : List String) : LaunchSettings :=
  { cfg with noBuild := noBuildOf args, configuration := configurationOf args }

namespace LaunchSettings

variable (cfg : LaunchSettings) (p : Project)

/-- `GetApiUrl` and `GetUiUrl`. -/
def getUrl : Except LaunchError String :=
  match cfg.url p with
  | some url => if url = "" then .error (.missingUrl p) else .ok url
  | none => .error (.missingUrl p)

/-- The port of a project. -/
def portOf : Except LaunchError ℕ :=
  match cfg.getUrl p with
  | .error e => .error e
  | .ok url => (cfg.port url).mapError .system

/-- The arguments `dotnet` builds a project with. -/
def buildArguments (solutionDir : String) : String :=
  "build \"" ++ cfg.combine [solutionDir, p.path] ++ "\" --configuration " ++ cfg.configuration

/-- The DLL of a project. -/
def dllPath (solutionDir : String) : String :=
  cfg.combine [cfg.combine [solutionDir, p.path], "bin", cfg.configuration, "net9.0",
    p.path ++ ".dll"]

/-- The arguments `dotnet` starts a project with. -/
def startArguments (solutionDir url : String) : String :=
  "\"" ++ cfg.dllPath p solutionDir ++ "\" --urls " ++ url

end LaunchSettings

/-! ### A start -/

/-- What has become of a process of the launcher. -/
inductive ProcessStatus where
  /-- The object is there, and no process is associated with it. -/
  | created
  | running
  | exited (exitCode : ℤ)
  deriving DecidableEq

/-- Where `StartAllProjectsAsync` is. -/
inductive LaunchPhase where
  /-- About to read the two URLs. -/
  | reading
  /-- About to try whether the port of a project is occupied. -/
  | checkingPort (project : Project)
  /-- It is, and `KillProcessUsingPortAsync` is to free it. -/
  | freeingPort (project : Project)
  | checkingPortAgain (project : Project)
  | building (project : Project)
  /-- About to look for the DLL. -/
  | locating (project : Project)
  /-- About to start the process that has been put into the list. -/
  | starting (project : Project)
  /-- In the delay after that. -/
  | initializing (project : Project)
  /-- In the delay between the two projects. -/
  | waiting
  | returned
  /-- In `StopAllProjectsAsync`, about to look at the process of this number. -/
  | stopping (error : LaunchError) (next : ℕ)
  /-- It has killed the process of this number, and awaits its exit. -/
  | awaitingExit (error : LaunchError) (process : ℕ)
  | threw (error : LaunchError)
  deriving DecidableEq

/-- A start, with `_processes`. The list is cleared at the end of `StopAllProjectsAsync`, where
nobody looks at it any more; the processes are kept here. -/
structure Launch where
  phase : LaunchPhase := .reading
  processes : List ProcessStatus := []

/-- What can happen next, with the answer of the system or the code of an exception. -/
inductive LaunchAction where
  | read
  /-- `IsPortOccupiedAsync`, which catches a `SocketException` only. -/
  | tryPort (answer : Except ℕ Bool)
  /-- `KillProcessUsingPortAsync`, with the output of `netstat`. -/
  | freePort (output : Option (List Char)) (canKill : ℤ → Bool)
  /-- A build that cannot be started, is not started, or exits with a code. -/
  | build (answer : Except ℕ (Option ℤ))
  | locate (dllExists : Bool)
  | start (answer : Except ℕ Bool)
  /-- The delay is over, and the launcher looks whether the process has exited. -/
  | look
  | wait
  /-- `StopAllProjectsAsync` goes on; if it kills a process, the answer to that. -/
  | stop (answer : Except ℕ Unit)
  /-- A process exits. -/
  | exit (process : ℕ) (exitCode : ℤ)

/-- What one sees of a start. -/
inductive LaunchEvent where
  | ownerKilled (processId : ℤ)
  | portFree (project : Project)
  | built (project : Project) (arguments : String)
  | started (project : Project) (arguments : String)
  /-- The process has not exited by the end of the delay. -/
  | ready (project : Project)
  | exited (process : ℕ)
  /-- The `catch` block has caught this. -/
  | caught (error : LaunchError)
  | killed (process : ℕ)
  | killFailed (process : ℕ)
  deriving DecidableEq

namespace Launch

/-- An exception is caught, and the projects are stopped before it is thrown again. -/
def fail (ω : Launch) (e : LaunchError) : Launch × List LaunchEvent :=
  ({ ω with phase := .stopping e 0 }, [.caught e])

/-- The start goes on with the next phase. -/
def goOn (ω : Launch) (phase : LaunchPhase) (evs : List LaunchEvent) : Launch × List LaunchEvent :=
  ({ ω with phase := phase }, evs)

end Launch

/-- In the `try` block. -/
def LaunchPhase.live : LaunchPhase → Bool
  | .returned | .stopping _ _ | .awaitingExit _ _ | .threw _ => false
  | _ => true

/-- What follows on the check of a port. -/
def LaunchSettings.afterCheck (cfg : LaunchSettings) : Project → LaunchPhase
  | .api => .checkingPort .ui
  | .ui => if cfg.noBuild then .locating .api else .building .api

/-- What follows on a build. -/
def Project.afterBuild : Project → LaunchPhase
  | .api => .building .ui
  | .ui => .locating .api

/-- What follows on the start of a project. -/
def Project.afterStart : Project → LaunchPhase
  | .api => .waiting
  | .ui => .returned

/-- **The transition function of a start.** -/
def launchStep (cfg : LaunchSettings) (ω : Launch) :
    LaunchAction → Option (Launch × List LaunchEvent)
  | .read =>
    if ω.phase = .reading then
      match cfg.getUrl .api, cfg.getUrl .ui with
      | .error e, _ => some (ω.fail e)
      | .ok _, .error e => some (ω.fail e)
      | .ok _, .ok _ => some (ω.goOn (.checkingPort .api) [])
    else none
  | .tryPort answer =>
    match ω.phase with
    | .checkingPort p =>
      match cfg.portOf p, answer with
      | .error e, _ => some (ω.fail e)
      | .ok _, .error code => some (ω.fail (.system code))
      | .ok _, .ok true => some (ω.goOn (.freeingPort p) [])
      | .ok _, .ok false => some (ω.goOn (cfg.afterCheck p) [.portFree p])
    | .checkingPortAgain p =>
      match cfg.portOf p, answer with
      | .error e, _ => some (ω.fail e)
      | .ok _, .error code => some (ω.fail (.system code))
      | .ok port, .ok true => some (ω.fail (.portOccupied port p))
      | .ok _, .ok false => some (ω.goOn (cfg.afterCheck p) [.portFree p])
    | _ => none
  | .freePort output canKill =>
    match ω.phase with
    | .freeingPort p =>
      match cfg.portOf p with
      | .error e => some (ω.fail e)
      | .ok port =>
        some (ω.goOn (.checkingPortAgain p)
          ((killProcessUsingPort output canKill port).toList.map .ownerKilled))
    | _ => none
  | .build answer =>
    match ω.phase with
    | .building p =>
      match getSolutionDirectory cfg.directory, answer with
      | .error e, _ => some (ω.fail e)
      | .ok _, .error code => some (ω.fail (.system code))
      | .ok _, .ok none => some (ω.fail (.buildNotStarted p))
      | .ok dir, .ok (some exitCode) =>
        if exitCode ≠ 0 then some (ω.fail (.buildFailed p exitCode))
        else some (ω.goOn p.afterBuild [.built p (cfg.buildArguments p dir)])
    | _ => none
  | .locate dllExists =>
    match ω.phase with
    | .locating p =>
      match getSolutionDirectory cfg.directory with
      | .error e => some (ω.fail e)
      | .ok dir =>
        if dllExists then
          -- the process is in the list before it is started
          some (⟨.starting p, ω.processes ++ [.created]⟩, [])
        else some (ω.fail (.dllNotFound (cfg.dllPath p dir)))
    | _ => none
  | .start answer =>
    match ω.phase with
    | .starting p =>
      match getSolutionDirectory cfg.directory, cfg.getUrl p, answer with
      | .error e, _, _ => some (ω.fail e)
      | .ok _, .error e, _ => some (ω.fail e)
      | .ok _, .ok _, .error code => some (ω.fail (.system code))
      | .ok _, .ok _, .ok false => some (ω.fail (.notStarted p))
      | .ok dir, .ok url, .ok true =>
        some (⟨.initializing p, ω.processes.set (ω.processes.length - 1) .running⟩,
          [.started p (cfg.startArguments p dir url)])
    | _ => none
  | .look =>
    match ω.phase with
    | .initializing p =>
      match ω.processes.getLast? with
      | some (.exited exitCode) => some (ω.fail (.exited p exitCode))
      | _ => some (ω.goOn p.afterStart [.ready p])
    | _ => none
  | .wait => if ω.phase = .waiting then some (ω.goOn (.locating .ui) []) else none
  | .stop answer =>
    match ω.phase with
    | .stopping e i =>
      match ω.processes[i]? with
      -- neither `HasExited` nor, in the `catch` block, `Id` can be asked for
      | some .created => some (ω.goOn (.threw .noProcess) [])
      | some (.exited _) => some (ω.goOn (.stopping e (i + 1)) [])
      | some .running =>
        match answer with
        | .ok () => some (ω.goOn (.awaitingExit e i) [])
        | .error _ => some (ω.goOn (.stopping e (i + 1)) [.killFailed i])
      | none => some (ω.goOn (.threw e) [])
    | .awaitingExit e i =>
      match ω.processes[i]? with
      | some (.exited _) => some (ω.goOn (.stopping e (i + 1)) [.killed i])
      | _ => none
    | _ => none
  | .exit i exitCode =>
    match ω.processes[i]? with
    | some .running =>
      some ({ ω with processes := ω.processes.set i (.exited exitCode) }, [.exited i])
    | _ => none

/-! ### The milestones -/

/-- An event that the start has got further. -/
def LaunchEvent.milestone : LaunchEvent → Bool
  | .portFree _ | .built _ _ | .started _ _ | .ready _ => true
  | _ => false

/-- The milestones that have been reached. -/
def milestones (evs : List LaunchEvent) : List LaunchEvent := evs.filter (·.milestone)

@[simp] theorem milestones_append (evs evs' : List LaunchEvent) :
    milestones (evs ++ evs') = milestones evs ++ milestones evs' := by
  simp [milestones]

namespace LaunchSettings

variable (cfg : LaunchSettings)

/-- The solution directory, where there is one. -/
def solutionDir : String := (getSolutionDirectory cfg.directory).toOption.getD ""

/-- A project has been built. -/
def buildMilestone (p : Project) : LaunchEvent := .built p (cfg.buildArguments p cfg.solutionDir)

/-- A project has been started. -/
def startMilestone (p : Project) : LaunchEvent :=
  .started p (cfg.startArguments p cfg.solutionDir ((cfg.getUrl p).toOption.getD ""))

/-- A project has been started and has not exited at once. -/
def startMilestones (p : Project) : List LaunchEvent := [cfg.startMilestone p, .ready p]

/-- The milestones of the two builds. -/
def buildMilestones : List LaunchEvent :=
  if cfg.noBuild then [] else [cfg.buildMilestone .api, cfg.buildMilestone .ui]

/-- **The milestones of a start**, in their order. -/
def plan : List LaunchEvent :=
  .portFree .api :: .portFree .ui ::
    (cfg.buildMilestones ++ (cfg.startMilestones .api ++ cfg.startMilestones .ui))

/-- The milestones that are still to come, while nothing has failed. -/
def remaining : LaunchPhase → Option (List LaunchEvent)
  | .reading | .checkingPort .api | .freeingPort .api | .checkingPortAgain .api => some cfg.plan
  | .checkingPort .ui | .freeingPort .ui | .checkingPortAgain .ui => some (cfg.plan.drop 1)
  | .building .api =>
    some (cfg.buildMilestone .api :: cfg.buildMilestone .ui ::
      (cfg.startMilestones .api ++ cfg.startMilestones .ui))
  | .building .ui =>
    some (cfg.buildMilestone .ui :: (cfg.startMilestones .api ++ cfg.startMilestones .ui))
  | .locating .api | .starting .api => some (cfg.startMilestones .api ++ cfg.startMilestones .ui)
  | .initializing .api => some (.ready .api :: cfg.startMilestones .ui)
  | .waiting | .locating .ui | .starting .ui => some (cfg.startMilestones .ui)
  | .initializing .ui => some [.ready .ui]
  | .returned => some []
  | .stopping _ _ | .awaitingExit _ _ | .threw _ => none

theorem remaining_of_live {phase : LaunchPhase} (h : phase.live = true) :
    ∃ rest ≠ [], cfg.remaining phase = some rest := by
  cases phase with
  | checkingPort p | freeingPort p | checkingPortAgain p | building p | locating p | starting p
  | initializing p => cases p <;> simp [remaining, plan, startMilestones]
  | reading | waiting => simp [remaining, plan, startMilestones]
  | _ => cases h

theorem remaining_eq_nil_iff {phase : LaunchPhase} :
    cfg.remaining phase = some [] ↔ phase = .returned := by
  constructor
  · intro h
    cases hlive : phase.live with
    | true =>
      obtain ⟨rest, hrest, hphase⟩ := cfg.remaining_of_live hlive
      exact absurd (Option.some.inj (hphase.symm.trans h)) hrest
    | false =>
      cases phase with
      | returned => rfl
      | stopping e i | awaitingExit e i | threw e => cases h
      | _ => cases hlive
  · rintro rfl
    rfl

end LaunchSettings

/-! ### What a transition does -/

/-- **What a transition of a start does.** -/
inductive LaunchEffect (cfg : LaunchSettings) : Launch → List LaunchEvent → Launch → Prop
  /-- The start goes on, past the milestones it reports. -/
  | advance {ω phase evs} (rest : List LaunchEvent)
      (hfrom : cfg.remaining ω.phase = some (milestones evs ++ rest))
      (hto : cfg.remaining phase = some rest) (hquiet : ∀ p, ω.phase ≠ .starting p)
      (hnext : ∀ p, phase ≠ .starting p) : LaunchEffect cfg ω evs { ω with phase := phase }
  | add {ω p} (hphase : ω.phase = .locating p) :
      LaunchEffect cfg ω [] ⟨.starting p, ω.processes ++ [.created]⟩
  | start {ω p} (hphase : ω.phase = .starting p) :
      LaunchEffect cfg ω [cfg.startMilestone p]
        ⟨.initializing p, ω.processes.set (ω.processes.length - 1) .running⟩
  /-- Something fails. -/
  | fail {ω e rest} (hlive : cfg.remaining ω.phase = some rest) (hrest : rest ≠ [])
      (hproc : e ≠ .noProcess) (hstart : ∀ p, e = .notStarted p → ω.phase = .starting p) :
      LaunchEffect cfg ω [.caught e] { ω with phase := .stopping e 0 }
  | refused {ω e i} (hphase : ω.phase = .stopping e i) (hi : ω.processes[i]? = some .created) :
      LaunchEffect cfg ω [] { ω with phase := .threw .noProcess }
  | skip {ω e i c} (hphase : ω.phase = .stopping e i) (hi : ω.processes[i]? = some (.exited c)) :
      LaunchEffect cfg ω [] { ω with phase := .stopping e (i + 1) }
  | kill {ω e i} (hphase : ω.phase = .stopping e i) (hi : ω.processes[i]? = some .running) :
      LaunchEffect cfg ω [] { ω with phase := .awaitingExit e i }
  | killFailed {ω e i} (hphase : ω.phase = .stopping e i) (hi : ω.processes[i]? = some .running) :
      LaunchEffect cfg ω [.killFailed i] { ω with phase := .stopping e (i + 1) }
  | killed {ω e i c} (hphase : ω.phase = .awaitingExit e i)
      (hi : ω.processes[i]? = some (.exited c)) :
      LaunchEffect cfg ω [.killed i] { ω with phase := .stopping e (i + 1) }
  | stopped {ω e i} (hphase : ω.phase = .stopping e i) (hi : ω.processes[i]? = none) :
      LaunchEffect cfg ω [] { ω with phase := .threw e }
  /-- A process exits. -/
  | exit {ω i c} (hi : ω.processes[i]? = some .running) :
      LaunchEffect cfg ω [.exited i] { ω with processes := ω.processes.set i (.exited c) }

section Start

variable {cfg : LaunchSettings} {ω ω' : Launch} {a : LaunchAction} {evs : List LaunchEvent}
  {tr : List (Transition Launch LaunchAction LaunchEvent)} {p : Project}

/-- The exceptions of the settings are not those of processes. -/
theorem getUrl_error {e : LaunchError} (h : cfg.getUrl p = .error e) : e = .missingUrl p := by
  rw [LaunchSettings.getUrl] at h
  split at h
  · split_ifs at h
    exact (Except.error.inj h).symm
  · exact (Except.error.inj h).symm

theorem portOf_error {e : LaunchError} (h : cfg.portOf p = .error e) :
    e = .missingUrl p ∨ ∃ code, e = .system code := by
  rw [LaunchSettings.portOf] at h
  split at h
  · next e' he' =>
    obtain rfl := Except.error.inj h
    exact Or.inl (getUrl_error he')
  · next url hurl =>
    cases hport : cfg.port url with
    | error code =>
      rw [hport] at h
      exact Or.inr ⟨code, (Except.error.inj h).symm⟩
    | ok port =>
      rw [hport] at h
      cases h

theorem getSolutionDirectory_error {e : LaunchError}
    (h : getSolutionDirectory cfg.directory = .error e) : e = .noSolutionDirectory := by
  rw [getSolutionDirectory] at h
  split at h
  · split at h
    · split at h
      · exact (Except.error.inj h).symm
      · cases h
    · exact (Except.error.inj h).symm
  · split at h
    · cases h
    · exact (Except.error.inj h).symm

theorem solutionDir_of_ok {dir : String} (h : getSolutionDirectory cfg.directory = .ok dir) :
    cfg.solutionDir = dir := by
  rw [LaunchSettings.solutionDir, h]
  rfl

/-- The check of a port is followed by a check of the next one, or by what comes after the ports. -/
theorem remaining_afterCheck (hphase : cfg.remaining ω.phase = cfg.remaining (.checkingPort p)) :
    ∃ rest, cfg.remaining ω.phase = some (milestones [.portFree p] ++ rest) ∧
      cfg.remaining (cfg.afterCheck p) = some rest := by
  rw [hphase]
  cases p with
  | api => exact ⟨_, rfl, rfl⟩
  | ui =>
    refine ⟨cfg.plan.drop 2, rfl, ?_⟩
    rw [LaunchSettings.afterCheck, LaunchSettings.plan, LaunchSettings.buildMilestones]
    split_ifs <;> rfl

theorem afterCheck_ne (p' : Project) : cfg.afterCheck p ≠ .starting p' := by
  cases p with
  | api => simp [LaunchSettings.afterCheck]
  | ui =>
    rw [LaunchSettings.afterCheck]
    split_ifs <;> simp

/-- A start that is in the `try` block can fail. -/
theorem effect_fail {e : LaunchError} (hlive : ω.phase.live = true) (hproc : e ≠ .noProcess)
    (hstart : ∀ p, e = .notStarted p → ω.phase = .starting p) :
    LaunchEffect cfg ω [.caught e] { ω with phase := .stopping e 0 } := by
  obtain ⟨rest, hne, hrest⟩ := cfg.remaining_of_live hlive
  exact .fail hrest hne hproc hstart

theorem effect_read (h : launchStep cfg ω .read = some (ω', evs)) :
    LaunchEffect cfg ω evs ω' := by
  simp only [launchStep] at h
  split_ifs at h with hphase
  have hfail : ∀ p, LaunchEffect cfg ω [.caught (.missingUrl p)]
      { ω with phase := .stopping (.missingUrl p) 0 } :=
    fun p => effect_fail (by rw [hphase]; rfl) (by simp) (by simp)
  split at h
  · next e he =>
    obtain ⟨rfl, rfl⟩ := Prod.ext_iff.mp (Option.some.inj h)
    obtain rfl := getUrl_error he
    exact hfail .api
  · next e _ he =>
    obtain ⟨rfl, rfl⟩ := Prod.ext_iff.mp (Option.some.inj h)
    obtain rfl := getUrl_error he
    exact hfail .ui
  · obtain ⟨rfl, rfl⟩ := Prod.ext_iff.mp (Option.some.inj h)
    exact .advance _ (by rw [hphase]; rfl) rfl (by simp [hphase]) (by simp)

/-- An exception of a port is one of the settings or of the system. -/
theorem effect_portOf_error {e : LaunchError} (hlive : ω.phase.live = true)
    (h : cfg.portOf p = .error e) :
    LaunchEffect cfg ω [.caught e] { ω with phase := .stopping e 0 } := by
  rcases portOf_error h with rfl | ⟨code, rfl⟩
  · exact effect_fail hlive (by simp) (by simp)
  · exact effect_fail hlive (by simp) (by simp)

theorem effect_tryPort {answer : Except ℕ Bool}
    (h : launchStep cfg ω (.tryPort answer) = some (ω', evs)) : LaunchEffect cfg ω evs ω' := by
  simp only [launchStep] at h
  split at h
  · next p hphase =>
    have hlive : ω.phase.live = true := by rw [hphase]; rfl
    split at h <;> obtain ⟨rfl, rfl⟩ := Prod.ext_iff.mp (Option.some.inj h)
    · next e he => exact effect_portOf_error hlive he
    · exact effect_fail hlive (by simp) (by simp)
    · exact .advance ((cfg.remaining (.freeingPort p)).getD [])
        (by cases p <;> rw [hphase] <;> rfl) (by cases p <;> rfl) (by simp [hphase]) (by simp)
    · obtain ⟨rest, hfrom, hto⟩ := remaining_afterCheck
        (show cfg.remaining ω.phase = cfg.remaining (.checkingPort p) by rw [hphase])
      exact .advance rest hfrom hto (by simp [hphase]) afterCheck_ne
  · next p hphase =>
    have hlive : ω.phase.live = true := by rw [hphase]; rfl
    split at h <;> obtain ⟨rfl, rfl⟩ := Prod.ext_iff.mp (Option.some.inj h)
    · next e he => exact effect_portOf_error hlive he
    · exact effect_fail hlive (by simp) (by simp)
    · exact effect_fail hlive (by simp) (by simp)
    · obtain ⟨rest, hfrom, hto⟩ := remaining_afterCheck
        (show cfg.remaining ω.phase = cfg.remaining (.checkingPort p) by
          rw [hphase]; cases p <;> rfl)
      exact .advance rest hfrom hto (by simp [hphase]) afterCheck_ne
  · cases h

theorem effect_freePort {output : Option (List Char)} {canKill : ℤ → Bool}
    (h : launchStep cfg ω (.freePort output canKill) = some (ω', evs)) :
    LaunchEffect cfg ω evs ω' := by
  simp only [launchStep] at h
  split at h
  · next p hphase =>
    split at h <;> obtain ⟨rfl, rfl⟩ := Prod.ext_iff.mp (Option.some.inj h)
    · next e he => exact effect_portOf_error (by rw [hphase]; rfl) he
    · next port _ =>
      have hnone : milestones ((killProcessUsingPort output canKill port).toList.map
          LaunchEvent.ownerKilled) = [] := by
        cases killProcessUsingPort output canKill port <;> rfl
      refine .advance ((cfg.remaining (.freeingPort p)).getD []) ?_ ?_ (by simp [hphase])
        (by simp)
      · rw [Launch.goOn, hnone, hphase]
        cases p <;> rfl
      · cases p <;> rfl
  · cases h

theorem effect_build {answer : Except ℕ (Option ℤ)}
    (h : launchStep cfg ω (.build answer) = some (ω', evs)) : LaunchEffect cfg ω evs ω' := by
  simp only [launchStep] at h
  split at h
  · next p hphase =>
    have hlive : ω.phase.live = true := by rw [hphase]; rfl
    split at h
    · next e he =>
      obtain ⟨rfl, rfl⟩ := Prod.ext_iff.mp (Option.some.inj h)
      obtain rfl := getSolutionDirectory_error he
      exact effect_fail hlive (by simp) (by simp)
    · obtain ⟨rfl, rfl⟩ := Prod.ext_iff.mp (Option.some.inj h)
      exact effect_fail hlive (by simp) (by simp)
    · obtain ⟨rfl, rfl⟩ := Prod.ext_iff.mp (Option.some.inj h)
      exact effect_fail hlive (by simp) (by simp)
    · next dir exitCode hdir =>
      split_ifs at h with hcode <;> obtain ⟨rfl, rfl⟩ := Prod.ext_iff.mp (Option.some.inj h)
      · exact effect_fail hlive (by simp) (by simp)
      · obtain rfl := solutionDir_of_ok hdir
        refine .advance ((cfg.remaining p.afterBuild).getD []) ?_ ?_ (by simp [hphase]) ?_
        · rw [hphase]
          cases p <;> rfl
        · cases p <;> rfl
        · cases p <;> simp [Project.afterBuild]
  · cases h

theorem effect_locate {dllExists : Bool}
    (h : launchStep cfg ω (.locate dllExists) = some (ω', evs)) : LaunchEffect cfg ω evs ω' := by
  simp only [launchStep] at h
  split at h
  · next p hphase =>
    have hlive : ω.phase.live = true := by rw [hphase]; rfl
    split at h
    · next e he =>
      obtain ⟨rfl, rfl⟩ := Prod.ext_iff.mp (Option.some.inj h)
      obtain rfl := getSolutionDirectory_error he
      exact effect_fail hlive (by simp) (by simp)
    · split_ifs at h <;> obtain ⟨rfl, rfl⟩ := Prod.ext_iff.mp (Option.some.inj h)
      · exact .add hphase
      · exact effect_fail hlive (by simp) (by simp)
  · cases h

theorem effect_start {answer : Except ℕ Bool}
    (h : launchStep cfg ω (.start answer) = some (ω', evs)) : LaunchEffect cfg ω evs ω' := by
  simp only [launchStep] at h
  split at h
  · next p hphase =>
    have hlive : ω.phase.live = true := by rw [hphase]; rfl
    split at h <;> obtain ⟨rfl, rfl⟩ := Prod.ext_iff.mp (Option.some.inj h)
    · next e he =>
      obtain rfl := getSolutionDirectory_error he
      exact effect_fail hlive (by simp) (by simp)
    · next e _ he =>
      obtain rfl := getUrl_error he
      exact effect_fail hlive (by simp) (by simp)
    · exact effect_fail hlive (by simp) (by simp)
    · exact effect_fail hlive (by simp) (by simp [hphase])
    · next dir url hdir hurl =>
      have heff : LaunchEffect cfg ω [cfg.startMilestone p] _ := .start hphase
      rwa [LaunchSettings.startMilestone, solutionDir_of_ok hdir, hurl] at heff
  · cases h

theorem effect_look (h : launchStep cfg ω .look = some (ω', evs)) :
    LaunchEffect cfg ω evs ω' := by
  simp only [launchStep] at h
  split at h
  · next p hphase =>
    split at h <;> obtain ⟨rfl, rfl⟩ := Prod.ext_iff.mp (Option.some.inj h)
    · exact effect_fail (by rw [hphase]; rfl) (by simp) (by simp)
    · refine .advance ((cfg.remaining p.afterStart).getD []) ?_ ?_ (by simp [hphase]) ?_
      · rw [hphase]
        cases p <;> rfl
      · cases p <;> rfl
      · cases p <;> simp [Project.afterStart]
  · cases h

theorem effect_stop {answer : Except ℕ Unit}
    (h : launchStep cfg ω (.stop answer) = some (ω', evs)) : LaunchEffect cfg ω evs ω' := by
  simp only [launchStep] at h
  split at h
  · next e i hphase =>
    split at h
    · next hi =>
      obtain ⟨rfl, rfl⟩ := Prod.ext_iff.mp (Option.some.inj h)
      exact .refused hphase hi
    · next hi =>
      obtain ⟨rfl, rfl⟩ := Prod.ext_iff.mp (Option.some.inj h)
      exact .skip hphase hi
    · next hi =>
      split at h <;> obtain ⟨rfl, rfl⟩ := Prod.ext_iff.mp (Option.some.inj h)
      · exact .kill hphase hi
      · exact .killFailed hphase hi
    · next hi =>
      obtain ⟨rfl, rfl⟩ := Prod.ext_iff.mp (Option.some.inj h)
      exact .stopped hphase hi
  · next e i hphase =>
    split at h
    · next hi =>
      obtain ⟨rfl, rfl⟩ := Prod.ext_iff.mp (Option.some.inj h)
      exact .killed hphase hi
    · cases h
  · cases h

theorem effect_of_launchStep (h : launchStep cfg ω a = some (ω', evs)) :
    LaunchEffect cfg ω evs ω' := by
  cases a with
  | read => exact effect_read h
  | tryPort answer => exact effect_tryPort h
  | freePort output canKill => exact effect_freePort h
  | build answer => exact effect_build h
  | locate dllExists => exact effect_locate h
  | start answer => exact effect_start h
  | look => exact effect_look h
  | wait =>
    simp only [launchStep] at h
    split_ifs at h with hphase
    obtain ⟨rfl, rfl⟩ := Prod.ext_iff.mp (Option.some.inj h)
    exact .advance _ (by rw [hphase]; rfl) rfl (by simp [hphase]) (by simp)
  | stop answer => exact effect_stop h
  | exit i exitCode =>
    simp only [launchStep] at h
    split at h
    · next hi =>
      obtain ⟨rfl, rfl⟩ := Prod.ext_iff.mp (Option.some.inj h)
      exact .exit hi
    · cases h

/-! ### The invariants -/

/-- The milestones that have been reached and those still to come make up the plan, and as long as
the start has not returned, some are still to come. -/
def OnPlan (cfg : LaunchSettings) (evs : List LaunchEvent) (ω : Launch) : Prop :=
  ∃ rest, milestones evs ++ rest = cfg.plan ∧
    (cfg.remaining ω.phase = some rest ∨ cfg.remaining ω.phase = none ∧ rest ≠ [])

/-- Nothing has happened that matters to the plan. -/
theorem OnPlan.of_eq {evs' : List LaunchEvent} (h : OnPlan cfg evs ω) (hm : milestones evs' = [])
    (hphase : cfg.remaining ω'.phase = cfg.remaining ω.phase) : OnPlan cfg (evs ++ evs') ω' := by
  obtain ⟨rest, hplan, hrest⟩ := h
  refine ⟨rest, ?_, hphase ▸ hrest⟩
  rw [milestones_append, hm, List.append_nil, hplan]

/-- The start gets further. -/
theorem OnPlan.advance {evs' : List LaunchEvent} (h : OnPlan cfg evs ω) (rest : List LaunchEvent)
    (hfrom : cfg.remaining ω.phase = some (milestones evs' ++ rest))
    (hto : cfg.remaining ω'.phase = some rest) : OnPlan cfg (evs ++ evs') ω' := by
  obtain ⟨rest', hplan, hrest' | ⟨hnone, -⟩⟩ := h
  · obtain rfl := Option.some.inj (hfrom.symm.trans hrest')
    refine ⟨rest, ?_, Or.inl hto⟩
    rw [milestones_append, List.append_assoc, hplan]
  · simp [hnone] at hfrom

theorem OnPlan.step {evs' : List LaunchEvent} (h : OnPlan cfg evs ω)
    (heff : LaunchEffect cfg ω evs' ω') : OnPlan cfg (evs ++ evs') ω' := by
  cases heff with
  | advance rest hfrom hto _ _ => exact h.advance rest hfrom hto
  | @add p hphase =>
    refine h.of_eq rfl ?_
    rw [hphase]
    cases p <;> rfl
  | @start p hphase =>
    refine h.advance ((cfg.remaining (.initializing p)).getD []) ?_ ?_
    · rw [hphase]
      cases p <;> rfl
    · cases p <;> rfl
  | fail hlive hrest _ _ =>
    obtain ⟨rest', hplan, hrest' | ⟨hnone, -⟩⟩ := h
    · obtain rfl := Option.some.inj (hlive.symm.trans hrest')
      exact ⟨_, by rw [milestones_append]; simpa [milestones, LaunchEvent.milestone] using hplan,
        Or.inr ⟨rfl, hrest⟩⟩
    · simp [hnone] at hlive
  | refused hphase _ | skip hphase _ | kill hphase _ | killFailed hphase _ | killed hphase _
  | stopped hphase _ => exact h.of_eq rfl (by rw [hphase]; rfl)
  | exit _ => exact h.of_eq rfl rfl

/-- **The plan along a run.** -/
theorem onPlan_of_run (h : Run (launchStep cfg) {} tr ω) : OnPlan cfg (events tr) ω := by
  refine h.invariant (I := fun tr ω => OnPlan cfg (events tr) ω) ⟨_, rfl, Or.inl rfl⟩ ?_
  intro tr ω a evs ω' _ hi hs
  simpa using hi.step (effect_of_launchStep hs)

/-- What is known of the processes: only the last one can be there without having been started, and
only while it is about to be, or after something has failed. -/
structure Tidy (cfg : LaunchSettings) (ω : Launch) : Prop where
  last : ∀ i : ℕ, ω.processes[i]? = some .created → i + 1 = ω.processes.length
  created : .created ∈ ω.processes →
    (∃ p, ω.phase = .starting p) ∨ cfg.remaining ω.phase = none
  starting : ∀ p, ω.phase = .starting p → .created ∈ ω.processes

/-- A process that exits was running. -/
theorem mem_created_exit {i : ℕ} {c : ℤ} (hi : ω.processes[i]? = some .running) :
    .created ∈ ω.processes.set i (.exited c) ↔ .created ∈ ω.processes := by
  constructor
  · intro h
    rcases List.mem_or_eq_of_mem_set h with h | h
    · exact h
    · cases h
  · intro h
    obtain ⟨j, hj⟩ := List.mem_iff_getElem?.mp h
    have hij : i ≠ j := by
      rintro rfl
      simp [hi] at hj
    exact List.mem_iff_getElem?.mpr ⟨j, (List.getElem?_set_ne hij).trans hj⟩

theorem getElem?_exit {i j : ℕ} {c : ℤ} {s : ProcessStatus} (hs : ∀ c, s ≠ .exited c)
    (h : (ω.processes.set i (.exited c))[j]? = some s) : ω.processes[j]? = some s := by
  rw [List.getElem?_set] at h
  split_ifs at h
  · exact absurd (Option.some.inj h).symm (hs c)
  · exact h

theorem Tidy.step (h : Tidy cfg ω) (heff : LaunchEffect cfg ω evs ω') : Tidy cfg ω' := by
  -- while nothing has failed and no process is about to be started, all of them have been
  have hnone : cfg.remaining ω.phase ≠ none → (∀ p, ω.phase ≠ .starting p) →
      .created ∉ ω.processes := by
    intro hlive hquiet hmem
    rcases h.created hmem with ⟨p, hp⟩ | hfailed
    · exact hquiet p hp
    · exact hlive hfailed
  cases heff with
  | advance rest hfrom hto hquiet hnext =>
    have hno := hnone (by simp [hfrom]) hquiet
    exact ⟨h.last, fun hmem => absurd hmem hno, fun p hp => absurd hp (hnext p)⟩
  | @add p hphase =>
    have hno := hnone (by rw [hphase]; cases p <;> simp [LaunchSettings.remaining])
      (by simp [hphase])
    refine ⟨fun i hi => ?_, fun _ => Or.inl ⟨p, rfl⟩, fun _ _ => by simp⟩
    rw [List.getElem?_append] at hi
    split_ifs at hi with hlt
    · exact absurd (List.mem_of_getElem? hi) hno
    · rw [List.getElem?_singleton] at hi
      split_ifs at hi with hlast
      simp only [List.length_append, List.length_singleton]
      omega
  | start hphase =>
    have hlast : ∀ i : ℕ, (ω.processes.set (ω.processes.length - 1) .running)[i]? ≠
        some .created := by
      intro i hi
      rw [List.getElem?_set] at hi
      split_ifs at hi with hi'
      · cases hi
      · have := h.last i hi
        omega
    refine ⟨fun i hi => absurd hi (hlast i), fun hmem => ?_, fun _ hp => by cases hp⟩
    obtain ⟨i, hi⟩ := List.mem_iff_getElem?.mp hmem
    exact absurd hi (hlast i)
  | fail _ _ _ _ => exact ⟨h.last, fun _ => Or.inr rfl, fun _ hp => by cases hp⟩
  | refused _ _ | skip _ _ | kill _ _ | killFailed _ _ | killed _ _ | stopped _ _ =>
    exact ⟨h.last, fun _ => Or.inr rfl, fun _ hp => by cases hp⟩
  | exit hi =>
    refine ⟨fun j hj => ?_, fun hmem => h.created ((mem_created_exit hi).mp hmem),
      fun p hp => (mem_created_exit hi).mpr (h.starting p hp)⟩
    rw [List.length_set]
    exact h.last j (getElem?_exit (by simp) hj)

/-- **The processes along a run.** -/
theorem tidy_of_run (h : Run (launchStep cfg) {} tr ω) : Tidy cfg ω :=
  h.stateInvariant ⟨by simp, by simp, by simp⟩ fun _ _ _ _ hi hs =>
    hi.step (effect_of_launchStep hs)

/-- `StopAllProjectsAsync`, its error and the first process it has not dealt with. -/
def LaunchPhase.stoppingAt : LaunchPhase → Option (LaunchError × ℕ)
  | .stopping e i | .awaitingExit e i => some (e, i)
  | _ => none

/-- A process that `StopAllProjectsAsync` has dealt with is not running, or could not be killed. -/
def DealtWith (evs : List LaunchEvent) (ω : Launch) (i : ℕ) : Prop :=
  ω.processes[i]? = some .running → .killFailed i ∈ evs

/-- What is known while the projects are being stopped, and after that. -/
structure Stopping (evs : List LaunchEvent) (ω : Launch) : Prop where
  caught : ∀ e i, ω.phase.stoppingAt = some (e, i) → .caught e ∈ evs ∧ e ≠ .noProcess ∧
    ∀ p, e = .notStarted p → .created ∈ ω.processes
  passed : ∀ e i, ω.phase.stoppingAt = some (e, i) →
    ∀ j < i, ω.processes[j]? ≠ some .created ∧ DealtWith evs ω j
  threw : ∀ e, ω.phase = .threw e → (e = .noProcess ↔ .created ∈ ω.processes) ∧
    (e ≠ .noProcess → .caught e ∈ evs) ∧ (∀ p, e ≠ .notStarted p) ∧ ∀ j, DealtWith evs ω j

/-- It has not begun. -/
theorem Stopping.of_live (hstop : ω.phase.stoppingAt = none) (hthrew : ∀ e, ω.phase ≠ .threw e) :
    Stopping evs ω :=
  ⟨fun _ _ h => by simp [hstop] at h, fun _ _ h => by simp [hstop] at h,
    fun e h => absurd h (hthrew e)⟩

/-- The process it is at has been dealt with. -/
theorem Stopping.next {evs' : List LaunchEvent} {e : LaunchError} {i : ℕ} (h : Stopping evs ω)
    (hat : ω.phase.stoppingAt = some (e, i)) (hi : ω.processes[i]? ≠ some .created)
    (hdone : DealtWith (evs ++ evs') ω i) :
    Stopping (evs ++ evs') { ω with phase := .stopping e (i + 1) } := by
  obtain ⟨hcaught, hproc, hstart⟩ := h.caught e i hat
  refine ⟨fun e' i' he => ?_, fun e' i' he j hj => ?_, fun _ he => by cases he⟩
  · obtain ⟨rfl, rfl⟩ := Prod.ext_iff.mp (Option.some.inj he)
    exact ⟨List.mem_append_left _ hcaught, hproc, hstart⟩
  · obtain ⟨rfl, rfl⟩ := Prod.ext_iff.mp (Option.some.inj he)
    rcases Nat.lt_succ_iff_lt_or_eq.mp hj with hlt | rfl
    · obtain ⟨hne, hdealt⟩ := h.passed e i hat j hlt
      exact ⟨hne, fun hrun => List.mem_append_left _ (hdealt hrun)⟩
    · exact ⟨hi, hdone⟩

theorem Stopping.step {evs' : List LaunchEvent} (h : Stopping evs ω) (ht : Tidy cfg ω)
    (heff : LaunchEffect cfg ω evs' ω') : Stopping (evs ++ evs') ω' := by
  cases heff with
  | @advance phase _ rest hfrom hto _ _ =>
    refine .of_live ?_ fun e he => ?_
    · cases phase with
      | stopping e i | awaitingExit e i => cases hto
      | _ => rfl
    · obtain rfl : phase = .threw e := he
      cases hto
  | add _ | start _ => exact .of_live rfl (by simp)
  | @fail e _ hlive hrest hproc hstart =>
    refine ⟨fun e' i' he => ?_, fun e' i' he j hj => ?_, fun _ he => by cases he⟩
    · obtain ⟨rfl, rfl⟩ := Prod.ext_iff.mp (Option.some.inj he)
      exact ⟨by simp, hproc, fun p hp => ht.starting p (hstart p hp)⟩
    · obtain ⟨rfl, rfl⟩ := Prod.ext_iff.mp (Option.some.inj he)
      exact absurd hj (Nat.not_lt_zero j)
  | @refused e i hphase hi =>
    -- the process that has not been started is the last one
    have hlast := ht.last i hi
    have hat : ω.phase.stoppingAt = some (e, i) := by rw [hphase]; rfl
    refine ⟨nofun, nofun, fun e' he => ?_⟩
    obtain rfl : _ = e' := LaunchPhase.threw.inj he
    refine ⟨by simpa using List.mem_of_getElem? hi, by simp, by simp, fun j hj => ?_⟩
    rcases Nat.lt_trichotomy j i with hlt | rfl | hgt
    · exact List.mem_append_left _ ((h.passed e i hat j hlt).2 hj)
    · cases hi.symm.trans hj
    · have : j < ω.processes.length := (List.getElem?_eq_some_iff.mp hj).1
      omega
  | skip hphase hi =>
    exact h.next (by rw [hphase]; rfl) (by simp [hi]) fun hrun => by cases hi.symm.trans hrun
  | @kill e i hphase hi =>
    have hat : ω.phase.stoppingAt = some (e, i) := by rw [hphase]; rfl
    rw [List.append_nil]
    exact ⟨fun e' i' he => h.caught e' i' (hat.trans he),
      fun e' i' he => h.passed e' i' (hat.trans he), fun _ he => by cases he⟩
  | killFailed hphase hi =>
    exact h.next (by rw [hphase]; rfl) (by simp [hi]) fun _ => by simp
  | killed hphase hi =>
    exact h.next (by rw [hphase]; rfl) (by simp [hi]) fun hrun => by cases hi.symm.trans hrun
  | @stopped e i hphase hi =>
    have hat : ω.phase.stoppingAt = some (e, i) := by rw [hphase]; rfl
    have hlen := List.getElem?_eq_none_iff.mp hi
    obtain ⟨hcaught, hproc, hstart⟩ := h.caught e i hat
    have hall : ∀ {j : ℕ} {s : ProcessStatus}, ω.processes[j]? = some s → j < i := fun hj =>
      lt_of_lt_of_le (List.getElem?_eq_some_iff.mp hj).1 hlen
    have hno : .created ∉ ω.processes := by
      intro hmem
      obtain ⟨j, hj⟩ := List.mem_iff_getElem?.mp hmem
      exact (h.passed e i hat j (hall hj)).1 hj
    refine ⟨nofun, nofun, fun e' he => ?_⟩
    obtain rfl : e = e' := LaunchPhase.threw.inj he
    rw [List.append_nil]
    exact ⟨⟨fun hp => absurd hp hproc, fun hmem => absurd hmem hno⟩, fun _ => hcaught,
      fun p hp => hno (hstart p hp), fun j hj => (h.passed e i hat j (hall hj)).2 hj⟩
  | @exit i c hi =>
    have hdealt : ∀ j, DealtWith evs ω j →
        DealtWith (evs ++ [.exited i]) { ω with processes := ω.processes.set i (.exited c) } j :=
      fun j hj hrun => List.mem_append_left _ (hj (getElem?_exit (by simp) hrun))
    refine ⟨fun e k he => ?_, fun e k he j hj => ?_, fun e he => ?_⟩
    · obtain ⟨hcaught, hproc, hstart⟩ := h.caught e k he
      exact ⟨List.mem_append_left _ hcaught, hproc,
        fun p hp => (mem_created_exit hi).mpr (hstart p hp)⟩
    · obtain ⟨hne, hj'⟩ := h.passed e k he j hj
      exact ⟨fun hcre => hne (getElem?_exit (by simp) hcre), hdealt j hj'⟩
    · obtain ⟨hiff, hcaught, hstart, hall⟩ := h.threw e he
      exact ⟨hiff.trans (mem_created_exit hi).symm,
        fun hne => List.mem_append_left _ (hcaught hne), hstart, fun j => hdealt j (hall j)⟩

/-- **The stopping along a run.** -/
theorem stopping_of_run (h : Run (launchStep cfg) {} tr ω) : Stopping (events tr) ω := by
  refine h.invariant (I := fun tr ω => Stopping (events tr) ω) (.of_live rfl (by simp)) ?_
  intro tr ω a evs ω' hrun hi hs
  simpa using hi.step (tidy_of_run hrun) (effect_of_launchStep hs)

/-- **All projects are started, or none is left running.** The milestones of a start are reached in
the order of the plan, and all of them exactly when the start returns. When it throws, every
process it has started has exited or could not be killed; the exception is the one that was caught,
unless a process has been put into the list and was not started, and then .NET complains about that;
so it is never the exception which says that a project failed to start. -/
theorem start_all_or_none (h : Run (launchStep cfg) {} tr ω) :
    milestones (events tr) <+: cfg.plan ∧
      (milestones (events tr) = cfg.plan ↔ ω.phase = .returned) ∧
      ∀ e, ω.phase = .threw e →
        (∀ i : ℕ, ω.processes[i]? = some .running → .killFailed i ∈ events tr) ∧
        (e ≠ .noProcess → .caught e ∈ events tr) ∧
        (e = .noProcess ↔ .created ∈ ω.processes) ∧ ∀ p, e ≠ .notStarted p := by
  obtain ⟨rest, hplan, hrest⟩ := onPlan_of_run h
  refine ⟨⟨rest, hplan⟩, ?_, fun e he => ?_⟩
  · rw [← hplan, List.self_eq_append_right, ← cfg.remaining_eq_nil_iff]
    constructor
    · rintro rfl
      rcases hrest with hrest | ⟨-, hne⟩
      · exact hrest
      · exact absurd rfl hne
    · intro hnil
      rcases hrest with hrest | ⟨hnone, -⟩
      · exact Option.some.inj (hrest.symm.trans hnil)
      · cases hnone.symm.trans hnil
  · obtain ⟨hiff, hcaught, hstart, hall⟩ := (stopping_of_run h).threw e he
    exact ⟨hall, hcaught, hiff, hstart⟩

/-- Settings of a launcher. -/
def someSettings : LaunchSettings where
  url p := some (if p = .api then "http://localhost:5155" else "http://localhost:5256")
  port url := .ok (if url = "http://localhost:5155" then 5155 else 5256)
  directory := { currentDir := "C:\\queue", fourthParent := none, hasSolution := true }
  combine := String.intercalate "\\"

/-- The theorem at a start that is given up because the UI cannot be started. -/
theorem start_all_or_none_given_up : ∃ tr ω,
    Run (launchStep (someSettings.ofArgs ["--no-build", "-c", "Release"])) {} tr ω ∧
      ω.phase = .threw .noProcess ∧ .killFailed 0 ∉ events tr ∧
      ω.processes[0]? ≠ some .running ∧ .created ∈ ω.processes := by
  have h := run_exec (s := {}) [.read, .tryPort (.ok false), .tryPort (.ok false), .locate true,
    .start (.ok true), .look, .wait, .locate true, .start (.error 2), .stop (.ok ()),
    .exit 0 (-1), .stop (.ok ()), .stop (.ok ())]
    (show (exec (launchStep (someSettings.ofArgs ["--no-build", "-c", "Release"])) _ _).isSome by
      decide)
  obtain ⟨hrun, -, hiff, -⟩ := (start_all_or_none h).2.2 .noProcess (by decide)
  exact ⟨_, _, h, by decide, by decide, fun h0 => absurd (hrun 0 h0) (by decide), hiff.mp rfl⟩

end Start

end PushDeliveredQueue
