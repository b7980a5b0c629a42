import ApiTypings.CommandLine.Command
import ApiTypings.Proofs.Logging.Opening
import ApiTypings.Proofs.Run.Input
import ApiTypings.Proofs.Settings.Projection
import ApiTypings.Proofs.Storage.Following

/-!
The description that a call of the command line asks for.

A call looks for the description at the input path as it is written, and a run reads it at the
standard form of the path. If there is no file at the path as it is written, the call ends there; in
all other cases its exit code is that of the run. The two layers judge the same file if the path is
spelled out, and then the call ends there if and only if the run would find no file.
-/

namespace ApiTypings.CommandLine

variable {s : Surroundings} {time : Logging.Time} {a : Arguments} {arguments : List String}

/-! ### Setting up logging -/

/-- The logging of a call can be set up if the location of its log file can be looked for. -/
theorem readable_loggingOf (hdirectory : '\x00' ∉ s.directory.toList)
    (hlog : ∀ location, a.logFile = some (.text location) → '\x00' ∉ location.toList) :
    Logging.Session.Readable s (loggingOf a) where
  maxBytes := ⟨_, rfl⟩
  backupCount := ⟨_, rfl⟩
  consoleFormat := ⟨_, rfl⟩
  fileFormat := ⟨_, rfl⟩
  directory := hdirectory
  location := by
    unfold loggingOf
    cases hgiven : a.logFile with
    | none => exact ⟨none, rfl, nofun⟩
    | some value =>
      cases value with
      | empty => exact ⟨none, rfl, nofun⟩
      | text location =>
        by_cases hempty : location = ""
        · subst hempty
          exact ⟨none, rfl, nofun⟩
        · refine ⟨some location, ?_, fun other hother => ?_⟩
          · have hpresent : (Json.str location).truthy = true := by simp [Json.truthy, hempty]
            exact if_pos hpresent
          · exact Option.some.inj hother ▸ hlog location hgiven

/-! ### What a call judges -/

/-- The state of logging in which a call looks for its description. -/
def ready (s : Surroundings) (time : Logging.Time) (a : Arguments) (disk : Disk) :
    Logging.Session :=
  warn time (settings s a).2 ((Logging.Session.configure s (loggingOf a) false).on (.fresh disk)).2

/-- Whether there is a file at a location when a call looks for its description. -/
def hasFile (s : Surroundings) (time : Logging.Time) (a : Arguments) (disk : Disk)
    (location : String) : Bool :=
  (ready s time a disk).disk.isFile s.directory location

/-- The input path of a call, as it is written. -/
def inputPath (s : Surroundings) (a : Arguments) : String := (settings s a).1.inputPath

/-- The location at which a run reads the description. -/
def readPath (s : Surroundings) (a : Arguments) : String :=
  Location.normalize s (inputPath s a) (inputPath s a)

/-- The outcome of the run that a call hands its settings to. -/
def runOutcome (s : Surroundings) (time : Logging.Time) (a : Arguments) (disk : Disk) :
    Except Fault RunResult :=
  ((Run.run s (.obj (settings s a).1.toFields) .null).on (ready s time a disk).disk).outcome

theorem exit_execute (s : Surroundings) (time : Logging.Time) (asJson : Bool) (settings : Settings)
    (session : Logging.Session) :
    (execute s time asJson settings session).exit =
      ((Run.run s (.obj settings.toFields) .null).on session.disk).outcome.map
        fun r => if r.ok then exitOk else exitFailed := by
  unfold execute
  dsimp only
  split
  next fault hfault => rw [hfault]; rfl
  next r hr => rw [hr]; rfl

theorem call_eq_proceed (hlogging : (Logging.Session.configure s (loggingOf a) false).Succeeds)
    (disk : Disk) :
    call s time a disk =
      proceed s time a ((Logging.Session.configure s (loggingOf a) false).on (.fresh disk)).2 := by
  obtain ⟨_, hset⟩ := hlogging (.fresh disk)
  unfold call
  generalize (Logging.Session.configure s (loggingOf a) false).on (.fresh disk) = ending at hset
  obtain ⟨outcome, session⟩ := ending
  obtain rfl : outcome = .ok _ := hset
  rfl

/-- No run has the exit code of a call that finds no description. -/
theorem exit_execute_ne (s : Surroundings) (time : Logging.Time) (asJson : Bool)
    (settings : Settings) (session : Logging.Session) :
    (execute s time asJson settings session).exit ≠ .ok exitNoInput := by
  rw [exit_execute]
  cases ((Run.run s (.obj settings.toFields) .null).on session.disk).outcome with
  | error fault => exact nofun
  | ok r =>
    intro hexit
    have hcode := Except.ok.inj hexit
    cases hok : r.ok <;> simp [hok, exitOk, exitFailed, exitNoInput] at hcode

section

variable {disk : Disk} (hdump : a.dumpConfig = false)
  (hlogging : (Logging.Session.configure s (loggingOf a) false).Succeeds)

include hdump hlogging

/-- A call that finds a file at the input path hands its settings to a run. -/
theorem call_of_file (h : hasFile s time a disk (inputPath s a) = true) :
    call s time a disk = execute s time a.json (settings s a).1 (ready s time a disk) := by
  unfold hasFile ready inputPath at h
  rw [call_eq_proceed hlogging, proceed]
  simp only [hdump, h, Bool.false_eq_true, Bool.not_true, if_false]
  rfl

theorem exit_of_missing (h : hasFile s time a disk (inputPath s a) = false) :
    (call s time a disk).exit = .ok exitNoInput := by
  unfold hasFile ready inputPath at h
  rw [call_eq_proceed hlogging, proceed]
  simp only [hdump, h, Bool.false_eq_true, Bool.not_false, if_false, if_true]

/-- A call ends for want of a description if and only if there is no file at its input path. -/
theorem exit_eq_noInput_iff :
    (call s time a disk).exit = .ok exitNoInput ↔
      hasFile s time a disk (inputPath s a) = false := by
  cases hfile : hasFile s time a disk (inputPath s a) with
  | false => exact iff_of_true (exit_of_missing hdump hlogging hfile) rfl
  | true =>
    rw [call_of_file hdump hlogging hfile]
    exact iff_of_false (exit_execute_ne _ _ _ _ _) nofun

theorem exit_of_file (h : hasFile s time a disk (inputPath s a) = true) :
    (call s time a disk).exit =
      (runOutcome s time a disk).map fun r => if r.ok then exitOk else exitFailed := by
  rw [call_of_file hdump hlogging h, exit_execute, runOutcome]

/-- A call that succeeds has come to a run that succeeded. -/
theorem runOutcome_of_exitOk (h : (call s time a disk).exit = .ok exitOk) :
    ∃ r, runOutcome s time a disk = .ok r ∧ r.ok = true := by
  cases hfile : hasFile s time a disk (inputPath s a) with
  | false =>
    rw [exit_of_missing hdump hlogging hfile] at h
    cases h
  | true =>
    rw [exit_of_file hdump hlogging hfile] at h
    obtain ⟨r, hr, hcode⟩ := Success.map_eq_ok.1 h
    refine ⟨r, hr, ?_⟩
    cases hok : r.ok with
    | true => rfl
    | false => simp [hok, exitOk, exitFailed] at hcode

end

/-! ### The settings of a call -/

theorem wellShaped_settings (h : Location.isAbsolute s.directory = true) (a : Arguments) :
    (settings s a).1.WellShaped :=
  Settings.wellShaped_check (Settings.wellShaped_standard h) _ _

/-- The run of a call reads the description at the standard form of the call's own input path, since
it leaves the settings of the call as they are. -/
theorem hasFile_of_runOutcome (h : Location.isAbsolute s.directory = true) {disk : Disk}
    {r : RunResult} (hr : runOutcome s time a disk = .ok r) (hok : r.ok = true) :
    hasFile s time a disk (readPath s a) = true := by
  have hrun := Run.isFile_of_run hr hok
  have hchecked : (Settings.checkLenient s.directory (.obj (settings s a).1.toFields)).1 =
      (settings s a).1 := by
    rw [Settings.checkLenient, Settings.check_toFields (wellShaped_settings h a)]
    rfl
  rwa [hchecked] at hrun

theorem hasFile_readPath (h : Location.isAbsolute s.directory = true) {disk : Disk}
    (hspelled : Location.SpelledOut s (ready s time a disk).disk (inputPath s a)) :
    hasFile s time a disk (readPath s a) = hasFile s time a disk (inputPath s a) :=
  Disk.isFile_normalize hspelled (wellShaped_settings h a).inputPath.trimmed

/-! ### The exit code -/

/-- A call without `--dump-config` ends for want of a description if and only if there is no file at
the input path as it is written. In all other cases it comes to a run, whose result decides on the
exit code, and if the call succeeds then there is a file where the run reads. If the input path is
spelled out, then a file at the one path is a file at the other. -/
theorem exit_of_invoke (hread : Arguments.read arguments = .ok a) (hdump : a.dumpConfig = false)
    (habsolute : Location.isAbsolute s.directory = true) (hdirectory : '\x00' ∉ s.directory.toList)
    (hlog : ∀ location, a.logFile = some (.text location) → '\x00' ∉ location.toList)
    (time : Logging.Time) (disk : Disk) :
    ∃ outcome, invoke s time arguments disk = .ok outcome ∧
      (outcome.exit = .ok exitNoInput ↔ hasFile s time a disk (inputPath s a) = false) ∧
      (hasFile s time a disk (inputPath s a) = true →
        outcome = execute s time a.json (settings s a).1 (ready s time a disk) ∧
          ∀ r, runOutcome s time a disk = .ok r →
            outcome.exit = .ok (if r.ok then exitOk else exitFailed)) ∧
      (outcome.exit = .ok exitOk → hasFile s time a disk (readPath s a) = true) ∧
      (Location.SpelledOut s (ready s time a disk).disk (inputPath s a) →
        (outcome.exit = .ok exitNoInput ↔ hasFile s time a disk (readPath s a) = false)) := by
  have hlogging : (Logging.Session.configure s (loggingOf a) false).Succeeds :=
    Logging.Session.succeeds_configure (readable_loggingOf hdirectory hlog) false
  have hinvoke : invoke s time arguments disk = .ok (call s time a disk) := by
    rw [invoke, hread]
    rfl
  have hends : (call s time a disk).exit = .ok exitNoInput ↔
      hasFile s time a disk (inputPath s a) = false := exit_eq_noInput_iff hdump hlogging
  refine ⟨call s time a disk, hinvoke, hends, fun hfile => ⟨?_, fun r hr => ?_⟩, fun hok => ?_,
    fun hspelled => ?_⟩
  · exact call_of_file hdump hlogging hfile
  · rw [exit_of_file hdump hlogging hfile, hr]
    rfl
  · obtain ⟨r, hr, hresult⟩ := runOutcome_of_exitOk hdump hlogging hok
    exact hasFile_of_runOutcome habsolute hr hresult
  · rw [hends, hasFile_readPath habsolute hspelled]

/-- The arguments of a call with an input path. -/
def withInput (location : String) : Arguments :=
  { Arguments.none with input := some (.text location) }

/-- A working directory and a home directory. -/
def homeplace : Surroundings := ⟨"/work", [("HOME", "/home")], [], "root"⟩

/-- Descriptions in the home directory, in the working directory, and in a directory whose name is
the shortcut for the home directory. -/
def homeDisk : Disk :=
  ⟨[(["home"], .directory), (["home", "api.json"], .file "\x7b\x7d".toUTF8),
    (["work"], .directory), (["work", "here.json"], .file "\x7b\x7d".toUTF8),
    (["work", "~"], .directory), (["work", "~", "own.json"], .file "\x7b\x7d".toUTF8)]⟩

def newYear : Logging.Time := ⟨2024, 1, 1, 0, 0, 0, 0⟩

theorem spelledOut_here :
    Location.SpelledOut homeplace (ready homeplace newYear (withInput ".//here.json") homeDisk).disk
      (inputPath homeplace (withInput ".//here.json")) where
  expanded := by decide +kernel
  forward := by decide +kernel
  name := by decide +kernel
  bare := by decide +kernel
  usable := ⟨by decide +kernel, by decide +kernel⟩
  usableForm := ⟨by decide +kernel, by decide +kernel⟩
  directory := fun _ => rfl

/-- A path that is spelled out leads a call and its run to the same file. -/
theorem exit_of_invoke_spelledOut :
    ∃ outcome, invoke homeplace newYear ["-i", ".//here.json"] homeDisk = .ok outcome ∧
      hasFile homeplace newYear (withInput ".//here.json") homeDisk
        (readPath homeplace (withInput ".//here.json")) = true ∧
      outcome.exit ≠ .ok exitNoInput := by
  have hread : Arguments.read ["-i", ".//here.json"] = .ok (withInput ".//here.json") := by
    decide +kernel
  have hfile : hasFile homeplace newYear (withInput ".//here.json") homeDisk
      (readPath homeplace (withInput ".//here.json")) = true := by decide +kernel
  obtain ⟨outcome, hinvoke, -, -, -, hends⟩ := exit_of_invoke hread rfl (s := homeplace) (by decide)
    (by decide) nofun newYear homeDisk
  refine ⟨outcome, hinvoke, hfile, fun hexit => ?_⟩
  have hmissing := (hends spelledOut_here).1 hexit
  exact Bool.false_ne_true (hmissing.symm.trans hfile)

/-- The home directory is expanded by a run only. So a call finds no description where a run would
find one, and it finds one where a run does not. -/
theorem home_directory_judged_differently :
    (∃ outcome, invoke homeplace newYear ["-i", "~/api.json"] homeDisk = .ok outcome ∧
      outcome.exit = .ok exitNoInput ∧
      hasFile homeplace newYear (withInput "~/api.json") homeDisk
        (readPath homeplace (withInput "~/api.json")) = true) ∧
    ∃ outcome, invoke homeplace newYear ["-i", "~/own.json"] homeDisk = .ok outcome ∧
      outcome.exit = .ok exitFailed ∧
      hasFile homeplace newYear (withInput "~/own.json") homeDisk
        (readPath homeplace (withInput "~/own.json")) = false := by
  have hread (location : String) (h : Arguments.read ["-i", location] = .ok (withInput location)) :
      invoke homeplace newYear ["-i", location] homeDisk =
        .ok (call homeplace newYear (withInput location) homeDisk) := by
    rw [invoke, h]
    rfl
  exact ⟨⟨_, hread "~/api.json" (by decide +kernel), by decide +kernel, by decide +kernel⟩,
    ⟨_, hread "~/own.json" (by decide +kernel), by decide +kernel, by decide +kernel⟩⟩

end ApiTypings.CommandLine
