import LineKeeper.Address
import LineKeeper.File.Log

/-!
# Starting a server on demand

A launcher connects to the server that owns a name. If there is none, it checks
the log file, binds the name, starts a server of its own in the background and
connects to whoever owns the name then. Another launcher may have been faster;
then the name is in use and the launcher simply connects.

**Steps.** `Launcher.step` takes one step, so that the steps of several launchers
can be mixed; `Launcher.run` takes all of them, and `Launcher.start` those that
start a server.

**Results.**
* `step_connected`, `step_failed`: a launcher that is done stays as it is.
-/

namespace LineKeeper

/-- Why a launcher failed. -/
inductive LaunchError
  | cannotConnect (f : Failure)
  | log (e : LogFileError)
  | bind (e : BindError)
  | notStarted
deriving DecidableEq, Repr

namespace LaunchError

/-- The text of the error. -/
def message : LaunchError → String
  | cannotConnect f => "Failed to connect to server: " ++ f.message
  | log e => "Failed to set up the server log: " ++ e.message
  | bind e => e.message
  | notStarted => "Failed to connect to server: server did not start"

end LaunchError

/-- What a launcher does next, or how it ended. -/
inductive LaunchStage
  | connecting
  | preparing
  | binding
  | detaching
  | reconnecting
  | connected (server : Nat)
  | failed (e : LaunchError)
deriving DecidableEq, Repr

/-- What launchers share: who owns which name, which servers run in the background, and files. -/
structure LaunchSite where
  addresses : Addresses
  detached : List Nat
  files : FileTree
deriving DecidableEq, Repr

/-- A launcher: the name it looks for, its log file, the number that a server of its own would
have, and what it does next. -/
structure Launcher where
  name : String
  logFile : Option LogFile
  number : Nat
  stage : LaunchStage
deriving DecidableEq, Repr

namespace Launcher

/-- A launcher that has done nothing yet. -/
def fresh (name : String) (logFile : Option LogFile) (number : Nat) : Launcher :=
  ⟨name, logFile, number, .connecting⟩

/-- The launcher at another stage. -/
def toStage (l : Launcher) (stage : LaunchStage) : Launcher :=
  { l with stage := stage }

/-- Takes the next step. -/
def step (l : Launcher) (site : LaunchSite) : Launcher × LaunchSite :=
  match l.stage with
  | .connecting =>
      match site.addresses.tryConnect l.name with
      | .error f => (l.toStage (.failed (.cannotConnect f)), site)
      | .ok (some server) => (l.toStage (.connected server), site)
      | .ok none => (l.toStage .preparing, site)
  | .preparing =>
      match l.logFile with
      | none => (l.toStage .binding, site)
      | some logFile =>
          let (prepared, files) := logFile.prepare site.files
          let site := { site with files := files }
          match prepared with
          | .error e => (l.toStage (.failed (.log e)), site)
          | .ok () => (l.toStage .binding, site)
  | .binding =>
      match site.addresses.bind l.name l.number with
      | .ok addresses => (l.toStage .detaching, { site with addresses := addresses })
      | .error e =>
          if e.isInUse then (l.toStage .reconnecting, site) else (l.toStage (.failed (.bind e)), site)
  | .detaching =>
      (l.toStage .reconnecting, { site with detached := site.detached ++ [l.number] })
  | .reconnecting =>
      match site.addresses.tryConnect l.name with
      | .error f => (l.toStage (.failed (.cannotConnect f)), site)
      | .ok (some server) => (l.toStage (.connected server), site)
      | .ok none => (l.toStage (.failed .notStarted), site)
  | .connected _ => (l, site)
  | .failed _ => (l, site)

/-- Takes steps. -/
def runFor : Nat → Launcher → LaunchSite → Launcher × LaunchSite
  | 0, l, site => (l, site)
  | n + 1, l, site =>
      let (l, site) := l.step site
      runFor n l site

/-- Takes all steps: there are five. -/
def run (l : Launcher) (site : LaunchSite) : Launcher × LaunchSite :=
  runFor 5 l site

/-- Starts a server without looking for one first: takes the steps from the check of the log file
to the start in the background. -/
def start (l : Launcher) (site : LaunchSite) : Launcher × LaunchSite :=
  runFor 3 (l.toStage .preparing) site

/-- Does the launcher look for a server that is not there? Then it needs a server of its own. -/
def isStarting (l : Launcher) (site : LaunchSite) : Bool :=
  (l.step site).1.stage = .preparing

theorem step_connected {l : Launcher} {server : Nat} (site : LaunchSite)
    (h : l.stage = .connected server) : l.step site = (l, site) := by
  simp [step, h]

theorem step_failed {l : Launcher} {e : LaunchError} (site : LaunchSite)
    (h : l.stage = .failed e) : l.step site = (l, site) := by
  simp [step, h]

end Launcher
end LineKeeper
