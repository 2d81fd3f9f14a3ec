import LineKeeper.CommandLine.Options
import LineKeeper.CommandLine.Report
import LineKeeper.Exchange
import LineKeeper.Launch
import LineKeeper.LogFilter
import LineKeeper.Text.Json

/-!
# A machine on which the program is run

A `Host` is a machine with GPIO chips, files, and the servers that were started on
it. `Host.run` runs the program once: it reads the command line and either makes one
call to a server, which it starts if there is none, or is a server itself, in the
foreground.

**Servers.** Each server is a process of its own and holds its own lines. It owns
its address until it no longer listens. What it reports goes to a log file, to the
standard error, or nowhere.

**Time.** It passes for all servers alike. A server that is suspended takes no steps
until it is resumed; connections, bytes and signals wait for it meanwhile.

**Results.**
* `run_of_usageError`: a command line that asks for nothing leaves the machine as it
  is.
* `run_of_validate`: so do options that are refused.
-/

namespace LineKeeper

/-- How a process ended: its exit code and what it wrote. -/
structure Finished where
  code : Nat
  output : String
  errors : String
deriving DecidableEq, Repr

namespace Finished

/-- A process that did what it was asked for. -/
def success (output : String) : Finished :=
  ⟨0, output, ""⟩

/-- A process that says why it failed. -/
def failure (message : String) : Finished :=
  ⟨1, "", CommandLine.programName ++ ": " ++ message ++ "\n"⟩

/-- A process whose command line asked for nothing to be done. -/
def ofUsageError (env : Environment) (e : CommandLine.UsageError) : Finished :=
  let text := CommandLine.Report.text env e
  if e.fault.isFault then ⟨1, "", text⟩ else success text

end Finished

/-- Where the reports of a server go. -/
inductive LogSink
  | nowhere
  | file (place : List (List UInt8))
  | errors
deriving DecidableEq, Repr

/-- A server process: the server, which of its reports are written and where, how many of them and
of its device calls were dealt with, the lines that went to the standard error, and whether it is
suspended. -/
structure ServerProcess where
  loop : Loop
  sink : LogSink
  filter : LogFilter
  reported : Nat
  called : Nat
  lines : List String
  suspended : Bool

namespace ServerProcess

/-- Lets the server do what there is to do in `l`, unless it is suspended. -/
def goOn (p : ServerProcess) (l : Loop) : Loop :=
  if p.suspended then l else l.settle

/-- What becomes of the server while time passes. -/
def later (p : ServerProcess) (nanos : Nat) : Loop :=
  let target := p.loop.server.now + nanos
  if p.suspended then p.loop.atTime target else p.loop.sleepUntil target

end ServerProcess

/-- A machine: its chips, who owns which address, the files, the servers by their numbers, and what
reached the devices. -/
structure Host where
  chips : Chips
  site : LaunchSite
  servers : List ServerProcess
  journal : List DeviceCall

namespace Host

/-- A machine where nothing was run yet. -/
def fresh (chips : Chips) (files : FileTree) : Host :=
  ⟨chips, ⟨Addresses.empty, [], files⟩, [], []⟩

section Servers

/-- Replaces a server. Its new reports are written, its new device calls are recorded, and a server
that no longer listens gives up its address. -/
def update (h : Host) (number : Nat) (p : ServerProcess) : Host :=
  let reports := p.loop.server.reports
  let lines := (reports.drop p.reported).filter p.filter.allows
  let calls := p.loop.server.device.journal
  let files :=
    match p.sink with
    | .file place =>
        lines.foldl (fun t e => t.append place (e.line true ++ "\n")) h.site.files
    | _ => h.site.files
  let addresses :=
    if p.loop.server.net.listens then h.site.addresses else h.site.addresses.giveUp number
  let dealtWith := { p with
    reported := reports.length
    called := calls.length
    lines := p.lines ++ if p.sink = .errors then lines.map (LogEvent.line false) else [] }
  { h with
    site := { h.site with files := files, addresses := addresses }
    servers := h.servers.set number dealtWith
    journal := h.journal ++ calls.drop p.called }

/-- Lets time pass for all servers but one, for which it has passed. -/
def passBeside (h : Host) (number nanos : Nat) : Host :=
  if nanos = 0 then h
  else
    ((List.range h.servers.length).filter (· ≠ number)).foldl (fun h i =>
      match h.servers[i]? with
      | none => h
      | some p => h.update i { p with loop := p.later nanos }) h

/-- Lets a server do something, and the time that it takes pass for the others. -/
def withServer {α : Type} (h : Host) (number : Nat) (f : ServerProcess → α × Loop) :
    Option (α × Host) :=
  match h.servers[number]? with
  | none => none
  | some p =>
      let (a, l) := f p
      let h := h.update number { p with loop := l }
      some (a, h.passBeside number (l.server.now - p.loop.server.now))

/-- A server at its start. One that fails at once says so. -/
def started (h : Host) (period : Nat) (sink : LogSink) (filter : LogFilter) : ServerProcess :=
  let l := (Loop.start h.chips period).settle
  let l :=
    match sink, l.ending with
    | .errors, _ => l
    | _, some (.failed e) =>
        { l with server := l.server.log (.failed (Ending.timerMessage e)) }
    | _, _ => l
  ⟨l, sink, filter, 0, 0, [], false⟩

/-- Adds a server. Its number is the number of servers before it. -/
def addServer (h : Host) (p : ServerProcess) : Host :=
  ({ h with servers := h.servers ++ [p] }).update h.servers.length p

/-- The filter that the environment asks for. -/
def filterFor (caller : Caller) (level : LogLevel) : LogFilter :=
  .ofSetting ((caller.environment.get? LogFilter.variableName).bind Text.Utf8.decode?) level

/-- Starts a server in the background. It opens its log file first, and ends if it cannot. -/
def startDetached (h : Host) (caller : Caller) (config : ClientConfig) : Host :=
  let period := config.server.idleTimeout
  let filter := filterFor caller .info
  match config.logFile with
  | none => h.addServer (h.started period .nowhere filter)
  | some logFile =>
      let (opened, files) := logFile.init caller.home? h.site.files
      let h := { h with site := { h.site with files := files } }
      match opened with
      | .ok place => h.addServer (h.started period (.file place) filter)
      | .error _ =>
          let p := h.started period .nowhere filter
          let l := p.loop.finishWith p.loop.server.stopListening (.failed Errno.inputOutput)
          h.addServer { p with loop := l }

end Servers

section Clients

/-- Connects to the server of an address; starts one if there is none. -/
def launch (h : Host) (caller : Caller) (config : ClientConfig) :
    Except LaunchError Nat × Host :=
  let l := Launcher.fresh config.server.socketName config.logFile h.servers.length
  let (l, site) := Launcher.runFor 4 l h.site
  let h := { h with site := site }
  let h := if site.detached.contains l.number then h.startDetached caller config else h
  let (l, site) := l.step h.site
  let h := { h with site := site }
  match l.stage with
  | .connected server => (.ok server, h)
  | .failed e => (.error e, h)
  | _ => (.error .notStarted, h)

/-- Makes a call over a connection of its own. -/
def callOnce (timeout : Nat) (caller : Caller) (c : Client.Call) (l : Loop) :
    Except ClientError Message × Loop :=
  match l.connect (.usual ⟨0, caller.uid, ""⟩) with
  | none => (.error (.exchange (.system Errno.connectionReset)), l)
  | some (link, l) =>
      let (reply, l) := l.settle.call timeout link c
      (reply, (l.closeLink link).settle)

/-- Makes a call to a server that is suspended: what is sent waits there, and no reply comes. -/
def callUnheard (timeout : Nat) (caller : Caller) (c : Client.Call) (l : Loop) :
    Except ClientError Message × Loop :=
  match l.connect (.usual ⟨0, caller.uid, ""⟩) with
  | none => (.error (.exchange (.system Errno.connectionReset)), l)
  | some (link, l) =>
      if timeout = 0 then (.error (.exchange .zeroTimeout), l.closeLink link)
      else
        match l.send link c.message.encode with
        | .error e => (.error (.exchange (.system e)), l.closeLink link)
        | .ok l =>
            (.error .timeout,
              (l.atTime (l.server.now + timeout * nanosPerMilli)).closeLink link)

/-- Makes a call to the server of an address. -/
def call (h : Host) (caller : Caller) (config : ClientConfig) (c : Client.Call) :
    Except String Message × Host :=
  match h.launch caller config with
  | (.error e, h) => (.error e.message, h)
  | (.ok server, h) =>
      let timeout := config.timeout / nanosPerMilli
      let called := h.withServer server fun p =>
        if p.suspended then callUnheard timeout caller c p.loop
        else callOnce timeout caller c p.loop
      match called with
      | none => (.error LaunchError.notStarted.message, h)
      | some (.ok m, h) => (.ok m, h)
      | some (.error e, h) => (.error e.message, h)

/-- What is printed when a call was granted. -/
def printed (o : CommandLine.Options) : Client.Call → Message → String
  | .request spec, .reqOk id =>
      if o.json then
        (Text.Json.obj [
          ("request", .str id.text),
          ("chip_path", .str spec.chipPath.text),
          ("consumer", .str spec.consumer.text),
          ("offsets", .arr (spec.offsets.list.map fun n => .nat n.toNat)),
          ("values", .arr (spec.values.map fun n => .nat n.toNat)),
          ("active_low", .bool spec.activeLow),
          ("output", .bool spec.output)]).print ++ "\n"
      else id.text ++ "\n"
  | _, _ =>
      if o.json then
        (Text.Json.obj [("command", .str o.command.verb.name), ("ok", .bool true)]).print ++ "\n"
      else ""

/-- Makes a call and prints what it gave. -/
def runCall (h : Host) (caller : Caller) (o : CommandLine.Options) (c : Client.Call) :
    Finished × Host :=
  match h.call caller (o.clientConfig caller) c with
  | (.ok m, h) => (.success (printed o c m), h)
  | (.error message, h) => (.failure message, h)

end Clients

section Foreground

/-- Starts a server in the foreground and returns its number. -/
def startForeground (h : Host) (caller : Caller) (o : CommandLine.Options) :
    Except BindError Nat × Host :=
  let config := o.serverConfig caller
  let number := h.servers.length
  match h.site.addresses.bind config.socketName number with
  | .error e => (.error e, h)
  | .ok addresses =>
      let h := { h with site := { h.site with addresses := addresses } }
      (.ok number, h.addServer (h.started config.idleTimeout .errors (filterFor caller .debug)))

/-- How a server in the foreground ended. What it reported is written before the reason why it
failed. -/
def finishedServer (o : CommandLine.Options) (p : ServerProcess) : Option Finished :=
  let reports := String.join (p.lines.map (· ++ "\n"))
  match p.loop.ending with
  | none => none
  | some (.stopped reason) =>
      some ⟨0, if o.json then (Text.Json.obj [("stopped", .str reason.display)]).print ++ "\n" else "",
        reports⟩
  | some (.failed e) =>
      let failed := Finished.failure ("gpioctl server failed: " ++ Ending.timerMessage e)
      some { failed with errors := reports ++ failed.errors }

/-- Waits for the end of a server in the foreground, as long as time alone can bring it. -/
def awaitServer (h : Host) (o : CommandLine.Options) (number : Nat) : Option Finished × Host :=
  match h.withServer number fun p => ((), if p.suspended then p.loop else p.loop.join) with
  | none => (none, h)
  | some ((), h) => (h.servers[number]?.bind (finishedServer o), h)

/-- A server in the foreground, started by itself. -/
structure Foreground where
  options : CommandLine.Options
  number : Nat

/-- Runs a server in the foreground until it ends by itself. -/
def runServer (h : Host) (caller : Caller) (o : CommandLine.Options) : Finished × Host :=
  match h.startForeground caller o with
  | (.error e, h) => (.failure e.message, h)
  | (.ok number, h) =>
      let (finished, h) := h.awaitServer o number
      (finished.getD (.success ""), h)

end Foreground

section Running

/-- Reads a command line, up to the point where something is to be done. -/
def options (caller : Caller) (words : List (List UInt8)) :
    Except Finished CommandLine.Options :=
  match CommandLine.Options.ofWords caller.environment words with
  | .error e => .error (.ofUsageError caller.environment e)
  | .ok o =>
      match o.validate with
      | .error message => .error (.failure message)
      | .ok () => .ok o

/-- Does what options ask for. -/
def perform (h : Host) (caller : Caller) (o : CommandLine.Options) : Finished × Host :=
  match o.command with
  | .debug => h.runServer caller o
  | .ping => h.runCall caller o .ping
  | .stop => h.runCall caller o .stop
  | .release id => h.runCall caller o (.release id)
  | .request output lines =>
      match o.lineSpec h.chips output lines with
      | .error e => (.failure e.message, h)
      | .ok spec => h.runCall caller o (.request spec)

/-- Runs the program. -/
def run (h : Host) (caller : Caller) (words : List (List UInt8)) : Finished × Host :=
  match options caller words with
  | .error finished => (finished, h)
  | .ok o => h.perform caller o

/-- Starts the program without waiting for its end: a server in the foreground goes on. -/
def begin (h : Host) (caller : Caller) (words : List (List UInt8)) :
    Except Finished Foreground × Host :=
  match options caller words with
  | .error finished => (.error finished, h)
  | .ok o =>
      match o.command with
      | .debug =>
          match h.startForeground caller o with
          | (.error e, h) => (.error (.failure e.message), h)
          | (.ok number, h) => (.ok ⟨o, number⟩, h)
      | _ =>
          let (finished, h) := h.perform caller o
          (.error finished, h)

/-- Sends a signal to a server. It can suspend the server or let it go on. -/
def signal (h : Host) (number : Nat) (s : Signal) : Host :=
  match h.servers[number]? with
  | none => h
  | some p =>
      let suspended := s = .suspend || p.suspended && s ≠ .resume
      let p := { p with suspended := suspended }
      h.update number { p with loop := p.goOn (p.loop.signal s) }

/-- Connects to an address and hangs up at once. Says whether somebody listens there. -/
def probe (h : Host) (name : String) : Bool × Host :=
  match h.site.addresses.owner? name with
  | none => (false, h)
  | some number =>
      let knocked := h.withServer number fun p =>
        match p.loop.connect (.usual ⟨0, 0, ""⟩) with
        | none => (false, p.loop)
        | some (link, l) => (true, p.goOn ((p.goOn l).closeLink link))
      knocked.getD (false, h)

theorem run_of_usageError {h : Host} {caller : Caller} {words : List (List UInt8)}
    {e : CommandLine.UsageError}
    (he : CommandLine.Options.ofWords caller.environment words = .error e) :
    h.run caller words = (.ofUsageError caller.environment e, h) := by
  simp [run, options, he]

theorem run_of_validate {h : Host} {caller : Caller} {words : List (List UInt8)}
    {o : CommandLine.Options} {message : String}
    (ho : CommandLine.Options.ofWords caller.environment words = .ok o)
    (hv : o.validate = .error message) :
    h.run caller words = (.failure message, h) := by
  simp [run, options, ho, hv]

end Running

end Host
end LineKeeper
