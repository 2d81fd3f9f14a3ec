import LineKeeper.Host
import LineKeeper.Proofs.LineRequests
import LineKeeper.Proofs.Resolution

/-!
# Invocations that end before they turn to a server

The program reads its command line, checks what it read, and, if lines are to be requested,
looks them up and builds the request.  Only then does it turn to a server: it becomes one,
or it makes a call to one, which it starts if there is none.

**Ways to end.**  `FailsEarly` says how an invocation fails on the way there, and with what
text; `Informs` that help or the version was asked for; `GoesOn` where an invocation goes
that has passed everything.  Every invocation goes exactly one of these three ways.

**Results.**
* `failsEarly_of_hindered`: what is wrong with the lines that are asked for is noticed early.
* `early_failures_leave_no_trace`: an invocation that fails early ends with code 1, and the
  machine is as it was: its servers and all their connections, who owns which address, the
  files, and what has reached the devices.
-/

namespace LineKeeper

open CommandLine (Options)

namespace Host

variable {h : Host} {caller : Caller} {words : List (List UInt8)} {o : Options}
  {finished : Finished} {outcome : Finished × Host} {output : Bool} {lines : List LineArg}

section Ways

/-- The invocation fails before it turns to a server. -/
inductive FailsEarly (h : Host) (caller : Caller) (words : List (List UInt8)) : Finished → Prop
  | misread (e : CommandLine.UsageError)
      (hread : Options.ofWords caller.environment words = .error e)
      (hfault : e.fault.isFault = true) :
      FailsEarly h caller words (.ofUsageError caller.environment e)
  | invalid (o : Options) (message : String)
      (hread : Options.ofWords caller.environment words = .ok o)
      (hcheck : o.validate = .error message) : FailsEarly h caller words (.failure message)
  | unresolved (o : Options) (output : Bool) (lines : List LineArg) (e : ResolveError)
      (hoptions : options caller words = .ok o) (hcommand : o.command = .request output lines)
      (hresolve : Resolve.resolve h.chips o.lookup (lines.map (·.line)) = .error e) :
      FailsEarly h caller words (.failure e.message)
  | unbuilt (o : Options) (output : Bool) (lines : List LineArg) (found : Resolved) (e : WireError)
      (hoptions : options caller words = .ok o) (hcommand : o.command = .request output lines)
      (hresolve : Resolve.resolve h.chips o.lookup (lines.map (·.line)) = .ok found)
      (hbuild : o.buildSpec found output lines = .error e) :
      FailsEarly h caller words (.failure e.message)

/-- What is wrong with the lines that are asked for: the chips cannot be read, or the lines are refused,
or a limit of the request is broken. -/
inductive Hindered (chips : Chips) (o : Options) (lines : List LineArg) :
    CommandLine.SpecError → Prop
  | unread (e : ResolveError) (hinventory : Resolve.inventory chips o.lookup = .error e) :
      Hindered chips o lines (.lines e)
  | refused (entries : List ChipLines) (e : ResolveError)
      (hinventory : Resolve.inventory chips o.lookup = .ok entries)
      (hwords : Resolve.HaveWords entries)
      (hrefused : Resolve.Refused entries o.lookup (lines.map (·.line)) e) :
      Hindered chips o lines (.lines e)
  | broken (entries : List ChipLines) (found : Resolved) (e : WireError)
      (hinventory : Resolve.inventory chips o.lookup = .ok entries)
      (hwords : Resolve.HaveWords entries)
      (hresolves : Resolve.Resolves entries o.lookup (lines.map (·.line)) found)
      (hbreaks : o.Breaks found e) : Hindered chips o lines (.limits e)

/-- Help or the version is asked for. -/
def Informs (caller : Caller) (words : List (List UInt8)) : Prop :=
  ∃ e, Options.ofWords caller.environment words = .error e ∧ e.fault.isFault = false

/-- The call that options ask for on a machine with these chips. -/
inductive Asks (o : Options) (chips : Chips) : Client.Call → Prop
  | ping (hcommand : o.command = .ping) : Asks o chips .ping
  | stop (hcommand : o.command = .stop) : Asks o chips .stop
  | release (id : RequestId) (hcommand : o.command = .release id) : Asks o chips (.release id)
  | request (output : Bool) (lines : List LineArg) (spec : LineSpec)
      (hcommand : o.command = .request output lines)
      (hspec : o.lineSpec chips output lines = .ok spec) : Asks o chips (.request spec)

/-- The invocation turns to a server, and this comes of it. -/
inductive GoesOn (h : Host) (caller : Caller) (words : List (List UInt8)) :
    Finished × Host → Prop
  | serves (o : Options) (hoptions : options caller words = .ok o) (hcommand : o.command = .debug) :
      GoesOn h caller words (h.runServer caller o)
  | calls (o : Options) (c : Client.Call) (hoptions : options caller words = .ok o)
      (hasks : Asks o h.chips c) : GoesOn h caller words (h.runCall caller o c)

end Ways

section Reading

/-- A command line is refused for help and the version, for a fault, or by the check of what was
read. -/
theorem options_eq_error_iff :
    options caller words = .error finished ↔
      (∃ e, Options.ofWords caller.environment words = .error e ∧
        finished = .ofUsageError caller.environment e) ∨
      ∃ o message, Options.ofWords caller.environment words = .ok o ∧
        o.validate = .error message ∧ finished = .failure message := by
  rw [options]
  constructor
  · intro hread
    split at hread
    · next e hwords =>
      cases hread
      exact .inl ⟨e, hwords, rfl⟩
    · next o hwords =>
      split at hread
      · next message hcheck =>
        cases hread
        exact .inr ⟨o, message, hwords, hcheck, rfl⟩
      · cases hread
  · rintro (⟨e, hwords, rfl⟩ | ⟨o, message, hwords, hcheck, rfl⟩)
    · simp only [hwords]
    · simp only [hwords, hcheck]

/-- No request is made exactly if the lines are not resolved, or if nothing can be built for
them. -/
theorem lineSpec_cases (o : Options) (chips : Chips) (output : Bool) (lines : List LineArg) :
    (∃ spec, o.lineSpec chips output lines = .ok spec) ∨
      (∃ e, Resolve.resolve chips o.lookup (lines.map (·.line)) = .error e) ∨
      ∃ found e, Resolve.resolve chips o.lookup (lines.map (·.line)) = .ok found ∧
        o.buildSpec found output lines = .error e := by
  rw [Options.lineSpec]
  cases hresolve : Resolve.resolve chips o.lookup (lines.map (·.line)) with
  | error e => exact .inr (.inl ⟨e, rfl⟩)
  | ok found =>
      cases hbuild : o.buildSpec found output lines with
      | error e => exact .inr (.inr ⟨found, e, rfl, hbuild⟩)
      | ok spec => exact .inl ⟨spec, by simp only [hbuild]⟩

end Reading

section Running

theorem run_of_options (hoptions : options caller words = .ok o) :
    h.run caller words = h.perform caller o := by
  rw [run, hoptions]

theorem run_of_no_options (hoptions : options caller words = .error finished) :
    h.run caller words = (finished, h) := by
  rw [run, hoptions]

/-- What fails early fails while its options are read and checked, or because it has no request to
make. -/
theorem FailsEarly.stops (hfails : FailsEarly h caller words finished) :
    options caller words = .error finished ∨
      ∃ o output lines e, options caller words = .ok o ∧ o.command = .request output lines ∧
        o.lineSpec h.chips output lines = .error e ∧ finished = .failure e.message := by
  cases hfails with
  | misread e hread _ => exact .inl (options_eq_error_iff.mpr (.inl ⟨e, hread, rfl⟩))
  | invalid o message hread hcheck =>
      exact .inl (options_eq_error_iff.mpr (.inr ⟨o, message, hread, hcheck, rfl⟩))
  | unresolved o output lines e hoptions hcommand hresolve =>
      refine .inr ⟨o, output, lines, .lines e, hoptions, hcommand, ?_, rfl⟩
      simp only [Options.lineSpec, hresolve]
  | unbuilt o output lines found e hoptions hcommand hresolve hbuild =>
      refine .inr ⟨o, output, lines, .limits e, hoptions, hcommand, ?_, rfl⟩
      simp only [Options.lineSpec, hresolve, hbuild]

/-- What fails early is over before the machine is touched. -/
theorem FailsEarly.run_eq (hfails : FailsEarly h caller words finished) :
    h.run caller words = (finished, h) := by
  rcases hfails.stops with hoptions | ⟨o, output, lines, e, hoptions, hcommand, hspec, rfl⟩
  · exact run_of_no_options hoptions
  · rw [run_of_options hoptions, perform, hcommand]
    simp only [hspec]

/-- Starting the program without waiting for its end makes no difference. -/
theorem FailsEarly.begin_eq (hfails : FailsEarly h caller words finished) :
    h.begin caller words = (.error finished, h) := by
  rcases hfails.stops with hoptions | ⟨o, output, lines, e, hoptions, hcommand, hspec, rfl⟩
  · rw [begin, hoptions]
  · rw [begin, hoptions]
    simp only [perform, hcommand, hspec]

/-- The process ends with a failure and writes nothing but why it failed. -/
theorem FailsEarly.code (hfails : FailsEarly h caller words finished) :
    finished.code = 1 ∧ finished.output = "" := by
  cases hfails with
  | misread e _ hfault =>
      rw [Finished.ofUsageError, hfault]
      exact ⟨rfl, rfl⟩
  | _ => exact ⟨rfl, rfl⟩

theorem GoesOn.run_eq (hgoes : GoesOn h caller words outcome) :
    h.run caller words = outcome := by
  cases hgoes with
  | serves o hoptions hcommand =>
      rw [run_of_options hoptions, perform, hcommand]
  | calls o c hoptions hasks =>
      rw [run_of_options hoptions, perform]
      cases hasks with
      | ping hcommand => rw [hcommand]
      | stop hcommand => rw [hcommand]
      | release id hcommand => rw [hcommand]
      | request output lines spec hcommand hspec =>
          rw [hcommand]
          simp only [hspec]

end Running

section Outcomes

/-- Options that were read and checked lead to a server, or to lines that cannot be requested. -/
theorem goesOn_or_failsEarly (hoptions : options caller words = .ok o) :
    (∃ outcome, GoesOn h caller words outcome) ∨ ∃ finished, FailsEarly h caller words finished := by
  cases hcommand : o.command with
  | debug => exact .inl ⟨_, .serves o hoptions hcommand⟩
  | ping => exact .inl ⟨_, .calls o .ping hoptions (.ping hcommand)⟩
  | stop => exact .inl ⟨_, .calls o .stop hoptions (.stop hcommand)⟩
  | release id => exact .inl ⟨_, .calls o (.release id) hoptions (.release id hcommand)⟩
  | request output lines =>
      rcases lineSpec_cases o h.chips output lines with
        ⟨spec, hspec⟩ | ⟨e, hresolve⟩ | ⟨found, e, hresolve, hbuild⟩
      · exact .inl ⟨_, .calls o (.request spec) hoptions (.request output lines spec hcommand hspec)⟩
      · exact .inr ⟨_, .unresolved o output lines e hoptions hcommand hresolve⟩
      · exact .inr ⟨_, .unbuilt o output lines found e hoptions hcommand hresolve hbuild⟩

/-- What turns to a server has been read and checked. -/
theorem GoesOn.checked (hgoes : GoesOn h caller words outcome) :
    ∃ o, options caller words = .ok o := by
  cases hgoes with
  | serves o hoptions _ => exact ⟨o, hoptions⟩
  | calls o _ hoptions _ => exact ⟨o, hoptions⟩

/-- Lines that cannot be requested are asked for in no call. -/
theorem GoesOn.not_failsEarly (hgoes : GoesOn h caller words outcome) :
    ¬ FailsEarly h caller words finished := by
  intro hfails
  rcases hfails.stops with hoptions | ⟨o, output, lines, e, hoptions, hcommand, hspec, -⟩
  · obtain ⟨o, hoptions'⟩ := hgoes.checked
    cases hoptions.symm.trans hoptions'
  · cases hgoes with
    | serves o' hoptions' hcommand' =>
        cases hoptions.symm.trans hoptions'
        cases hcommand.symm.trans hcommand'
    | calls o' c hoptions' hasks =>
        cases hoptions.symm.trans hoptions'
        cases hasks with
        | ping hcommand' => cases hcommand.symm.trans hcommand'
        | stop hcommand' => cases hcommand.symm.trans hcommand'
        | release id hcommand' => cases hcommand.symm.trans hcommand'
        | request output' lines' spec hcommand' hspec' =>
            cases hcommand.symm.trans hcommand'
            cases hspec.symm.trans hspec'

/-- An invocation that asks for information succeeds, so it has not failed in any way. -/
theorem Informs.not_failsEarly (hinforms : Informs caller words) :
    ¬ FailsEarly h caller words finished := by
  obtain ⟨e, hread, hnone⟩ := hinforms
  intro hfails
  have hrun := hfails.run_eq.symm.trans (run_of_usageError hread)
  have hcode := hfails.code.1
  rw [(Prod.mk.inj hrun).1, Finished.ofUsageError, hnone] at hcode
  cases hcode

/-- Every invocation asks for information, fails early, or turns to a server. -/
theorem exists_way (h : Host) (caller : Caller) (words : List (List UInt8)) :
    Informs caller words ∨ (∃ finished, FailsEarly h caller words finished) ∨
      ∃ outcome, GoesOn h caller words outcome := by
  cases hoptions : options caller words with
  | ok o => exact .inr (goesOn_or_failsEarly hoptions).symm
  | error finished =>
      rcases options_eq_error_iff.mp hoptions with ⟨e, hread, -⟩ | ⟨o, message, hread, hcheck, -⟩
      · cases hfault : e.fault.isFault with
        | true => exact .inr (.inl ⟨_, .misread e hread hfault⟩)
        | false => exact .inl ⟨e, hread, hfault⟩
      · exact .inr (.inl ⟨_, .invalid o message hread hcheck⟩)

/-- An invocation fails early exactly if it neither asks for information nor turns to a server. -/
theorem exists_failsEarly_iff :
    (∃ finished, FailsEarly h caller words finished) ↔
      ¬ Informs caller words ∧ ¬ ∃ outcome, GoesOn h caller words outcome := by
  constructor
  · rintro ⟨finished, hfails⟩
    exact ⟨fun hinforms => hinforms.not_failsEarly hfails,
      fun ⟨_, hgoes⟩ => hgoes.not_failsEarly hfails⟩
  · rintro ⟨hinforms, hgoes⟩
    exact ((exists_way h caller words).resolve_left hinforms).resolve_right hgoes

/-- **Lines that cannot be requested.** Whatever is wrong with them is noticed early. -/
theorem failsEarly_of_hindered {e : CommandLine.SpecError} (hoptions : options caller words = .ok o)
    (hcommand : o.command = .request output lines) (hhindered : Hindered h.chips o lines e) :
    FailsEarly h caller words (.failure e.message) := by
  cases hhindered with
  | unread e hinventory =>
      have hresolve : Resolve.resolve h.chips o.lookup (lines.map (·.line)) = .error e :=
        bind_eq_error_iff.mpr (.inl hinventory)
      exact .unresolved o output lines e hoptions hcommand hresolve
  | refused entries e hinventory hwords hrefused =>
      have hresolve : Resolve.resolve h.chips o.lookup (lines.map (·.line)) = .error e :=
        bind_eq_error_iff.mpr
          (.inr ⟨entries, hinventory, (Resolve.refused_iff hwords).mpr hrefused⟩)
      exact .unresolved o output lines e hoptions hcommand hresolve
  | broken entries found e hinventory hwords hresolves hbreaks =>
      have hresolve : Resolve.resolve h.chips o.lookup (lines.map (·.line)) = .ok found :=
        Resolve.resolve_eq_ok_iff.mpr
          ⟨entries, hinventory, (Resolve.resolves_iff hwords).mpr hresolves⟩
      exact .unbuilt o output lines found e hoptions hcommand hresolve
        ((Options.breaks_iff_of_resolve hresolve).mpr hbreaks)

/-- **Early failures.** An invocation that fails before it turns to a server ends with code 1 and
leaves the machine as it was; so it is when anything is wrong with the lines that are asked for.
One that does not fail early asks for information or turns to a server. -/
theorem early_failures_leave_no_trace (h : Host) (caller : Caller) (words : List (List UInt8)) :
    (∀ finished, FailsEarly h caller words finished →
      h.run caller words = (finished, h) ∧ h.begin caller words = (.error finished, h) ∧
        finished.code = 1 ∧ finished.output = "") ∧
    (∀ o output lines e, options caller words = .ok o → o.command = .request output lines →
      Hindered h.chips o lines e → FailsEarly h caller words (.failure e.message)) ∧
    (∀ outcome, GoesOn h caller words outcome → h.run caller words = outcome) ∧
    ((∃ finished, FailsEarly h caller words finished) ↔
      ¬ Informs caller words ∧ ¬ ∃ outcome, GoesOn h caller words outcome) :=
  ⟨fun _ hfails => ⟨hfails.run_eq, hfails.begin_eq, hfails.code⟩,
    fun _ _ _ _ => failsEarly_of_hindered,
    fun _ hgoes => hgoes.run_eq,
    exists_failsEarly_iff⟩

/-- Somebody who has no home. -/
def stranger : Caller :=
  ⟨.empty, [], 1000, none⟩

/-- A machine on which a server in the background holds both lines of the board. -/
def litHost : Host :=
  ((fresh Options.board .empty).run stranger (Options.lampWords "lamp")).2

/-- A request with a long label does not reach the server that runs there. -/
theorem litHost_keeps_no_trace :
    litHost.servers.length = 1 ∧ litHost.journal.length = 1 ∧
      ∃ finished, FailsEarly litHost stranger (Options.lampWords Options.longLabel) finished ∧
        litHost.run stranger (Options.lampWords Options.longLabel) = (finished, litHost) ∧
        finished.code = 1 := by
  have hfails : FailsEarly litHost stranger (Options.lampWords Options.longLabel)
      (.failure (WireError.fieldTooLong .consumer).message) :=
    .unbuilt (Options.lampOptions Options.longLabel) false Options.lampLines
      ⟨"/dev/gpiochip0", [0, 1]⟩ (.fieldTooLong .consumer) (by decide +kernel) rfl
      (by decide +kernel) (by decide +kernel)
  obtain ⟨hrun, -, hcode, -⟩ := (early_failures_leave_no_trace _ _ _).1 _ hfails
  exact ⟨by decide +kernel, by decide +kernel, _, hfails, hrun, hcode⟩

end Outcomes

end Host
end LineKeeper
