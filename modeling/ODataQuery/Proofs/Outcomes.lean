import ODataQuery.Proofs.ArgumentForms
import ODataQuery.Proofs.GenerousLimit

/-! The outcome of a run is all or nothing. Either the whole output is printed and no error is
logged, or nothing is printed and the log ends with its only error. A compilation succeeds
exactly if the file can be read and its tree compiles. The verbosity chooses among the lines of
the log and has no say in anything else. -/
namespace ODataQuery

open FilterTree

/-- All of the output is there, and no error is logged. -/
structure Outcome.Succeeds (a : Outcome) : Prop where
  exitCode : a.exitCode = 0
  stdout : ∃ text, a.stdout = text ++ "\n"
  log : ∀ line ∈ a.log, line.level ≠ .error

/-- None of the output is there, and the log ends with its only error, unless it is off. -/
structure Outcome.Fails (a : Outcome) (v : Verbosity) : Prop where
  exitCode : a.exitCode = 1
  stdout : a.stdout = ""
  log : v ≠ none → ∃ before message, a.log = before ++ [⟨.error, message⟩] ∧
    ∀ line ∈ before, line.level ≠ .error

/-- The file of the request is the encoding of a text, which reads as a tree, which
compiles. -/
def CompileRequest.Yields (read : FileReader) (request : CompileRequest) (c : Compiled) : Prop :=
  ∃ text t, read request.path = .ok text.toUTF8 ∧ FilterTree.ofJson text = .ok t ∧
    compile request.options t = .ok c

theorem decodeText_eq_ok_iff {bytes : ByteArray} {text : String} :
    decodeText bytes = .ok text ↔ bytes = text.toUTF8 := by
  rw [decodeText, String.fromUTF8?]
  constructor
  · intro h
    split at h
    · rename_i hvalid
      split at hvalid
      · cases hvalid
        cases h
        rfl
      · cases hvalid
    · cases h
  · rintro rfl
    rw [String.toUTF8_eq_toByteArray, dif_pos text.isValidUTF8]
    rfl

theorem yields_iff {read : FileReader} {request : CompileRequest} {c : Compiled} :
    request.Yields read c ↔
      ∃ t, treeAt read request.path = .ok t ∧ compile request.options t = .ok c := by
  constructor
  · rintro ⟨text, t, hread, htext, hc⟩
    exact ⟨t, treeAt_eq_ok_iff.mpr ⟨_, text, hread, decodeText_eq_ok_iff.mpr rfl, htext⟩, hc⟩
  · rintro ⟨t, ht, hc⟩
    obtain ⟨bytes, text, hread, hbytes, htext⟩ := treeAt_eq_ok_iff.mp ht
    rw [decodeText_eq_ok_iff.mp hbytes] at hread
    exact ⟨text, t, hread, htext, hc⟩

/-- A request yields one result at most. -/
theorem CompileRequest.Yields.unique {read : FileReader} {request : CompileRequest}
    {c c' : Compiled} (h : request.Yields read c) (h' : request.Yields read c') : c = c' := by
  obtain ⟨t, ht, hc⟩ := yields_iff.mp h
  obtain ⟨t', ht', hc'⟩ := yields_iff.mp h'
  rw [ht] at ht'
  cases ht'
  rw [hc] at hc'
  exact Except.ok.inj hc'

/-- The event is no failure. -/
def RunEvent.Quiet (e : RunEvent) : Prop := e.logLine.level ≠ .error

theorem quiet_started (path : String) (o : Options) : (RunEvent.started path o).Quiet := nofun

/-- The compiler reports no error. -/
theorem quiet_compiler (e : Event) : (RunEvent.compiler e).Quiet := by
  cases e <;> exact nofun

namespace Run

/-- The ways in which a run ends; what comes before the end is no failure. -/
inductive Ended : Run → Prop
  | printed (text : String) {events : List RunEvent} (quiet : ∀ e ∈ events, e.Quiet) :
      Ended (.printed text events)
  | failed {events : List RunEvent} (quiet : ∀ e ∈ events, e.Quiet) (failure : Failure) :
      Ended (.failed events failure)

end Run

/-- What is printed is the report of what the request yields, and without that the run
fails. -/
theorem CompileRequest.run_cases (read : FileReader) (request : CompileRequest) :
    (∃ c events, request.Yields read c ∧ (∀ e ∈ events, e.Quiet) ∧
        request.run read = .printed (c.report request.format) events) ∨
      ∃ events failure, (∀ c, ¬ request.Yields read c) ∧ (∀ e ∈ events, e.Quiet) ∧
        request.run read = .failed events failure := by
  simp only [yields_iff, CompileRequest.run]
  cases treeAt read request.path with
  | error failure =>
    refine .inr ⟨[], failure, ?_, ?_, rfl⟩
    · rintro c ⟨t, ht, -⟩
      cases ht
    · exact List.forall_mem_nil _
  | ok t =>
    -- with a tree at hand there are events, whether or not it compiles
    have hquiet : ∀ e ∈ RunEvent.started request.path request.options ::
        (compileEvents request.options t).map RunEvent.compiler, e.Quiet := by
      intro e he
      rcases List.mem_cons.mp he with rfl | he
      · exact quiet_started request.path request.options
      · obtain ⟨event, -, rfl⟩ := List.mem_map.mp he
        exact quiet_compiler event
    cases hc : compile request.options t with
    | ok c => exact .inl ⟨c, _, ⟨t, rfl, hc⟩, hquiet, by simp only [hc]⟩
    | error reason =>
      refine .inr ⟨_, .rejected reason, ?_, hquiet, by simp only [hc]⟩
      rintro c ⟨t', ht', hc'⟩
      cases ht'
      rw [hc] at hc'
      cases hc'

theorem Command.run_ended (read : FileReader) (command : Command) : (command.run read).Ended := by
  cases command with
  | version => exact .printed _ (List.forall_mem_nil _)
  | operators format => exact .printed _ (List.forall_mem_nil _)
  | compile request =>
    rw [Command.run]
    rcases request.run_cases read with
      ⟨c, events, -, hquiet, hrun⟩ | ⟨events, failure, -, hquiet, hrun⟩
    · rw [hrun]
      exact .printed _ hquiet
    · rw [hrun]
      exact .failed hquiet failure

namespace Run

/-- Events that are no failures leave no error in the log. -/
theorem level_of_mem_filter {events : List RunEvent} (hquiet : ∀ e ∈ events, e.Quiet)
    {p : LogLine → Bool} {line : LogLine}
    (h : line ∈ (events.map RunEvent.logLine).filter p) : line.level ≠ .error := by
  obtain ⟨e, he, rfl⟩ := List.mem_map.mp (List.mem_filter.mp h).1
  exact hquiet e he

theorem outcome_of_ended {r : Run} (h : r.Ended) (v : Verbosity) :
    (r.outcome v).Succeeds ∨ (r.outcome v).Fails v := by
  cases h with
  | printed text hquiet => exact .inl ⟨rfl, ⟨text, rfl⟩, fun _ => level_of_mem_filter hquiet⟩
  | @failed events hquiet failure =>
    refine .inr ⟨rfl, rfl, ?_⟩
    intro hv
    obtain ⟨least, rfl⟩ := Option.ne_none_iff_exists'.mp hv
    -- an error is logged at every level
    have hlast : [(RunEvent.failed failure).logLine].filter
        (fun line => Verbosity.admits (some least) line.level) = [⟨.error, failure.message⟩] :=
      List.filter_cons_of_pos (decide_eq_true (Nat.zero_le least.rank))
    refine ⟨_, failure.message, ?_, fun _ => level_of_mem_filter hquiet
      (p := fun line => Verbosity.admits (some least) line.level)⟩
    change ((events ++ [RunEvent.failed failure]).map RunEvent.logLine).filter _ = _
    rw [List.map_append, List.filter_append, List.map_singleton, hlast]

/-- A level keeps the lines of its rank or a smaller one. -/
theorem log_eq_filter_trace (r : Run) (least : Level) :
    r.log (some least) = (r.log (some .trace)).filter fun line => line.level.rank ≤ least.rank := by
  have htrace : ∀ level, Verbosity.admits (some .trace) level = true := by
    intro level
    cases level <;> rfl
  have hall : r.log (some .trace) = r.events.map RunEvent.logLine := by
    rw [log, List.filter_eq_self]
    exact fun line _ => htrace line.level
  rw [hall]
  rfl

theorem log_off (r : Run) : r.log none = [] :=
  List.filter_eq_nil_iff.mpr fun _ _ => Bool.false_ne_true

end Run

theorem runProgram_eq_some_iff {read : FileReader} {arguments : List String} {r : Run} :
    runProgram read arguments = some r ↔
      ∃ command, Command.ofArguments arguments = .ok command ∧ command.run read = r := by
  rw [runProgram, respond]
  cases Command.ofArguments arguments <;> simp [Except.map, Except.toOption]

/-- Whatever the arguments and the files are, a run succeeds or fails altogether. A run of
`compile` succeeds exactly if the request yields a result, and prints the report of that. All
verbosities see the same exit code and output, and each level sees the lines of the full log
that are grave enough. -/
theorem outcome_all_or_nothing (read : FileReader) {arguments : List String} {r : Run}
    (h : runProgram read arguments = some r) :
    (∀ v, (r.outcome v).Succeeds ∨ (r.outcome v).Fails v) ∧
      (arguments.head? = some "compile" →
        ∃ request : CompileRequest, request.GivenBy arguments) ∧
      (∀ request : CompileRequest, request.GivenBy arguments → ∀ v,
        ((r.outcome v).exitCode = 0 ↔ ∃ c, request.Yields read c) ∧
          ∀ c, request.Yields read c →
            (r.outcome v).stdout = c.report request.format ++ "\n") ∧
      (∀ v v', (r.outcome v).exitCode = (r.outcome v').exitCode ∧
        (r.outcome v).stdout = (r.outcome v').stdout) ∧
      (r.outcome none).log = [] ∧
      ∀ least, (r.outcome (some least)).log =
        (r.outcome (some .trace)).log.filter fun line => line.level.rank ≤ least.rank := by
  obtain ⟨command, hcommand, rfl⟩ := runProgram_eq_some_iff.mp h
  refine ⟨Run.outcome_of_ended (command.run_ended read), ?_, ?_, fun _ _ => ⟨rfl, rfl⟩,
    Run.log_off _, Run.log_eq_filter_trace _⟩
  · intro hfirst
    obtain ⟨rest, rfl⟩ := List.head?_eq_some_iff.mp hfirst
    obtain ⟨request, hgiven, -⟩ := givenBy_of_ofArguments hcommand
    exact ⟨request, hgiven⟩
  · intro request hgiven v
    -- the request that is run is the only one that the arguments give
    obtain ⟨rest, -, rfl, -⟩ := id hgiven
    obtain ⟨other, hother, rfl⟩ := givenBy_of_ofArguments hcommand
    obtain rfl := hgiven.unique hother
    change ((request.run read).exitCode = 0 ↔ _) ∧ ∀ c, _ → (request.run read).stdout = _
    rcases request.run_cases read with
      ⟨c, events, hc, -, hrun⟩ | ⟨events, failure, hnone, -, hrun⟩
    · rw [hrun]
      refine ⟨⟨fun _ => ⟨c, hc⟩, fun _ => rfl⟩, ?_⟩
      intro c' hc'
      rw [hc.unique hc']
      rfl
    · rw [hrun]
      refine ⟨⟨nofun, ?_⟩, fun c hc => absurd hc (hnone c)⟩
      rintro ⟨c, hc⟩
      exact absurd hc (hnone c)

theorem outcome_all_or_nothing_joined_limit :
    let t := comparison "eq" (property "A") (number "1")
    let read : FileReader := fun path =>
      if path = "f" then .ok t.toJson.compact.toUTF8 else .error .notFound
    let arguments := ["compile", "--max-depth=+02", "--tree", "f", "--bind", "--"]
    let request : CompileRequest := ⟨"f", ⟨.bind, some 2⟩, .plain⟩
    let c : Compiled := ⟨"\x7b A: \x7b $eq: @p1 \x7d \x7d", [⟨.literal .number, "1"⟩]⟩
    ∃ r, runProgram read arguments = some r ∧ request.GivenBy arguments ∧
      request.Yields read c ∧ (r.outcome (some .warn)).exitCode = 0 ∧
      (r.outcome (some .warn)).stdout =
        "\x7b A: \x7b $eq: @p1 \x7d \x7d\n@p1 = 1 (number)\n" := by
  intro t read arguments request c
  have hcommand : Command.ofArguments arguments = .ok (.compile request) := by decide +kernel
  have hrun : runProgram read arguments = some ((Command.compile request).run read) :=
    runProgram_eq_some_iff.mpr ⟨_, hcommand, rfl⟩
  obtain ⟨other, hgiven, hother⟩ := givenBy_of_ofArguments hcommand
  cases hother
  have htree : FilterTree.ofJson t.toJson.compact = .ok t := by decide +kernel
  have hyields : request.Yields read c := ⟨_, t, rfl, htree, by decide +kernel⟩
  obtain ⟨-, -, hcompile, -⟩ := outcome_all_or_nothing read hrun
  obtain ⟨hcode, hstdout⟩ := hcompile request hgiven (some .warn)
  refine ⟨_, hrun, hgiven, hyields, hcode.mpr ⟨c, hyields⟩, ?_⟩
  rw [hstdout c hyields]
  decide +kernel

end ODataQuery
