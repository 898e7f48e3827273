import ODataQuery.Proofs.Composition
import ODataQuery.Proofs.RenderingEvents

/-! The log of a compilation. It ends with its only line of level `DEBUG`, which tells the
outcome; a missing template is warned of right before it and at no other time. The log of a
compilation that succeeds can be read off the tree: the operators in the order in which they
get their texts, and the strings that lack quotes. -/
namespace ODataQuery

open FilterTree Rendering

/-- The lines of the log at all levels. -/
def compileLog (o : Options) (t : FilterTree) : List LogLine :=
  (compileEvents o t).map Event.logLine

/-- The message that tells the outcome of a compilation. -/
def outcomeMessage : Except Rejection Compiled → String
  | .ok c =>
    "Compiled filter (" ++ toString c.params.length ++ " bound parameter(s)): " ++ c.fragment
  | .error e => "Filter compilation failed: " ++ e.message

/-- The warning about an operator without a template. -/
def unimplementedLine (name : String) : LogLine :=
  ⟨.warn, "Filter uses unimplemented operator: " ++ name⟩

/-- The line tells of an operator with the text that it has on its own, without a depth
limit: with literals in place the text it is compiled to, else the text it has after some
number of parameters. -/
def TraceOf (style : LiteralStyle) (n : FilterTree) (line : LogLine) : Prop :=
  ∃ op text, Operator.ofName? n.text = some op ∧
    line = ⟨.trace, "Rendered " ++ op.name ++ " -> " ++ text⟩ ∧
    (style = .inline → compile ⟨.inline, none⟩ n = .ok ⟨text, []⟩) ∧
    ∃ bound, (render ⟨style, none⟩ 1 bound n).result = .ok text

theorem compileLog_eq (o : Options) (t : FilterTree) :
    compileLog o t =
      (render o 1 0 t).events.map Event.logLine ++ [⟨.debug, outcomeMessage (compile o t)⟩] := by
  rw [compileLog, compileEvents, compile, List.map_append]
  cases (render o 1 0 t).result <;> rfl

theorem unimplemented_of_logLine {e : Event} {name : String}
    (h : e.logLine = unimplementedLine name) : ∃ op, e = .unimplemented op ∧ op.name = name := by
  have hlevel : e.level = .warn := congrArg LogLine.level h
  have hmessage : e.message = "Filter uses unimplemented operator: " ++ name :=
    congrArg LogLine.message h
  cases e with
  | unimplemented op =>
    exact ⟨op, rfl, (String.append_right_inj "Filter uses unimplemented operator: ").mp hmessage⟩
  | unquoted text =>
    -- the other warning begins with another letter
    have hfirst : "String literal without enclosing quotes: ".toList.head? = some 'S' := by
      decide +kernel
    have hother : "Filter uses unimplemented operator: ".toList.head? = some 'F' := by
      decide +kernel
    change "String literal without enclosing quotes: " ++ text = _ at hmessage
    have hhead := congrArg (fun message => message.toList.head?) hmessage
    simp only [String.toList_append, List.head?_append, hfirst, hother, Option.some_or] at hhead
    cases hhead
  | rendered op text => cases hlevel
  | compiled params text => cases hlevel
  | rejected reason => cases hlevel

/-- No step of a rendering, and no warning, tells the outcome. -/
theorem level_events_ne_debug (o : Options) (t : FilterTree) :
    ∀ e ∈ (render o 1 0 t).events, e.level ≠ .debug := by
  obtain ⟨steps, hevents, hsteps⟩ := render_logged o 1 0 t
  rw [hevents]
  intro e he hdebug
  rcases List.mem_append.mp he with he | he
  · have hstep := hsteps e he
    cases e <;> first | cases hstep; done | cases hdebug
  · obtain ⟨op, rfl, -⟩ := mem_closing he
    cases hdebug

/-- A step does not warn of a missing template. -/
theorem unimplementedLine_notMem_steps {steps : List Event}
    (hsteps : ∀ e ∈ steps, e.isStep = true) (name : String) :
    unimplementedLine name ∉ steps.map Event.logLine := by
  intro hmem
  obtain ⟨e, he, hline⟩ := List.mem_map.mp hmem
  obtain ⟨op, rfl, -⟩ := unimplemented_of_logLine hline
  cases hsteps _ he

theorem compileLog_of_unimplemented {o : Options} {t : FilterTree} {op : Operator}
    (h : compile o t = .error (.unimplemented op)) :
    ∃ front, compileLog o t =
        front ++ [unimplementedLine op.name, ⟨.debug, outcomeMessage (compile o t)⟩] ∧
      ∀ name, unimplementedLine name ∉ front := by
  obtain ⟨steps, hevents, hsteps⟩ := render_logged o 1 0 t
  have hclosing := closing_of_error (compile_eq_error_iff_render.mp h)
  refine ⟨steps.map Event.logLine, ?_, unimplementedLine_notMem_steps hsteps⟩
  rw [compileLog_eq, hevents, hclosing, List.map_append, List.append_assoc]
  rfl

theorem unimplementedLine_mem_compileLog {o : Options} {t : FilterTree} {name : String} :
    unimplementedLine name ∈ compileLog o t ↔
      ∃ op, op.name = name ∧ compile o t = .error (.unimplemented op) := by
  constructor
  · intro hmem
    obtain ⟨steps, hevents, hsteps⟩ := render_logged o 1 0 t
    rw [compileLog_eq, hevents, List.map_append] at hmem
    rcases List.mem_append.mp hmem with hmem | hlast
    · rcases List.mem_append.mp hmem with hmem | hmem
      · exact absurd hmem (unimplementedLine_notMem_steps hsteps name)
      · obtain ⟨e, he, hline⟩ := List.mem_map.mp hmem
        obtain ⟨op, rfl, hname⟩ := unimplemented_of_logLine hline
        obtain ⟨op', hop, hresult⟩ := mem_closing he
        cases hop
        exact ⟨op, hname, compile_eq_error_iff_render.mpr hresult⟩
    · -- the last line is of another level
      cases congrArg LogLine.level (List.mem_singleton.mp hlast)
  · rintro ⟨op, rfl, h⟩
    obtain ⟨front, hlog, -⟩ := compileLog_of_unimplemented h
    rw [hlog]
    exact List.mem_append_right _ List.mem_cons_self

/-- The lines of one level are those of the events of this level; the outcome is of level
`DEBUG`. -/
theorem filter_compileLog (o : Options) (t : FilterTree) (level : Level)
    (h : level ≠ .debug) :
    (compileLog o t).filter (·.level = level) =
      ((render o 1 0 t).events.filter (·.level = level)).map Event.logLine := by
  have hlast : [(⟨.debug, outcomeMessage (compile o t)⟩ : LogLine)].filter
      (·.level = level) = [] := by
    simpa using h.symm
  rw [compileLog_eq, List.filter_append, hlast, List.append_nil, List.filter_map]
  rfl

theorem traceOf_of_renderedBy {o : Options} {n : FilterTree} {e : Event}
    (h : RenderedBy o n e) : TraceOf o.literals n e.logLine := by
  obtain ⟨op, text, depth, bound, hop, rfl, hrender⟩ := h
  refine ⟨op, text, hop, rfl, ?_, bound, render_unlimited_eq_ok hrender 1⟩
  intro hstyle
  obtain ⟨style, limit⟩ := o
  cases hstyle
  exact compile_inline_of_render_ok hrender

/-- The log of a compilation ends with the only line of level `DEBUG`, which tells the
outcome. It warns of an operator without a template exactly if the filter is rejected for it,
and then once, right before the end. If the compilation succeeds, the lines of level `TRACE`
tell of the operators that are reached, each behind its operands and with its own text, and
the warnings are about the strings without quotes from left to right. -/
theorem compileLog_follows_traversal (o : Options) (t : FilterTree) :
    (∃ front, compileLog o t = front ++ [⟨.debug, outcomeMessage (compile o t)⟩] ∧
        ∀ line ∈ front, line.level ≠ .debug) ∧
      (∀ name, unimplementedLine name ∈ compileLog o t ↔
        ∃ op, op.name = name ∧ compile o t = .error (.unimplemented op)) ∧
      (∀ op, compile o t = .error (.unimplemented op) →
        ∃ front, compileLog o t =
            front ++ [unimplementedLine op.name, ⟨.debug, outcomeMessage (compile o t)⟩] ∧
          ∀ name, unimplementedLine name ∉ front) ∧
      ∀ c, compile o t = .ok c →
        List.Forall₂ (TraceOf o.literals) t.operators
            ((compileLog o t).filter (·.level = .trace)) ∧
          (compileLog o t).filter (·.level = .warn) =
            t.unquoted.map fun n =>
              ⟨.warn, "String literal without enclosing quotes: " ++ n.text⟩ := by
  refine ⟨⟨_, compileLog_eq o t, ?_⟩, fun name => unimplementedLine_mem_compileLog,
    fun op => compileLog_of_unimplemented, ?_⟩
  · intro line hline
    obtain ⟨e, he, rfl⟩ := List.mem_map.mp hline
    exact level_events_ne_debug o t e he
  · intro c hc
    obtain ⟨x, hx, -⟩ := render_of_compile_ok hc
    obtain ⟨htraces, hwarnings⟩ := render_reports hx
    rw [filter_compileLog o t .trace nofun, filter_compileLog o t .warn nofun, hwarnings,
      List.map_map]
    refine ⟨?_, rfl⟩
    rw [List.forall₂_map_right_iff]
    exact htraces.imp fun n e => traceOf_of_renderedBy

theorem compileLog_follows_traversal_missing_quotes :
    compile ⟨.bind, some 3⟩ (comparison "eq" (function "Length" [leaf (.literal .string) "abc"])
        (string "x")) =
        .ok ⟨"\x7b \x7b $strLenCP: @p1 \x7d: \x7b $eq: @p2 \x7d \x7d",
          [⟨.literal .string, "abc"⟩, ⟨.literal .string, "x"⟩]⟩ ∧
      (compileLog ⟨.bind, some 3⟩ (comparison "eq"
          (function "Length" [leaf (.literal .string) "abc"]) (string "x"))).filter
          (·.level = .warn) =
        [⟨.warn, "String literal without enclosing quotes: abc"⟩] ∧
      List.Forall₂ (TraceOf .bind)
        [function "Length" [leaf (.literal .string) "abc"],
          comparison "eq" (function "Length" [leaf (.literal .string) "abc"]) (string "x")]
        ((compileLog ⟨.bind, some 3⟩ (comparison "eq"
          (function "Length" [leaf (.literal .string) "abc"]) (string "x"))).filter
          (·.level = .trace)) ∧
      ∃ front, compileLog ⟨.inline, none⟩ (logical "not" [function "YEAR" [number "1"]]) =
          front ++ [unimplementedLine "year", ⟨.debug,
            "Filter compilation failed: year is not implemented"⟩] ∧
        ∀ name, unimplementedLine name ∉ front := by
  have hok : compile ⟨.bind, some 3⟩
      (comparison "eq" (function "Length" [leaf (.literal .string) "abc"]) (string "x")) =
      .ok ⟨"\x7b \x7b $strLenCP: @p1 \x7d: \x7b $eq: @p2 \x7d \x7d",
        [⟨.literal .string, "abc"⟩, ⟨.literal .string, "x"⟩]⟩ := by decide +kernel
  have hrejected : compile ⟨.inline, none⟩ (logical "not" [function "YEAR" [number "1"]]) =
      .error (.unimplemented .year) := by decide +kernel
  obtain ⟨-, -, -, hsuccess⟩ := compileLog_follows_traversal ⟨.bind, some 3⟩
    (comparison "eq" (function "Length" [leaf (.literal .string) "abc"]) (string "x"))
  obtain ⟨htraces, hwarnings⟩ := hsuccess _ hok
  obtain ⟨-, -, hwarned, -⟩ := compileLog_follows_traversal ⟨.inline, none⟩
    (logical "not" [function "YEAR" [number "1"]])
  obtain ⟨front, hlog, hfront⟩ := hwarned .year hrejected
  rw [hrejected] at hlog
  exact ⟨hok, hwarnings, htraces, front, hlog, hfront⟩

end ODataQuery
