import ODataQuery.Program.Run
import ODataQuery.Proofs.Arguments
import ODataQuery.Proofs.JsonNesting

/-! In the program a generous depth limit does nothing. A tree that is read from a file is at
most 64 nodes deep, so a limit of 64 or more is kept by every tree that gets as far as being
compiled. What is left of the limit is the line of the log that shows the options. -/
namespace ODataQuery

open FilterTree

/-- Two runs that only the lines of level `INFO` may tell apart. -/
structure Run.SameButInfo (r r' : Run) : Prop where
  exitCode : r.exitCode = r'.exitCode
  stdout : r.stdout = r'.stdout
  log : ∀ v, (r.log v).filter (·.level ≠ .info) = (r'.log v).filter (·.level ≠ .info)

theorem Run.SameButInfo.refl (r : Run) : r.SameButInfo r := ⟨rfl, rfl, fun _ => rfl⟩

/-- The line that shows the options is of level `INFO`. -/
theorem filter_log_started (r : Run) (path : String) (o : Options) (events : List RunEvent)
    (h : r.events = .started path o :: events) (v : Verbosity) :
    (r.log v).filter (·.level ≠ .info) =
      ((events.map RunEvent.logLine).filter fun line => v.admits line.level).filter
        (·.level ≠ .info) := by
  have hlevel : (RunEvent.started path o).logLine.level = .info := rfl
  rw [Run.log, h, List.map_cons, List.filter_cons]
  -- whether or not the line is shown at this verbosity
  split
  · rw [List.filter_cons_of_neg (by simp [hlevel])]
  · rfl

/-- Two runs with the same outcome that log the same after the options are shown. -/
theorem sameButInfo_of_started {r r' : Run} {path path' : String} {o o' : Options}
    {events : List RunEvent} (hcode : r.exitCode = r'.exitCode) (hout : r.stdout = r'.stdout)
    (h : r.events = .started path o :: events) (h' : r'.events = .started path' o' :: events) :
    r.SameButInfo r' := by
  refine ⟨hcode, hout, ?_⟩
  intro v
  rw [filter_log_started r path o events h, filter_log_started r' path' o' events h']

theorem compile_of_depth_le {limit : UInt64} {t : FilterTree} (h : t.depth ≤ limit.toNat)
    (style : LiteralStyle) :
    compile ⟨style, some limit⟩ t = compile ⟨style, none⟩ t ∧
      compileEvents ⟨style, some limit⟩ t = compileEvents ⟨style, none⟩ t := by
  have hreached := reachedDepth_le_depth t
  have hrender : render ⟨style, some limit⟩ 1 0 t = render ⟨style, none⟩ 1 0 t :=
    render_of_within (by omega) style 0
  exact ⟨compile_eq_of_render_eq hrender, by rw [compileEvents, compileEvents, hrender]⟩

theorem treeAt_eq_ok_iff {read : FileReader} {path : String} {t : FilterTree} :
    treeAt read path = .ok t ↔ ∃ bytes text, read path = .ok bytes ∧
      decodeText bytes = .ok text ∧ FilterTree.ofJson text = .ok t := by
  simp only [treeAt, bind, Except.bind]
  cases read path with
  | error e => simp [Except.mapError]
  | ok bytes =>
    cases htext : decodeText bytes with
    | error e => simp [Except.mapError, htext]
    | ok text => cases ht : FilterTree.ofJson text <;> simp [Except.mapError, htext, ht]

/-- A request with a generous limit runs as the request without it. -/
theorem run_sameButInfo (read : FileReader) (path : String) (bind json : Bool)
    {limit : UInt64} (hlimit : 64 ≤ limit.toNat) :
    ((compileRequest path bind json (some limit)).run read).SameButInfo
      ((compileRequest path bind json none).run read) := by
  unfold CompileRequest.run
  cases ht : treeAt read path with
  | error failure =>
    -- the options do not matter before there is a tree
    simp only [compileRequest, ht]
    exact Run.SameButInfo.refl _
  | ok t =>
    obtain ⟨bytes, text, -, -, hread⟩ := treeAt_eq_ok_iff.mp ht
    have hdepth : t.depth ≤ 64 := depth_of_ofJson hread
    obtain ⟨hcompile, hevents⟩ := compile_of_depth_le (Nat.le_trans hdepth hlimit)
      (if bind then .bind else .inline)
    simp only [compileRequest, ht, hcompile, hevents]
    cases compile ⟨if bind then .bind else .inline, none⟩ t with
    | ok compiled => exact sameButInfo_of_started rfl rfl rfl rfl
    | error reason => exact sameButInfo_of_started rfl rfl rfl rfl

/-- Every tree that is read from a text has at most 64 nodes on a path, and is read again
from its written form. So a limit from 64 on leaves the exit code, the output and the log of a
run as they are without it, but for the lines of level `INFO`; both runs take place unless the
path looks like an option. -/
theorem generous_limit_inert :
    (∀ text t, FilterTree.ofJson text = .ok t →
        t.depth ≤ 64 ∧ FilterTree.ofJson t.toJson.compact = .ok t) ∧
      ∀ (read : FileReader) (path : String) (bind json : Bool) (n : Nat),
        64 ≤ n → n < UInt64.size →
          (runProgram read (compileArguments path bind json)).isSome = !looksLikeOption path ∧
            Option.Rel Run.SameButInfo
              (runProgram read (compileArguments path bind json ++ ["--max-depth", toString n]))
              (runProgram read (compileArguments path bind json)) := by
  constructor
  · intro text t h
    have hdepth := depth_of_ofJson h
    have hback := ofJson_written t
    rw [if_pos hdepth] at hback
    exact ⟨hdepth, hback⟩
  · intro read path bind json n hlow hhigh
    have hnone : Setting.readAll [] = some [] := by rw [Setting.readAll]
    have hplain := ofArguments_compile path bind json none hnone
    have hlimited := ofArguments_compile path bind json (some (UInt64.ofNat n))
      (readAll_maxDepth hhigh)
    rw [List.append_nil] at hplain
    have hlimit : 64 ≤ (UInt64.ofNat n).toNat := by
      rw [UInt64.toNat_ofNat_of_lt' hhigh]
      exact hlow
    rw [runProgram, runProgram, respond, respond, hplain, hlimited]
    cases looksLikeOption path with
    | true => exact ⟨rfl, .none⟩
    | false => exact ⟨rfl, .some (run_sameButInfo read path bind json hlimit)⟩

theorem generous_limit_inert_mixed_spelling :
    FilterTree.ofJson
        "[\x7b\"list\":null\x7d,\"(\",[\x7b\"x\":[[]],\"value\":\"A\",\"kind\":\"property\"\x7d]]" =
        .ok (FilterTree.list [property "A"]) ∧
      (FilterTree.list [property "A"]).depth ≤ 64 ∧
      FilterTree.ofJson (FilterTree.list [property "A"]).toJson.compact =
        .ok (FilterTree.list [property "A"]) ∧
      Option.Rel Run.SameButInfo
        (runProgram (fun _ => .ok (FilterTree.list [property "A"]).toJson.compact.toUTF8)
          (compileArguments "f" true false ++ ["--max-depth", toString 64]))
        (runProgram (fun _ => .ok (FilterTree.list [property "A"]).toJson.compact.toUTF8)
          (compileArguments "f" true false)) := by
  have hread : FilterTree.ofJson
      "[\x7b\"list\":null\x7d,\"(\",[\x7b\"x\":[[]],\"value\":\"A\",\"kind\":\"property\"\x7d]]" =
      .ok (FilterTree.list [property "A"]) := by decide +kernel
  obtain ⟨htree, hrun⟩ := generous_limit_inert
  obtain ⟨hdepth, hback⟩ := htree _ _ hread
  exact ⟨hread, hdepth, hback, (hrun _ "f" true false 64 (by decide) (by decide)).2⟩

end ODataQuery
