import ODataQuery.Proofs.Traversal

/-! Which rejection is reported. The problems of a filter are listed without stopping at
any of them; compiling succeeds exactly if there is none, and else reports the first. The
list does not ask where literals go, nor what literals and properties say. -/
namespace ODataQuery

open Encounter

/-- The problems of the tree at the given depth. A wrong number of operands comes after the
problems in the operands. -/
def problems (limit : Option UInt64) (depth : Nat) (t : FilterTree) : List Rejection :=
  (encounters limit depth t).filterMap problem?

theorem compile_eq_error_iff (o : Options) (t : FilterTree) (e : Rejection) :
    compile o t = .error e ↔ (problems o.maxDepth 1 t).head? = some e := by
  have hrender : compile o t = .error e ↔ (render o 1 0 t).rejection? = some e := by
    simp only [compile, Rendering.rejection?]
    cases (render o 1 0 t).result <;> simp [Except.map]
  rw [hrender, (render_follows o 1 0 t).rejection, problems, List.head?_filterMap]

theorem compile_eq_ok_iff (o : Options) (t : FilterTree) :
    (∃ c, compile o t = .ok c) ↔ problems o.maxDepth 1 t = [] := by
  have hfirst := compile_eq_error_iff o t
  rw [← List.head?_eq_none_iff]
  cases hc : compile o t with
  | ok c =>
    have hnone : (problems o.maxDepth 1 t).head? = none := by
      apply Option.eq_none_iff_forall_ne_some.mpr
      intro e he
      rw [← hfirst e, hc] at he
      cases he
    exact ⟨fun _ => hnone, fun _ => ⟨c, rfl⟩⟩
  | error e =>
    have hsome := (hfirst e).mp hc
    rw [hsome]
    constructor
    · rintro ⟨c, hc⟩
      cases hc
    · intro h
      cases h

namespace FilterTree

mutual

/-- The tree without the texts of its literals and properties. -/
def eraseTexts : FilterTree → FilterTree
  | node k s ts => node k (if k.isLiteral || k = .property then "" else s) (eraseTextsAll ts)

def eraseTextsAll : List FilterTree → List FilterTree
  | [] => []
  | t :: ts => t.eraseTexts :: eraseTextsAll ts

end

theorem length_eraseTextsAll (ts : List FilterTree) : (eraseTextsAll ts).length = ts.length := by
  induction ts with
  | nil => rfl
  | cons t ts ih => rw [eraseTextsAll, List.length_cons, List.length_cons, ih]

end FilterTree

open FilterTree

theorem problems_eraseTextsAll {limit : Option UInt64} {depth : Nat} {ts : List FilterTree}
    (h : ∀ t ∈ ts, problems limit depth t.eraseTexts = problems limit depth t) :
    (encountersAll limit depth (eraseTextsAll ts)).filterMap problem? =
      (encountersAll limit depth ts).filterMap problem? := by
  induction ts with
  | nil => rfl
  | cons t ts ih =>
    have hfirst : (encounters limit depth t.eraseTexts).filterMap problem? =
        (encounters limit depth t).filterMap problem? := h t List.mem_cons_self
    have hrest := ih fun u hu => h u (List.mem_cons_of_mem t hu)
    rw [eraseTextsAll, encountersAll, encountersAll, List.filterMap_append,
      List.filterMap_append, hfirst, hrest]

theorem problems_eraseTexts (limit : Option UInt64) (depth : Nat) (t : FilterTree) :
    problems limit depth t.eraseTexts = problems limit depth t := by
  induction t generalizing depth with
  | node kind text children ih =>
    have hall := problems_eraseTextsAll fun u hu => ih u hu (depth + 1)
    rw [problems, problems, eraseTexts]
    unfold encounters
    cases limit.filter (·.toNat < depth) with
    | some l => rfl
    | none =>
      cases kind with
      | literal k => rfl
      | property => rfl
      | unsupported k => rfl
      | list => exact hall
      | operator k =>
        -- the text of an operator is its name, which is kept
        have htext : (if (Kind.operator k).isLiteral || Kind.operator k = .property then ""
            else text) = text := rfl
        rw [htext, length_eraseTextsAll]
        cases Operator.ofName? text with
        | none => rfl
        | some op =>
          dsimp only
          cases op.template? children.length with
          | none => rfl
          | some t =>
            dsimp only
            rw [List.filterMap_append, List.filterMap_append, hall]

/-- Compiling succeeds exactly if the filter has no problem and is otherwise rejected for
the first one. So neither the style of literals nor the text of a literal or property
changes the outcome. -/
theorem compile_reports_first_problem (o : Options) (t : FilterTree) :
    ((∃ c, compile o t = .ok c) ↔ problems o.maxDepth 1 t = []) ∧
      (∀ e, compile o t = .error e ↔ (problems o.maxDepth 1 t).head? = some e) ∧
      ∀ o' t', o'.maxDepth = o.maxDepth → t'.eraseTexts = t.eraseTexts →
        ((∃ c, compile o' t' = .ok c) ↔ ∃ c, compile o t = .ok c) ∧
          ∀ e, compile o' t' = .error e ↔ compile o t = .error e := by
  refine ⟨compile_eq_ok_iff o t, compile_eq_error_iff o t, ?_⟩
  intro o' t' hlimit htexts
  have hsame : problems o'.maxDepth 1 t' = problems o.maxDepth 1 t := by
    calc problems o'.maxDepth 1 t'
        = problems o.maxDepth 1 t' := by rw [hlimit]
      _ = problems o.maxDepth 1 t'.eraseTexts := (problems_eraseTexts _ _ _).symm
      _ = problems o.maxDepth 1 t.eraseTexts := by rw [htexts]
      _ = problems o.maxDepth 1 t := problems_eraseTexts _ _ _
  constructor
  · rw [compile_eq_ok_iff, compile_eq_ok_iff, hsame]
  · intro e
    rw [compile_eq_error_iff, compile_eq_error_iff, hsame]

theorem compile_reports_first_problem_other_texts :
    problems (some 3) 1 (logical "and" [function "length" [property "A", number "1"],
        leaf (.unsupported .null) "null"]) =
        [.wrongArity .length 1 2, .unsupportedKind .null] ∧
      (logical "and" [function "length" [property "@p1", number "-"],
          leaf (.unsupported .null) "null"]).eraseTexts =
        (logical "and" [function "length" [property "A", number "1"],
          leaf (.unsupported .null) "null"]).eraseTexts ∧
      compile ⟨.bind, some 3⟩ (logical "and" [function "length" [property "@p1", number "-"],
          leaf (.unsupported .null) "null"]) = .error (.wrongArity .length 1 2) := by
  obtain ⟨-, hfirst, hothers⟩ := compile_reports_first_problem ⟨.inline, some 3⟩
    (logical "and" [function "length" [property "A", number "1"],
      leaf (.unsupported .null) "null"])
  have hproblems : problems (some 3) 1 (logical "and" [function "length" [property "A",
      number "1"], leaf (.unsupported .null) "null"]) =
      [.wrongArity .length 1 2, .unsupportedKind .null] := by decide +kernel
  have hreported := (hfirst (.wrongArity .length 1 2)).mpr (by rw [hproblems]; rfl)
  exact ⟨hproblems, rfl, ((hothers ⟨.bind, some 3⟩ _ rfl rfl).2 _).mpr hreported⟩

end ODataQuery
