import ODataQuery.Program.Report
import ODataQuery.Proofs.DepthLimit
import ODataQuery.Proofs.FirstProblem
import ODataQuery.Proofs.Layout
import ODataQuery.Proofs.OperatorNames

/-! The catalogue of operators against what compiling does. The catalogue is made from the
templates for up to three operands, and an operator counts as supported by its template for
none. Compiling takes the template for the operands at hand, of which there may be any
number. The two agree since no number but two has a template of its own. -/
namespace ODataQuery

open Encounter

namespace Operator

/-- What the table of templates shows of the arities: every template asks for a listed number
of operands, and for the largest of them, unless it is the one for two operands and two are
listed. -/
theorem arities_table :
    ∀ op ∈ known, ∀ n ∈ [2, 3], ∀ t ∈ op.template? n,
      op.isSupported = true ∧ t.arity ∈ op.arities ∧
        ((n = 2 ∧ 2 ∈ op.arities) ∨ op.arities.max? = some t.arity) := by
  decide +kernel

theorem arity_table :
    ∀ op ∈ known, ∀ n ∈ op.arities, (op.template? n).map Template.arity = some n := by
  decide +kernel

/-- An operator that is not supported has no template at all, and nothing is listed for it. -/
theorem template?_of_not_supported {op : Operator} (h : op.isSupported = false) :
    op.arities = [] ∧ ∀ n, op.template? n = none := by
  have htable : ∀ op ∈ known, op.isSupported = false → op.arities = [] := by decide +kernel
  refine ⟨htable op (mem_known op) h, ?_⟩
  intro n
  cases ht : op.template? n with
  | none => rfl
  | some t =>
    have hsupported := (of_template?_table arities_table ht).1
    rw [h] at hsupported
    cases hsupported

/-- The template for any number of operands asks for this number exactly if it is listed, and
otherwise for the largest number listed. -/
theorem template?_of_supported {op : Operator} (h : op.isSupported = true) (n : Nat) :
    ∃ t, op.template? n = some t ∧ (t.arity = n ↔ n ∈ op.arities) ∧
      (n ∉ op.arities → op.arities.max? = some t.arity) := by
  have htable : ∀ op ∈ known, op.isSupported = true →
      ∀ n ∈ [2, 3], (op.template? n).isSome = true := by decide +kernel
  have hsome : (op.template? n).isSome = true := by
    rw [template?_eq]
    exact htable op (mem_known op) h _ (by split <;> decide)
  obtain ⟨t, ht⟩ := Option.isSome_iff_exists.mp hsome
  obtain ⟨-, hlisted, hlargest⟩ := of_template?_table arities_table ht
  refine ⟨t, ht, ⟨?_, ?_⟩, ?_⟩
  · rintro rfl
    exact hlisted
  · intro hn
    have harity := arity_table op (mem_known op) n hn
    rw [ht] at harity
    exact Option.some.inj harity
  · intro hn
    rcases hlargest with ⟨htwo, hmem⟩ | hmax
    · -- the template for two operands serves no other number, and two are listed
      have hn2 : n = 2 := by
        by_contra hne
        rw [if_neg hne] at htwo
        cases htwo
      exact absurd (hn2 ▸ hmem) hn
    · exact hmax

/-- The catalogue has one entry for each operator. -/
theorem filter_entries (op : Operator) :
    entries.filter (·.name = op.name) = [op.entry] := by
  have hnodup : known.Nodup := by decide +kernel
  have hname : (fun other : Operator => decide (other.entry.name = op.name)) =
      fun other => decide (other = op) := by
    funext other
    apply decide_eq_decide.mpr
    exact ⟨name_injective, congrArg name⟩
  calc entries.filter (·.name = op.name)
      = (known.filter fun other => decide (other.entry.name = op.name)).map entry := by
        rw [entries, List.filter_map]
        rfl
    _ = (List.replicate (known.count op) op).map entry := by
        rw [hname, List.filter_eq]
    _ = [op.entry] := by
        rw [List.count_eq_one_of_mem hnodup (mem_known op)]
        rfl

end Operator

open FilterTree

/-- Without a depth limit, what compiles on its own has no problem at any depth. -/
theorem problems_unlimited {t : FilterTree} {style : LiteralStyle} {c : Compiled}
    (h : compile ⟨style, none⟩ t = .ok c) (depth : Nat) : problems none depth t = [] := by
  obtain ⟨x, hx, -⟩ := render_of_compile_ok h
  have hfollows := render_follows ⟨style, none⟩ depth 0 t
  have hnone : (encounters none depth t).findSome? problem? = none := by
    rw [← hfollows.rejection, render_unlimited style depth 1, Rendering.rejection?, hx]
  rw [problems, List.filterMap_eq_nil_iff]
  exact List.findSome?_eq_none_iff.mp hnone

theorem problems_operator {k : OperatorKind} {s : String} {op : Operator} {t : Template}
    {ts : List FilterTree} (hop : Operator.ofName? s = some op)
    (ht : op.template? ts.length = some t)
    (hts : ∀ u ∈ ts, ∃ style c, compile ⟨style, none⟩ u = .ok c) :
    problems none 1 (node (.operator k) s ts) =
      if t.arity = ts.length then [] else [.wrongArity op t.arity ts.length] := by
  have hchildren : (encountersAll none 2 ts).filterMap problem? = [] := by
    clear ht
    induction ts with
    | nil => rfl
    | cons u us ih =>
      obtain ⟨style, c, hc⟩ := hts u List.mem_cons_self
      have hfirst : (encounters none 2 u).filterMap problem? = [] := problems_unlimited hc 2
      have hrest := ih fun v hv => hts v (List.mem_cons_of_mem u hv)
      rw [encountersAll, List.filterMap_append, hfirst, hrest]
      rfl
  have hencounters : encounters none 1 (node (.operator k) s ts) =
      encountersAll none 2 ts ++
        if t.arity = ts.length then []
        else [.problem (.wrongArity op t.arity ts.length)] := by
    unfold encounters
    simp only [Option.filter_none, hop, ht]
  rw [problems, hencounters, List.filterMap_append, hchildren, List.nil_append]
  split <;> rfl

theorem compile_of_not_supported {op : Operator} (h : op.isSupported = false)
    (style : LiteralStyle) (k : OperatorKind) {s : String} (ts : List FilterTree)
    (hop : Operator.ofName? s = some op) :
    compile ⟨style, none⟩ (node (.operator k) s ts) = .error (.unimplemented op) := by
  have hnone := (Operator.template?_of_not_supported h).2 ts.length
  apply compile_eq_error_iff_render.mpr
  rw [render_eq_visit rfl, visit_unimplemented _ _ k hop hnone]
  rfl

theorem compile_of_supported {op : Operator} (h : op.isSupported = true)
    (style : LiteralStyle) (k : OperatorKind) {s : String} {ts : List FilterTree}
    (hop : Operator.ofName? s = some op)
    (hts : ∀ t ∈ ts, ∃ style' c, compile ⟨style', none⟩ t = .ok c) :
    ((∃ c, compile ⟨style, none⟩ (node (.operator k) s ts) = .ok c) ↔
        ts.length ∈ op.arities) ∧
      (ts.length ∉ op.arities → ∃ largest, op.arities.max? = some largest ∧
        compile ⟨style, none⟩ (node (.operator k) s ts) =
          .error (.wrongArity op largest ts.length)) := by
  obtain ⟨t, ht, hlisted, hlargest⟩ := Operator.template?_of_supported h ts.length
  have hproblems := problems_operator (k := k) hop ht hts
  rw [compile_eq_ok_iff]
  by_cases hn : t.arity = ts.length
  · rw [if_pos hn] at hproblems
    have hmem : ts.length ∈ op.arities := hlisted.mp hn
    exact ⟨iff_of_true hproblems hmem, fun hnot => absurd hmem hnot⟩
  · rw [if_neg hn] at hproblems
    have hnot : ts.length ∉ op.arities := fun hmem => hn (hlisted.mpr hmem)
    constructor
    · apply iff_of_false _ hnot
      rw [hproblems]
      exact List.cons_ne_nil _ _
    · intro _
      refine ⟨t.arity, hlargest hnot, ?_⟩
      rw [compile_eq_error_iff, hproblems]
      rfl

/-- The catalogue has one entry for each operator, and it says what compiling does without a
depth limit. With operands that compile on their own, an operator compiles exactly with a
listed number of them; with any other number a supported operator is rejected for its arity,
and the largest listed number is asked for. An operator that is listed as not supported has no
arities and is rejected whatever its operands are. -/
theorem catalogue_entry_truthful (op : Operator) :
    ∃ entry, Operator.entries.filter (·.name = op.name) = [entry] ∧
      (∀ (style : LiteralStyle) (k : OperatorKind) (s : String) (ts : List FilterTree),
        Operator.ofName? s = some op →
        (∀ t ∈ ts, ∃ style' c, compile ⟨style', none⟩ t = .ok c) →
        ((∃ c, compile ⟨style, none⟩ (node (.operator k) s ts) = .ok c) ↔
            ts.length ∈ entry.arities) ∧
          (entry.supported = true → ts.length ∉ entry.arities →
            ∃ largest, entry.arities.max? = some largest ∧
              compile ⟨style, none⟩ (node (.operator k) s ts) =
                .error (.wrongArity op largest ts.length))) ∧
      (entry.supported = false → entry.arities = [] ∧
        ∀ (style : LiteralStyle) (k : OperatorKind) (s : String) (ts : List FilterTree),
          Operator.ofName? s = some op →
          compile ⟨style, none⟩ (node (.operator k) s ts) = .error (.unimplemented op)) := by
  refine ⟨op.entry, op.filter_entries, ?_, ?_⟩
  · intro style k s ts hop hts
    cases hsupported : op.isSupported with
    | true =>
      obtain ⟨hok, hrejected⟩ := compile_of_supported hsupported style k hop hts
      exact ⟨hok, fun _ => hrejected⟩
    | false =>
      have hrejected := compile_of_not_supported hsupported style k ts hop
      have hnil : op.entry.arities = [] := (Operator.template?_of_not_supported hsupported).1
      constructor
      · -- both sides are false
        rw [hrejected, hnil]
        simp
      · intro h
        exact absurd (hsupported.symm.trans h) Bool.false_ne_true
  · intro hnot
    refine ⟨(Operator.template?_of_not_supported hnot).1, ?_⟩
    intro style k s ts hop
    exact compile_of_not_supported hnot style k ts hop

theorem catalogue_entry_truthful_substring :
    Operator.entries.filter (·.name = Operator.substring.name) =
        [⟨"substring", true, [2, 3]⟩] ∧
      (∃ c, compile ⟨.bind, none⟩ (function " SubString" [property "A", number "1"]) =
        .ok c) ∧
      compile ⟨.bind, none⟩ (function "substring" [property "A"]) =
        .error (.wrongArity .substring 3 1) ∧
      compile ⟨.inline, none⟩ (function "toupper" [leaf (.unsupported .null) "null"]) =
        .error (.unimplemented .toUpper) := by
  have hentry : Operator.entries.filter (·.name = Operator.substring.name) =
      [⟨"substring", true, [2, 3]⟩] := by decide +kernel
  obtain ⟨entry, hfound, hwith, -⟩ := catalogue_entry_truthful .substring
  have hsame : entry = ⟨"substring", true, [2, 3]⟩ :=
    List.singleton_inj.mp (hfound.symm.trans hentry)
  subst hsame
  have hone : ∀ t ∈ [property "A"], ∃ style' c, compile ⟨style', none⟩ t = .ok c := by
    intro t ht
    obtain rfl := List.mem_singleton.mp ht
    exact ⟨.bind, _, rfl⟩
  have htwo : ∀ t ∈ [property "A", number "1"],
      ∃ style' c, compile ⟨style', none⟩ t = .ok c := by
    intro t ht
    rcases List.mem_cons.mp ht with rfl | ht
    · exact ⟨.bind, _, rfl⟩
    · obtain rfl := List.mem_singleton.mp ht
      exact ⟨.inline, _, rfl⟩
  obtain ⟨hok, -⟩ := hwith .bind .function " SubString" _ (by decide +kernel) htwo
  obtain ⟨-, hrejected⟩ := hwith .bind .function "substring" _ (by decide +kernel) hone
  obtain ⟨largest, hlargest, herror⟩ := hrejected rfl (by decide)
  have hthree : largest = 3 := Option.some.inj (hlargest.symm.trans rfl)
  subst hthree
  obtain ⟨upper, hupper, -, hnot⟩ := catalogue_entry_truthful .toUpper
  have hplain : Operator.entries.filter (·.name = Operator.toUpper.name) =
      [⟨"toupper", false, []⟩] := by decide +kernel
  have hsame : upper = ⟨"toupper", false, []⟩ :=
    List.singleton_inj.mp (hupper.symm.trans hplain)
  subst hsame
  exact ⟨hentry, hok.mpr (by decide), herror,
    (hnot rfl).2 .inline .function "toupper" _ (by decide +kernel)⟩

end ODataQuery
