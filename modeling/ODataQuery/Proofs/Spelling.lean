import ODataQuery.Proofs.Layout
import ODataQuery.Proofs.OperatorNames

/-! How the names of operators are spelled does not matter. Two filters that differ in the
letter case of their operators and in the blanks around them are compiled to the same text
and parameters, or rejected for the same reason. Only an operator that is not known is
reported as written, which is in each of the filters its own way. -/
namespace ODataQuery

/-- The texts differ in the case of ASCII letters and in the blanks around them. -/
def Respells (s s' : String) : Prop :=
  ∃ before core after before' core' after',
    s.toList = before ++ core ++ after ∧ s'.toList = before' ++ core' ++ after' ∧
      (∀ c ∈ before ++ after ++ before' ++ after', isBlank c = true) ∧
      core.map Char.toLower = core'.map Char.toLower

theorem normalize_eq_of_respells {s s' : String} (h : Respells s s') :
    Operator.normalize s = Operator.normalize s' := by
  obtain ⟨before, core, after, before', core', after', hs, hs', hblank, hcore⟩ := h
  have htrim {before after : List Char} (core : List Char)
      (hbefore : ∀ c ∈ before, isBlank c = true) (hafter : ∀ c ∈ after, isBlank c = true) :
      trimBlank (before ++ core ++ after) = trimBlank core := by
    rw [trimBlank_append_blanks hafter, trimBlank_blanks_append hbefore]
  simp only [List.forall_mem_append] at hblank
  obtain ⟨⟨⟨hbefore, hafter⟩, hbefore'⟩, hafter'⟩ := hblank
  rw [Operator.normalize, Operator.normalize, hs, hs', htrim core hbefore hafter,
    htrim core' hbefore' hafter', ← trimBlank_map_toLower, ← trimBlank_map_toLower, hcore]

namespace FilterTree

/-- Two trees that agree in everything but the spelling of operator names. -/
inductive Respelled : FilterTree → FilterTree → Prop
  | node (kind : Kind) {s s' : String} {ts ts' : List FilterTree}
      (text : s = s' ∨ kind.isOperator = true ∧ Respells s s')
      (children : List.Forall₂ Respelled ts ts') :
      Respelled (.node kind s ts) (.node kind s' ts')

/-- The pairs of nodes that stand at the same place in two trees of one shape, as far as they
are reached. -/
def places (t t' : FilterTree) : List (FilterTree × FilterTree) := t.reached.zip t'.reached

theorem root_mem_places (t t' : FilterTree) : (t, t') ∈ places t t' := by
  cases t
  cases t'
  rw [places, reached, reached, List.zip_cons_cons]
  exact List.mem_cons_self

theorem length_flatMap_reached {ts ts' : List FilterTree} (hts : List.Forall₂ Respelled ts ts')
    (h : ∀ t ∈ ts, ∀ t', Respelled t t' → t.reached.length = t'.reached.length) :
    (ts.flatMap reached).length = (ts'.flatMap reached).length := by
  induction hts with
  | nil => rfl
  | @cons t t' ts ts' ht _ ih =>
    have hfirst := h t List.mem_cons_self t' ht
    have hrest := ih fun u hu => h u (List.mem_cons_of_mem t hu)
    rw [List.flatMap_cons, List.flatMap_cons, List.length_append, List.length_append, hfirst,
      hrest]

theorem Respelled.length_reached {t t' : FilterTree} (h : Respelled t t') :
    t.reached.length = t'.reached.length := by
  induction t generalizing t' with
  | node kind text children ih =>
    obtain ⟨_, -, hts⟩ := h
    by_cases hk : kind.nests = true
    · have hall := length_flatMap_reached hts fun t ht t' htt' => ih t ht htt'
      rw [reached_of_nests hk, reached_of_nests hk, List.length_cons, List.length_cons, hall]
    · rw [reached, reached, if_neg hk, if_neg hk]
      rfl

end FilterTree

open FilterTree

/-- Two answers that are the same, but that each names an unknown operator as it is written
in one of two nodes at the same place. -/
inductive SameAnswer {α : Type} (places : List (FilterTree × FilterTree)) :
    Except Rejection α → Except Rejection α → Prop
  | ok (a : α) : SameAnswer places (.ok a) (.ok a)
  | error {e : Rejection} (known : ∀ s, e ≠ .unknownOperator s) :
      SameAnswer places (.error e) (.error e)
  | unknown {n n' : FilterTree} (place : (n, n') ∈ places)
      (operator : n.kind.isOperator = true) :
      SameAnswer places (.error (.unknownOperator n.text)) (.error (.unknownOperator n'.text))

namespace SameAnswer

variable {α β : Type} {ps ps' : List (FilterTree × FilterTree)} {x x' : Except Rejection α}

theorem mono (h : SameAnswer ps x x') (hsub : ps ⊆ ps') : SameAnswer ps' x x' := by
  cases h with
  | ok a => exact .ok a
  | error hknown => exact .error hknown
  | unknown hplace hop => exact .unknown (hsub hplace) hop

theorem map (h : SameAnswer ps x x') (f : α → β) : SameAnswer ps (x.map f) (x'.map f) := by
  cases h with
  | ok a => exact .ok (f a)
  | error hknown => exact .error hknown
  | unknown hplace hop => exact .unknown hplace hop

/-- Both are results, or both are rejections that may stand in for any other answer. -/
theorem ok_or_error (h : SameAnswer ps x x') (β : Type) :
    (∃ a, x = .ok a ∧ x' = .ok a) ∨
      ∃ e e', x = .error e ∧ x' = .error e' ∧
        SameAnswer ps (.error e : Except Rejection β) (.error e') := by
  cases h with
  | ok a => exact .inl ⟨a, rfl, rfl⟩
  | error hknown => exact .inr ⟨_, _, rfl, rfl, .error hknown⟩
  | unknown hplace hop => exact .inr ⟨_, _, rfl, rfl, .unknown hplace hop⟩

theorem refl (hknown : ∀ s, x ≠ .error (.unknownOperator s)) : SameAnswer ps x x := by
  cases x with
  | ok a => exact .ok a
  | error e => exact .error fun s he => hknown s (congrArg Except.error he)

end SameAnswer

/-- Two renderings with the same answer that have bound the same parameters. -/
structure Rendering.SameUpTo {α : Type} (places : List (FilterTree × FilterTree))
    (r r' : Rendering α) : Prop where
  answer : SameAnswer places r.result r'.result
  params : r.params = r'.params

namespace Rendering.SameUpTo

variable {α β : Type} {ps ps' : List (FilterTree × FilterTree)} {r r' : Rendering α}

theorem mono (h : SameUpTo ps r r') (hsub : ps ⊆ ps') : SameUpTo ps' r r' :=
  ⟨h.answer.mono hsub, h.params⟩

theorem map (h : SameUpTo ps r r') (f : α → β) : SameUpTo ps (r.map f) (r'.map f) :=
  ⟨h.answer.map f, h.params⟩

theorem andThen {f f' : α → Rendering β} (h : SameUpTo ps r r')
    (hf : ∀ a, SameUpTo ps (f a) (f' a)) : SameUpTo ps (r.andThen f) (r'.andThen f') := by
  obtain ⟨a, hr, hr'⟩ | ⟨e, e', hr, hr', herror⟩ := h.answer.ok_or_error β
  · obtain ⟨hres, hpar⟩ := andThen_of_ok hr f
    obtain ⟨hres', hpar'⟩ := andThen_of_ok hr' f'
    have hnext := hf a
    constructor
    · rw [hres, hres']
      exact hnext.answer
    · rw [hpar, hpar', h.params, hnext.params]
  · obtain ⟨hres, hpar⟩ := andThen_of_error hr f
    obtain ⟨hres', hpar'⟩ := andThen_of_error hr' f'
    constructor
    · rw [hres, hres']
      exact herror
    · rw [hpar, hpar', h.params]

end Rendering.SameUpTo

/-- The step at a node under two spellings: neither name is known, or it is the same step and
does not report an unknown operator. -/
theorem visit_respelled {kind : Kind} {s s' : String}
    (h : s = s' ∨ kind.isOperator = true ∧ Respells s s') (o : Options) (bound n : Nat) :
    (∃ f, visit o bound kind s n = .operands f ∧ visit o bound kind s' n = .operands f ∧
        ∀ texts w, (f texts).result ≠ .error (.unknownOperator w)) ∨
      (∃ r, visit o bound kind s n = .settled r ∧ visit o bound kind s' n = .settled r ∧
        ∀ w, r.result ≠ .error (.unknownOperator w)) ∨
      (kind.isOperator = true ∧
        visit o bound kind s n = .settled (.reject (.unknownOperator s)) ∧
        visit o bound kind s' n = .settled (.reject (.unknownOperator s'))) := by
  cases kind with
  | operator k =>
    have hlookup : Operator.ofName? s' = Operator.ofName? s := by
      rcases h with rfl | ⟨-, h⟩
      · rfl
      · exact Operator.ofName?_congr (normalize_eq_of_respells h).symm
    cases hop : Operator.ofName? s with
    | none =>
      have hop' : Operator.ofName? s' = none := hlookup.trans hop
      exact .inr (.inr ⟨rfl, visit_unknown o bound k n hop, visit_unknown o bound k n hop'⟩)
    | some op =>
      have hop' : Operator.ofName? s' = some op := hlookup.trans hop
      cases ht : op.template? n with
      | none =>
        refine .inr (.inl ⟨_, visit_unimplemented o bound k hop ht,
          visit_unimplemented o bound k hop' ht, ?_⟩)
        intro w hw
        cases hw
      | some t =>
        refine .inl ⟨_, visit_operator o bound k hop ht, visit_operator o bound k hop' ht, ?_⟩
        intro texts w hw
        rw [applyTemplate] at hw
        split at hw <;> cases hw
  | list =>
    refine .inl ⟨_, rfl, rfl, ?_⟩
    intro texts w hw
    cases hw
  | literal k =>
    obtain rfl : s = s' := h.resolve_right fun h => Bool.false_ne_true h.1
    refine .inr (.inl ⟨_, rfl, rfl, ?_⟩)
    intro w hw
    rw [result_renderLiteral] at hw
    cases hw
  | property =>
    obtain rfl : s = s' := h.resolve_right fun h => Bool.false_ne_true h.1
    refine .inr (.inl ⟨_, rfl, rfl, ?_⟩)
    intro w hw
    cases hw
  | unsupported k =>
    refine .inr (.inl ⟨_, rfl, rfl, ?_⟩)
    intro w hw
    cases hw

theorem renderAll_respelled {o : Options} {depth : Nat} {ts ts' : List FilterTree}
    (hts : List.Forall₂ Respelled ts ts')
    (h : ∀ t ∈ ts, ∀ t', Respelled t t' → ∀ bound,
      (render o depth bound t).SameUpTo (places t t') (render o depth bound t')) (bound : Nat) :
    (renderAll o depth bound ts).SameUpTo
      ((ts.flatMap reached).zip (ts'.flatMap reached)) (renderAll o depth bound ts') := by
  induction hts generalizing bound with
  | nil => exact ⟨.ok [], rfl⟩
  | @cons t t' ts ts' ht _ ih =>
    have hfirst := h t List.mem_cons_self t' ht bound
    have hrest := ih fun u hu => h u (List.mem_cons_of_mem t hu)
    rw [renderAll, renderAll, List.flatMap_cons, List.flatMap_cons,
      List.zip_append ht.length_reached]
    apply (hfirst.mono (List.subset_append_left _ _)).andThen
    intro x
    -- the first tree has bound the same parameters in both, so the rest starts alike
    rw [← hfirst.params]
    exact ((hrest _).mono (List.subset_append_right _ _)).map (x :: ·)

theorem render_respelled (o : Options) {t t' : FilterTree} (h : Respelled t t')
    (depth bound : Nat) :
    (render o depth bound t).SameUpTo (places t t') (render o depth bound t') := by
  induction t generalizing t' depth bound with
  | node kind text children ih =>
    obtain @⟨_, _, text', _, children', htext, hts⟩ := h
    cases he : o.exceeded? depth with
    | some limit =>
      rw [render_of_exceeded he, render_of_exceeded he]
      exact ⟨.error nofun, rfl⟩
    | none =>
      rw [render_eq_visit he, render_eq_visit he, ← hts.length_eq]
      obtain ⟨f, hv, hv', hknown⟩ | ⟨r, hv, hv', hknown⟩ | ⟨hop, hv, hv'⟩ :=
        visit_respelled htext o bound children.length
      · rw [hv, hv']
        have hk : kind.nests = true := nests_of_operands hv
        have hall := renderAll_respelled hts
          (fun t ht t' htt' b => ih t ht htt' (depth + 1) b) bound
        rw [places, reached_of_nests hk, reached_of_nests hk, List.zip_cons_cons]
        apply (hall.mono (List.subset_cons_self _ _)).andThen
        intro texts
        exact ⟨.refl (hknown texts), rfl⟩
      · rw [hv, hv']
        exact ⟨.refl hknown, rfl⟩
      · rw [hv, hv']
        have hplace := root_mem_places (.node kind text children) (.node kind text' children')
        exact ⟨.unknown hplace hop, rfl⟩

/-- Filters that differ in the spelling of operators have the same outcome under all options,
but for the name in the report of an unknown operator. An operator is found by those texts
that without the blanks around them are its name up to the case of letters, all of them
letters and signs of the ASCII alphabet. -/
theorem spelling_does_not_matter :
    (∀ (o : Options) (t t' : FilterTree), Respelled t t' →
        SameAnswer (places t t') (compile o t) (compile o t')) ∧
      ∀ (s : String) (op : Operator), Operator.ofName? s = some op ↔
        ∃ core, TrimsTo s.toList core ∧ (∀ c ∈ core, c.toNat < 128) ∧
          core.map Char.toLower = op.name.toList.map Char.toLower := by
  constructor
  · intro o t t' h
    obtain ⟨hanswer, hparams⟩ := render_respelled o h 1 0
    rw [compile, compile, hparams]
    exact hanswer.map _
  · intro s op
    rw [Operator.ofName?_eq_some_iff_trimsTo]
    constructor
    · rintro ⟨core, hcore, hname⟩
      exact ⟨core, hcore, Operator.ascii_of_map_toLower hname, hname⟩
    · rintro ⟨core, hcore, -, hname⟩
      exact ⟨core, hcore, hname⟩

theorem spelling_does_not_matter_in_either_tree :
    Respelled (logical "AND" [function "length" [property "A"], function "nope" []])
        (logical "and\u2003" [function " Length" [property "A"], function "NOPE" []]) ∧
      SameAnswer
        (places (logical "AND" [function "length" [property "A"], function "nope" []])
          (logical "and\u2003" [function " Length" [property "A"], function "NOPE" []]))
        (compile ⟨.bind, some 3⟩
          (logical "AND" [function "length" [property "A"], function "nope" []]))
        (compile ⟨.bind, some 3⟩
          (logical "and\u2003" [function " Length" [property "A"], function "NOPE" []])) ∧
      compile ⟨.bind, some 3⟩
          (logical "AND" [function "length" [property "A"], function "nope" []]) =
        .error (.unknownOperator "nope") ∧
      compile ⟨.bind, some 3⟩
          (logical "and\u2003" [function " Length" [property "A"], function "NOPE" []]) =
        .error (.unknownOperator "NOPE") := by
  have hand : Respells "AND" "and\u2003" :=
    ⟨[], "AND".toList, [], [], "and".toList, ['\u2003'], rfl, rfl,
      List.all_eq_true.mp rfl, by decide⟩
  have hlength : Respells "length" " Length" :=
    ⟨[], "length".toList, [], [' '], "Length".toList, [], rfl, rfl,
      List.all_eq_true.mp rfl, by decide⟩
  have hnope : Respells "nope" "NOPE" :=
    ⟨[], "nope".toList, [], [], "NOPE".toList, [], rfl, rfl,
      List.all_eq_true.mp rfl, by decide⟩
  have h : Respelled (logical "AND" [function "length" [property "A"], function "nope" []])
      (logical "and\u2003" [function " Length" [property "A"], function "NOPE" []]) :=
    .node _ (.inr ⟨rfl, hand⟩)
      (.cons (.node _ (.inr ⟨rfl, hlength⟩) (.cons (.node _ (.inl rfl) .nil) .nil))
        (.cons (.node _ (.inr ⟨rfl, hnope⟩) .nil) .nil))
  exact ⟨h, spelling_does_not_matter.1 _ _ _ h, by decide +kernel, by decide +kernel⟩

end ODataQuery
