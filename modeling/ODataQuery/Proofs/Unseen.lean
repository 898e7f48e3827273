import ODataQuery.Proofs.CompileLog

/-! What a compilation does not look at: which of the kinds of operators a node has, the text
of a list and of an unsupported node, and whatever stands below a node that is neither a list
nor an operator. It leaves no trace in the outcome nor in the log, and nodes that stand there
do not count against a depth limit, however deep they are. -/
namespace ODataQuery
namespace FilterTree

/-- Two trees that differ in nothing that a compilation looks at. -/
inductive SameSeen : FilterTree → FilterTree → Prop
  | operator (k k' : OperatorKind) (s : String) {ts ts' : List FilterTree}
      (children : List.Forall₂ SameSeen ts ts') :
      SameSeen (node (.operator k) s ts) (node (.operator k') s ts')
  | list (s s' : String) {ts ts' : List FilterTree}
      (children : List.Forall₂ SameSeen ts ts') :
      SameSeen (node .list s ts) (node .list s' ts')
  | literal (k : LiteralKind) (s : String) (ts ts' : List FilterTree) :
      SameSeen (node (.literal k) s ts) (node (.literal k) s ts')
  | property (s : String) (ts ts' : List FilterTree) :
      SameSeen (node .property s ts) (node .property s ts')
  | unsupported (k : UnsupportedKind) (s s' : String) (ts ts' : List FilterTree) :
      SameSeen (node (.unsupported k) s ts) (node (.unsupported k) s' ts')

/-- Nothing stands below a literal or a property that is reached. -/
def HidesNothing (t : FilterTree) : Prop :=
  ∀ n ∈ t.reached, n.kind.isLiteral = true ∨ n.kind = .property → n.children = []

end FilterTree

open FilterTree

/-- Trees that look the same go through the same rendering, with the same parameters and
events, also if it ends with a rejection. -/
theorem render_sameSeen (o : Options) {t t' : FilterTree} (h : SameSeen t t')
    (depth bound : Nat) : render o depth bound t = render o depth bound t' := by
  induction t generalizing t' depth bound with
  | node kind text children ih =>
    have hall {ts' : List FilterTree} (hts : List.Forall₂ SameSeen children ts') :
        renderAll o (depth + 1) bound children = renderAll o (depth + 1) bound ts' := by
      apply renderAll_congr
      have hboth := (List.forall₂_and_left _ _).mpr ⟨ih, hts⟩
      exact hboth.imp fun t t' h bound => h.1 h.2 (depth + 1) bound
    cases h with
    | operator k k' s hts =>
      -- the step looks up the name, not the kind
      have hstep : visit o bound (.operator k) text children.length =
          visit o bound (.operator k') text children.length := rfl
      apply render_congr rfl (hts.length_eq ▸ hstep)
      exact fun _ _ => hall hts
    | list s s' hts =>
      have hstep : visit o bound .list text children.length =
          visit o bound .list s' children.length := rfl
      apply render_congr rfl (hts.length_eq ▸ hstep)
      exact fun _ _ => hall hts
    | literal k s ts ts' => exact render_congr_of_not_nests rfl rfl depth
    | property s ts ts' => exact render_congr_of_not_nests rfl rfl depth
    | unsupported k s s' ts ts' => exact render_congr_of_not_nests rfl rfl depth

/-- Filters that differ only in what is not looked at have the same outcome and the same log
under all options. -/
theorem compile_sameSeen {t t' : FilterTree} (h : SameSeen t t') (o : Options) :
    compile o t = compile o t' ∧ compileLog o t = compileLog o t' := by
  have hrender := render_sameSeen o h 1 0
  constructor
  · rw [compile, compile, hrender]
  · rw [compileLog, compileLog, compileEvents, compileEvents, hrender]

theorem compile_sameSeen_all_kinds :
    SameSeen
        (logical "and" [comparison "in" (node .property "A" [function "nope" []])
          (node .list "(" [node (.literal .string) "b" [list []]]),
          leaf (.unsupported .null) "null"])
        (node (.operator .lambda) "and" [node (.operator .navigation) "in" [property "A",
          node .list "[" [leaf (.literal .string) "b"]],
          node (.unsupported .null) "" [number "1"]]) ∧
      compile ⟨.bind, some 3⟩
          (node (.operator .lambda) "and" [node (.operator .navigation) "in" [property "A",
            node .list "[" [leaf (.literal .string) "b"]],
            node (.unsupported .null) "" [number "1"]]) = .error (.tooDeep 3) ∧
      compileLog ⟨.bind, some 4⟩
          (node (.operator .lambda) "and" [node (.operator .navigation) "in" [property "A",
            node .list "[" [leaf (.literal .string) "b"]],
            node (.unsupported .null) "" [number "1"]]) =
        [⟨.warn, "String literal without enclosing quotes: b"⟩,
          ⟨.trace, "Rendered in -> \x7b A: \x7b $in: [@p1] \x7d \x7d"⟩,
          ⟨.debug, "Filter compilation failed: Unsupported node kind: null"⟩] := by
  have h : SameSeen
      (logical "and" [comparison "in" (node .property "A" [function "nope" []])
        (node .list "(" [node (.literal .string) "b" [list []]]),
        leaf (.unsupported .null) "null"])
      (node (.operator .lambda) "and" [node (.operator .navigation) "in" [property "A",
        node .list "[" [leaf (.literal .string) "b"]],
        node (.unsupported .null) "" [number "1"]]) :=
    .operator _ _ _ (.cons
      (.operator _ _ _ (.cons (.property _ _ _)
        (.cons (.list _ _ (.cons (.literal _ _ _ _) .nil)) .nil)))
      (.cons (.unsupported _ _ _ _ _) .nil))
  refine ⟨h, ?_, ?_⟩
  · rw [← (compile_sameSeen h ⟨.bind, some 3⟩).1]
    decide +kernel
  · rw [← (compile_sameSeen h ⟨.bind, some 4⟩).2]
    decide +kernel

theorem compile_eq_error_of_beyond (style : LiteralStyle) {limit : UInt64} {t : FilterTree}
    (h : limit.toNat < t.reachedDepth) : ∃ e, compile ⟨style, some limit⟩ t = .error e := by
  cases hc : compile ⟨style, some limit⟩ t with
  | error e => exact ⟨e, rfl⟩
  | ok c =>
    obtain ⟨x, hx, -⟩ := render_of_compile_ok hc
    have hwithin := within_of_render_ok hx
    omega

/-- In a filter that is compiled only literals and properties can hide nodes. -/
theorem reachedDepth_of_compile_ok {o : Options} {t : FilterTree} {c : Compiled}
    (hc : compile o t = .ok c) (ht : t.HidesNothing) : t.reachedDepth = t.depth := by
  obtain ⟨x, hx, -⟩ := render_of_compile_ok hc
  apply reachedDepth_eq_depth
  intro n hn hk
  apply ht n hn
  -- an unsupported node that is reached would have been rejected
  obtain ⟨depth, bound, y, hy, -⟩ := render_of_reached hx hn
  cases renderedAs_of_render_ok hy with
  | literal => exact .inl rfl
  | property => exact .inr rfl
  | branch hus => exact absurd (nests_of_layout? hus) (Bool.eq_false_iff.mp hk)

/-- Under a depth limit a filter is rejected exactly if what is looked at exceeds the limit or
the filter is rejected without a limit. So a limit rejects a tree that is deeper than it, as
long as no node hides below a literal or a property. -/
theorem compile_rejects_iff_seen_beyond (style : LiteralStyle) (limit : UInt64)
    (t : FilterTree) :
    ((∃ e, compile ⟨style, some limit⟩ t = .error e) ↔
        limit.toNat < t.reachedDepth ∨ ∃ e, compile ⟨style, none⟩ t = .error e) ∧
      (limit.toNat < t.depth → t.HidesNothing →
        ∃ e, compile ⟨style, some limit⟩ t = .error e) := by
  constructor
  · by_cases hdeep : limit.toNat < t.reachedDepth
    · exact ⟨fun _ => .inl hdeep, fun _ => compile_eq_error_of_beyond style hdeep⟩
    · -- a limit that is kept does not show
      have hsame : compile ⟨style, some limit⟩ t = compile ⟨style, none⟩ t := by
        apply compile_eq_of_render_eq
        exact render_of_within (by omega) style 0
      rw [hsame, or_iff_right hdeep]
  · intro hdeep ht
    cases hc : compile ⟨style, some limit⟩ t with
    | error e => exact ⟨e, rfl⟩
    | ok c =>
      have hseen : t.reachedDepth = t.depth := reachedDepth_of_compile_ok hc ht
      obtain ⟨e, he⟩ := compile_eq_error_of_beyond style (hseen ▸ hdeep)
      rw [hc] at he
      cases he

theorem compile_rejects_iff_seen_beyond_chain :
    (logical "not" [logical "not" [boolean true]]).depth = 3 ∧
      ∃ e, compile ⟨.bind, some 2⟩ (logical "not" [logical "not" [boolean true]]) = .error e := by
  have ht : (logical "not" [logical "not" [boolean true]]).HidesNothing := by
    unfold HidesNothing
    decide +kernel
  obtain ⟨-, hrejects⟩ := compile_rejects_iff_seen_beyond .bind 2
    (logical "not" [logical "not" [boolean true]])
  exact ⟨by decide, hrejects (by decide) ht⟩

/-- A tree of two levels passes a limit of one if the second level is below a property. -/
theorem compile_accepts_hidden_level :
    (1 : UInt64).toNat < (node .property "Name" [number "1"]).depth ∧
      ∀ style, compile ⟨style, some 1⟩ (node .property "Name" [number "1"]) =
        .ok ⟨"Name", []⟩ := by
  refine ⟨by decide, ?_⟩
  intro style
  cases style <;> decide +kernel

end ODataQuery
