import ODataQuery.Proofs.Rendering

/-! With bound literals, the query text does not depend on what the literals say. Two
filters that differ in their literals only are compiled in lockstep: at every node both
are rejected for the same reason, or both have the same text and have bound as many
parameters. -/
namespace ODataQuery
namespace FilterTree

/-- Two trees of the same shape whose nodes agree in kind and text, except that a literal
may stand against any other literal. -/
inductive SameButLiterals : FilterTree → FilterTree → Prop
  | literal (k k' : LiteralKind) (s s' : String) {ts ts' : List FilterTree}
      (children : List.Forall₂ SameButLiterals ts ts') :
      SameButLiterals (node (.literal k) s ts) (node (.literal k') s' ts')
  | same (kind : Kind) (s : String) {ts ts' : List FilterTree}
      (children : List.Forall₂ SameButLiterals ts ts') :
      SameButLiterals (node kind s ts) (node kind s ts')

end FilterTree

open FilterTree

/-- Renderings with the same result which bind equally many parameters if it is a text. -/
abbrev Rendering.InLockstep {α : Type} (r r' : Rendering α) : Prop :=
  r.Alike (fun ps ps' => ps.length = ps'.length) r'

theorem Rendering.InLockstep.refl {α : Type} (r : Rendering α) : r.InLockstep r :=
  ⟨rfl, fun _ _ => rfl⟩

theorem renderAll_lockstep {o : Options} {depth : Nat} {ts ts' : List FilterTree}
    (hts : List.Forall₂ SameButLiterals ts ts')
    (h : ∀ t ∈ ts, ∀ t', SameButLiterals t t' →
      ∀ bound, (render o depth bound t).InLockstep (render o depth bound t')) (bound : Nat) :
    (renderAll o depth bound ts).InLockstep (renderAll o depth bound ts') := by
  induction hts generalizing bound with
  | nil => exact .refl _
  | @cons t t' ts ts' ht _ ih =>
    have hfirst := h t List.mem_cons_self t' ht bound
    have hrest := ih fun u hu => h u (List.mem_cons_of_mem t hu)
    apply renderAll_cons_alike (Q := fun qs qs' => qs.length = qs'.length) hfirst
    · -- equally many parameters are bound so far, so the next ones get the same numbers
      intro x hx
      rw [hfirst.params x hx]
      exact hrest _
    · intro p p' q q' hp hq
      rw [List.length_append, List.length_append, hp, hq]

/-- A bound literal is rendered as its number, whatever its kind and text. -/
theorem renderLiteral_bind_lockstep (limit : Option UInt64) (bound : Nat) (k k' : LiteralKind)
    (s s' : String) :
    (renderLiteral ⟨.bind, limit⟩ bound k s).InLockstep
      (renderLiteral ⟨.bind, limit⟩ bound k' s') := by
  obtain ⟨hres, hpar⟩ := renderLiteral_eq ⟨.bind, limit⟩ bound k s
  obtain ⟨hres', hpar'⟩ := renderLiteral_eq ⟨.bind, limit⟩ bound k' s'
  refine ⟨by rw [hres, hres']; rfl, ?_⟩
  intro _ _
  rw [hpar, hpar']
  rfl

theorem render_bind_lockstep (limit : Option UInt64) {t t' : FilterTree}
    (h : SameButLiterals t t') (depth bound : Nat) :
    (render ⟨.bind, limit⟩ depth bound t).InLockstep
      (render ⟨.bind, limit⟩ depth bound t') := by
  induction t generalizing t' depth bound with
  | node kind text children ih =>
    cases he : Options.exceeded? ⟨.bind, limit⟩ depth with
    | some m =>
      rw [render_of_exceeded he, render_of_exceeded he]
      exact .refl _
    | none =>
      cases h with
      | literal k k' s s' _ =>
        rw [render_eq_visit he, render_eq_visit he]
        exact renderLiteral_bind_lockstep limit bound k k' text s'
      | same kind s hts =>
        by_cases hk : kind.nests = true
        · apply render_alike_of_nests hk rfl hts.length_eq
          exact renderAll_lockstep hts
            (fun t ht t' htt' bound => ih t ht htt' (depth + 1) bound) bound
        · -- the children of any other node are not looked at
          rw [render_eq_visit he, render_eq_visit he, ← hts.length_eq]
          cases hv : visit ⟨.bind, limit⟩ bound kind text children.length with
          | settled r => exact .refl r
          | operands f => exact absurd (nests_of_operands hv) hk

/-- Literals cannot influence the query text they are bound in: filters that differ in
their literals only are rejected for the same reason, or compiled to the same text with as
many parameters. -/
theorem compile_bind_independent (limit : Option UInt64) {t t' : FilterTree}
    (h : SameButLiterals t t') :
    (∃ e, compile ⟨.bind, limit⟩ t = .error e ∧ compile ⟨.bind, limit⟩ t' = .error e) ∨
      ∃ c c', compile ⟨.bind, limit⟩ t = .ok c ∧ compile ⟨.bind, limit⟩ t' = .ok c' ∧
        c.fragment = c'.fragment ∧ c.params.length = c'.params.length := by
  obtain ⟨hres, hcount⟩ := render_bind_lockstep limit h 1 0
  simp only [compile, ← hres]
  cases hr : (render ⟨.bind, limit⟩ 1 0 t).result with
  | error e => exact .inl ⟨e, rfl, rfl⟩
  | ok x => exact .inr ⟨_, _, rfl, rfl, rfl, hcount x hr⟩

theorem compile_bind_independent_of_slot_text :
    SameButLiterals (comparison "eq" (property "Name") (string "Milk"))
        (comparison "eq" (property "Name") (number "\x7b1\x7d, @p2")) ∧
      ∃ c c', compile ⟨.bind, some 2⟩ (comparison "eq" (property "Name") (string "Milk")) =
          .ok c ∧
        compile ⟨.bind, some 2⟩ (comparison "eq" (property "Name") (number "\x7b1\x7d, @p2")) =
          .ok c' ∧
        c.fragment = "\x7b Name: \x7b $eq: @p1 \x7d \x7d" ∧ c'.fragment = c.fragment ∧
        c.params.length = 1 ∧ c'.params.length = 1 := by
  have h : SameButLiterals (comparison "eq" (property "Name") (string "Milk"))
      (comparison "eq" (property "Name") (number "\x7b1\x7d, @p2")) :=
    .same _ _ (.cons (.same _ _ .nil) (.cons (.literal _ _ _ _ .nil) .nil))
  -- the first of the two says on which side both are
  have hmilk : compile ⟨.bind, some 2⟩ (comparison "eq" (property "Name") (string "Milk")) =
      .ok ⟨"\x7b Name: \x7b $eq: @p1 \x7d \x7d", [⟨.literal .string, "Milk"⟩]⟩ := by
    decide +kernel
  rcases compile_bind_independent (some 2) h with
    ⟨e, he, -⟩ | ⟨c, c', hc, hc', hfragment, hparams⟩
  · rw [hmilk] at he
    cases he
  · rw [hmilk] at hc
    cases hc
    exact ⟨h, _, c', hmilk, hc', rfl, hfragment.symm, rfl, hparams.symm⟩

end ODataQuery
