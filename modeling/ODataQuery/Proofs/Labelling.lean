import ODataQuery.Proofs.Rendering

/-! Binding literals is the same as writing placeholders into the tree first and compiling
it with all literals in place: the numbers that the renderer hands out on its way are those
of a relabelling of the tree that knows nothing of templates, limits or rejections. -/
namespace ODataQuery
namespace FilterTree

/-- The parameter that a literal node is bound to. -/
def param? : FilterTree → Option Param
  | node (.literal k) s _ => some ⟨.literal k, literalText k s⟩
  | _ => none

/-- The parameters of the literals that are reached from the root, in their order. -/
def literals (t : FilterTree) : List Param := t.reached.filterMap param?

mutual

/-- The tree whose reached literals, counted after `before` others, are replaced by
properties that are named like placeholders. -/
def labelAfter (before : Nat) : FilterTree → FilterTree
  | node (.literal _) _ ts => node .property (placeholder (before + 1)) ts
  | node .property s ts => node .property s ts
  | node .list s ts => node .list s (labelAllAfter before ts)
  | node (.operator k) s ts => node (.operator k) s (labelAllAfter before ts)
  | node (.unsupported k) s ts => node (.unsupported k) s ts

/-- The labelled trees of a list; each counts after those to its left. -/
def labelAllAfter (before : Nat) : List FilterTree → List FilterTree
  | [] => []
  | t :: ts => labelAfter before t :: labelAllAfter (before + t.literals.length) ts

end

/-- The tree with its literals replaced by properties `@p1`, `@p2`, and so on. -/
def label (t : FilterTree) : FilterTree := labelAfter 0 t

theorem literals_of_nests {k : Kind} (hk : k.nests = true) (s : String)
    (ts : List FilterTree) : (node k s ts).literals = ts.flatMap literals := by
  have hroot : param? (node k s ts) = none := by
    cases k <;> first | rfl | cases hk
  rw [literals, reached_of_nests hk, List.filterMap_cons_none hroot, List.filterMap_flatMap]
  rfl

theorem labelAfter_of_nests {k : Kind} (hk : k.nests = true) (before : Nat) (s : String)
    (ts : List FilterTree) :
    labelAfter before (node k s ts) = node k s (labelAllAfter before ts) := by
  cases k with
  | list => rw [labelAfter]
  | operator k => rw [labelAfter]
  | _ => cases hk

theorem length_labelAllAfter (before : Nat) (ts : List FilterTree) :
    (labelAllAfter before ts).length = ts.length := by
  induction ts generalizing before with
  | nil => rfl
  | cons t ts ih => rw [labelAllAfter, List.length_cons, List.length_cons, ih]

end FilterTree

open FilterTree

/-- A tree rendered with bound literals gives what its labelled form gives with literals
in place, and it binds all reached literals if it is not rejected. -/
def RendersLabelled (limit : Option UInt64) (t : FilterTree) : Prop :=
  ∀ depth before bound,
    (render ⟨.bind, limit⟩ depth before t).Alike (fun ps _ => ps = t.literals)
      (render ⟨.inline, limit⟩ depth bound (labelAfter before t))

theorem renderAll_bind_labelled {limit : Option UInt64} {ts : List FilterTree}
    (h : ∀ t ∈ ts, RendersLabelled limit t) (depth before bound : Nat) :
    (renderAll ⟨.bind, limit⟩ depth before ts).Alike (fun ps _ => ps = ts.flatMap literals)
      (renderAll ⟨.inline, limit⟩ depth bound (labelAllAfter before ts)) := by
  induction ts generalizing before bound with
  | nil => exact ⟨rfl, fun _ _ => rfl⟩
  | cons t ts ih =>
    have hfirst := h t List.mem_cons_self depth before bound
    have hrest := ih fun u hu => h u (List.mem_cons_of_mem t hu)
    rw [labelAllAfter]
    apply renderAll_cons_alike (Q := fun qs _ => qs = ts.flatMap literals) hfirst
    · -- the first tree binds as many literals as it has, so the counts go on alike
      intro x hx
      rw [hfirst.params x hx]
      exact hrest _ _
    · intro ps _ qs _ hps hqs
      rw [hps, hqs, List.flatMap_cons]

theorem render_bind_labelled (limit : Option UInt64) (t : FilterTree) :
    RendersLabelled limit t := by
  induction t with
  | node kind text children ih =>
    intro depth before bound
    by_cases hk : kind.nests = true
    · rw [labelAfter_of_nests hk, literals_of_nests hk]
      exact render_alike_of_nests hk rfl (length_labelAllAfter before children).symm
        (renderAll_bind_labelled ih (depth + 1) before bound)
    · -- the limit is looked up before the style, so both are too deep or none is
      cases he : Options.exceeded? ⟨.bind, limit⟩ depth with
      | some m =>
        rw [render_of_exceeded he, render_of_exceeded (o := ⟨.inline, limit⟩) he]
        exact .of_error rfl rfl
      | none =>
        have he' : Options.exceeded? ⟨.inline, limit⟩ depth = none := he
        cases kind with
        | literal k =>
          -- the label is the name of a property, which is rendered as it stands
          obtain ⟨hres, hpar⟩ := renderLiteral_eq ⟨.bind, limit⟩ before k text
          rw [render_eq_visit he, labelAfter, render_eq_visit he']
          exact ⟨hres, fun _ _ => hpar⟩
        | property =>
          rw [render_eq_visit he, labelAfter, render_eq_visit he']
          exact ⟨rfl, fun _ _ => rfl⟩
        | unsupported k =>
          rw [render_eq_visit he, labelAfter, render_eq_visit he']
          exact .of_error rfl rfl
        | list => exact absurd rfl hk
        | operator k => exact absurd rfl hk

theorem params_renderAll_inline {limit : Option UInt64} {ts : List FilterTree}
    (h : ∀ t ∈ ts, ∀ depth bound, (render ⟨.inline, limit⟩ depth bound t).params = [])
    (depth bound : Nat) : (renderAll ⟨.inline, limit⟩ depth bound ts).params = [] := by
  induction ts generalizing bound with
  | nil => rfl
  | cons t ts ih =>
    rw [renderAll]
    apply Rendering.params_andThen_eq_nil (h t List.mem_cons_self depth bound)
    intro x
    exact ih (fun u hu => h u (List.mem_cons_of_mem t hu)) _

/-- With literals in place nothing is bound, also by a tree that is rejected. -/
theorem params_render_inline (limit : Option UInt64) (t : FilterTree) (depth bound : Nat) :
    (render ⟨.inline, limit⟩ depth bound t).params = [] := by
  induction t generalizing depth bound with
  | node kind text children ih =>
    cases he : Options.exceeded? ⟨.inline, limit⟩ depth with
    | some m =>
      rw [render_of_exceeded he]
      rfl
    | none =>
      rw [render_eq_visit he]
      by_cases hk : kind.nests = true
      · obtain ⟨r, e, hv, -, hr⟩ | ⟨f, hv, hnil⟩ :=
          visit_cases hk ⟨.inline, limit⟩ bound text children.length
        · rw [hv]
          exact hr
        · rw [hv]
          exact Rendering.params_andThen_eq_nil
            (params_renderAll_inline ih (depth + 1) bound) hnil
      · cases kind with
        | literal k => exact (renderLiteral_eq ⟨.inline, limit⟩ bound k text).2
        | list => exact absurd rfl hk
        | operator k => exact absurd rfl hk
        | _ => rfl

/-- Compiling with bound literals is compiling the labelled tree with literals in place;
the parameters are the literals of the tree. Without binding there are none. -/
theorem compile_bind_eq_compile_label (limit : Option UInt64) (t : FilterTree) :
    compile ⟨.bind, limit⟩ t =
        (compile ⟨.inline, limit⟩ t.label).map (fun c => ⟨c.fragment, t.literals⟩) ∧
      ∀ c, compile ⟨.inline, limit⟩ t = .ok c → c.params = [] := by
  constructor
  · obtain ⟨hres, hpar⟩ := render_bind_labelled limit t 1 0 0
    simp only [compile, label]
    cases hr : (render ⟨.bind, limit⟩ 1 0 t).result with
    | error e =>
      rw [← hres, hr]
      rfl
    | ok x =>
      rw [← hres, hr, hpar x hr]
      rfl
  · intro c hc
    simp only [compile, params_render_inline] at hc
    cases hr : (render ⟨.inline, limit⟩ 1 0 t).result with
    | error e =>
      rw [hr] at hc
      cases hc
    | ok x =>
      rw [hr] at hc
      cases hc
      rfl

theorem compile_bind_eq_compile_label_in_list :
    compile ⟨.bind, some 3⟩ (comparison "in" (property "Name") (list [string "a", number "1"])) =
        .ok ⟨"\x7b Name: \x7b $in: [@p1, @p2] \x7d \x7d",
          [⟨.literal .string, "a"⟩, ⟨.literal .number, "1"⟩]⟩ ∧
      ∀ c, compile ⟨.inline, some 3⟩
          (comparison "in" (property "Name") (list [string "a", number "1"])) = .ok c →
        c.params = [] := by
  obtain ⟨hbind, hinline⟩ := compile_bind_eq_compile_label (some 3)
    (comparison "in" (property "Name") (list [string "a", number "1"]))
  refine ⟨?_, hinline⟩
  rw [hbind]
  rfl

end ODataQuery
