import ODataQuery.Proofs.Layout

/-! The texts of a tree by rules, without the order in which the renderer works: a literal
is written in place or as the placeholder of some parameter that holds it, a property as
its name, and a list or operator as its layout filled with the texts of its children. The
renderer obeys the rules, and with literals in place it gives every text they allow. -/
namespace ODataQuery

/-- A text of a literal: the one it stands for, or the placeholder of a parameter that
holds this. -/
def WritesLiteral (style : LiteralStyle) (params : List Param) (k : LiteralKind) (s : String)
    (x : List Char) : Prop :=
  match style with
  | .inline => x = (literalText k s).toList
  | .bind => ∃ i, params[i]? = some ⟨.literal k, literalText k s⟩ ∧
      x = (placeholder (i + 1)).toList

mutual

/-- `Writes o params depth t x`: the tree at the given depth is written as `x` with these
parameters. -/
inductive Writes (o : Options) (params : List Param) : Nat → FilterTree → List Char → Prop
  | literal {depth : Nat} {k : LiteralKind} {s : String} {ts : List FilterTree} {x : List Char}
      (within : o.exceeded? depth = none) (text : WritesLiteral o.literals params k s x) :
      Writes o params depth (.node (.literal k) s ts) x
  | property {depth : Nat} {s : String} {ts : List FilterTree}
      (within : o.exceeded? depth = none) :
      Writes o params depth (.node .property s ts) s.toList
  | branch {depth : Nat} {k : Kind} {s : String} {ts : List FilterTree} {us : Layout}
      {xs : List (List Char)} {x : List Char} (within : o.exceeded? depth = none)
      (layout : layout? k s ts.length = some us)
      (operands : WritesAll o params (depth + 1) ts xs) (text : x = us.spell (operandOf xs)) :
      Writes o params depth (.node k s ts) x

/-- The trees at one depth are written as the given texts. -/
inductive WritesAll (o : Options) (params : List Param) :
    Nat → List FilterTree → List (List Char) → Prop
  | nil {depth : Nat} : WritesAll o params depth [] []
  | cons {depth : Nat} {t : FilterTree} {ts : List FilterTree} {x : List Char}
      {xs : List (List Char)} (first : Writes o params depth t x)
      (rest : WritesAll o params depth ts xs) : WritesAll o params depth (t :: ts) (x :: xs)

end

theorem writesAll_iff_forall₂ {o : Options} {params : List Param} {depth : Nat}
    {ts : List FilterTree} {xs : List (List Char)} :
    WritesAll o params depth ts xs ↔ List.Forall₂ (Writes o params depth) ts xs := by
  constructor
  · intro h
    induction ts generalizing xs with
    | nil =>
      cases h
      exact .nil
    | cons t ts ih =>
      cases h with
      | cons first rest => exact .cons first (ih rest)
  · intro h
    induction h with
    | nil => exact .nil
    | cons first _ ih => exact .cons first ih

/-- A piece of a list that begins at an index, cut in two. -/
theorem prefix_drop_append {α : Type} {p q l : List α} {n : Nat} (h : p ++ q <+: l.drop n) :
    p <+: l.drop n ∧ q <+: l.drop (n + p.length) := by
  obtain ⟨r, hr⟩ := h
  refine ⟨⟨q ++ r, by rw [← List.append_assoc, hr]⟩, ⟨r, ?_⟩⟩
  rw [← List.drop_drop, ← hr, List.append_assoc, List.drop_left]

/-- A tree obeys the rules if it does so whenever its own parameters stand where the
renderer has put them. -/
def ObeysRules (o : Options) (params : List Param) (t : FilterTree) : Prop :=
  ∀ depth bound x, (render o depth bound t).result = .ok x →
    (render o depth bound t).params <+: params.drop bound → Writes o params depth t x.toList

theorem writesAll_of_renderAll {o : Options} {params : List Param} {ts : List FilterTree}
    (h : ∀ t ∈ ts, ObeysRules o params t) {depth bound : Nat} {xs : List String}
    (hxs : (renderAll o depth bound ts).result = .ok xs)
    (hparams : (renderAll o depth bound ts).params <+: params.drop bound) :
    WritesAll o params depth ts (xs.map String.toList) := by
  induction ts generalizing bound xs with
  | nil =>
    cases hxs
    exact .nil
  | cons t ts ih =>
    obtain ⟨x, ys, rfl, hx, hys, happend⟩ := renderAll_cons_eq_ok hxs
    rw [happend] at hparams
    -- the other trees count on from where the parameters of the first one end
    obtain ⟨hfirst, hrest⟩ := prefix_drop_append hparams
    exact .cons (h t List.mem_cons_self depth bound x hx hfirst)
      (ih (fun u hu => h u (List.mem_cons_of_mem t hu)) hys hrest)

theorem writesLiteral_of_renderLiteral {o : Options} {params : List Param} {bound : Nat}
    {k : LiteralKind} {s x : String} (hx : (renderLiteral o bound k s).result = .ok x)
    (hparams : (renderLiteral o bound k s).params <+: params.drop bound) :
    WritesLiteral o.literals params k s x.toList := by
  obtain ⟨hres, hpar⟩ := renderLiteral_eq o bound k s
  rw [hres] at hx
  rw [hpar] at hparams
  cases hstyle : o.literals with
  | inline =>
    simp only [placeLiteral, hstyle, Rendering.done, Except.ok.injEq] at hx
    rw [WritesLiteral, hx]
  | bind =>
    simp only [placeLiteral, hstyle, Except.ok.injEq] at hx hparams
    -- the literal is the next parameter to be bound
    refine ⟨bound, ?_, by rw [hx]⟩
    obtain ⟨r, hr⟩ := hparams
    rw [← List.head?_drop, ← hr]
    rfl

/-- What the renderer gives is written by the rules. -/
theorem writes_of_render (o : Options) (params : List Param) (t : FilterTree) :
    ObeysRules o params t := by
  induction t with
  | node kind text children ih =>
    intro depth bound x hx hparams
    cases he : o.exceeded? depth with
    | some limit =>
      rw [render_of_exceeded he] at hx
      cases hx
    | none =>
      by_cases hk : kind.nests = true
      · obtain ⟨us, xs, hus, hxs, hspell, hpar⟩ := layout_of_render_ok hk hx
        rw [hpar] at hparams
        exact .branch he hus (writesAll_of_renderAll ih hxs hparams) hspell
      · rw [render_eq_visit he] at hx hparams
        cases kind with
        | literal k => exact .literal he (writesLiteral_of_renderLiteral hx hparams)
        | property =>
          cases hx
          exact .property he
        | unsupported k => cases hx
        | list => exact absurd rfl hk
        | operator k => exact absurd rfl hk

mutual

/-- With literals in place, a text that the rules allow is the one that is rendered. -/
theorem render_of_writes {limit : Option UInt64} {params : List Param} {depth : Nat}
    {t : FilterTree} {x : List Char} (h : Writes ⟨.inline, limit⟩ params depth t x)
    (bound : Nat) : (render ⟨.inline, limit⟩ depth bound t).result = .ok (String.ofList x) := by
  cases h with
  | @literal _ k s ts x within text =>
    have hx : x = (literalText k s).toList := text
    rw [render_eq_visit within]
    dsimp only [visit]
    rw [(renderLiteral_eq _ _ _ _).1, hx, String.ofList_toList]
    rfl
  | property within =>
    rw [render_eq_visit within, String.ofList_toList]
    rfl
  | @branch _ k s ts us xs x within layout operands text =>
    have hall := renderAll_of_writesAll operands bound
    have hlen := (writesAll_iff_forall₂.mp operands).length_eq
    have hx : (String.ofList x).toList =
        us.spell (operandOf ((xs.map String.ofList).map String.toList)) := by
      simp [text]
    have hxs : ts.length = (xs.map String.ofList).length := by rw [List.length_map, hlen]
    rw [hxs] at layout
    obtain ⟨f, hv, hf⟩ := (operands_eq_ok_iff ⟨.inline, limit⟩ bound).mpr ⟨us, layout, hx⟩
    rw [render_eq_visit within, hxs, hv]
    exact (Rendering.andThen_of_ok hall f).1.trans hf

theorem renderAll_of_writesAll {limit : Option UInt64} {params : List Param} {depth : Nat}
    {ts : List FilterTree} {xs : List (List Char)}
    (h : WritesAll ⟨.inline, limit⟩ params depth ts xs) (bound : Nat) :
    (renderAll ⟨.inline, limit⟩ depth bound ts).result = .ok (xs.map String.ofList) := by
  cases h with
  | nil => rfl
  | cons first rest =>
    rw [renderAll, (Rendering.andThen_of_ok (render_of_writes first bound) _).1,
      Rendering.result_map, renderAll_of_writesAll rest]
    rfl

end

end ODataQuery
