import ODataQuery.Proofs.Composition
import ODataQuery.Proofs.Occurrences
import ODataQuery.Proofs.Traversal

/-! A session that has bound parameters before renders a filter like a fresh one, apart from
the numbers of the placeholders. The parameters it adds are those that a fresh session holds
after the same filter, also when the filter is rejected. -/
namespace ODataQuery

/-- The text of a token, with placeholders moved up by `k`. -/
def Token.moved (k : Nat) : Token → List Char
  | .char c => [c]
  | .placeholder n => (ODataQuery.placeholder (n + k)).toList

def movePlaceholders (k : Nat) (x : List Char) : List Char := (tokens x).flatMap (Token.moved k)

/-- The text with the numbers of its placeholders moved up by `k`. With literals in place
there are none, whatever the literals look like. -/
def LiteralStyle.renumber (style : LiteralStyle) (k : Nat) (text : String) : String :=
  match style with
  | .inline => text
  | .bind => String.ofList (movePlaceholders k text.toList)

theorem movePlaceholders_of_no_sign (k : Nat) {x : List Char} (hx : '@' ∉ x) :
    movePlaceholders k x = x := by
  rw [movePlaceholders, tokens_of_no_sign hx, List.flatMap_map]
  exact List.flatMap_singleton' x

theorem movePlaceholders_placeholder (k n : Nat) :
    movePlaceholders k (placeholder n).toList = (placeholder (n + k)).toList := by
  rw [movePlaceholders, tokens_placeholder, List.flatMap_singleton]
  rfl

theorem Layout.flatMap_moved_tokensWith (k : Nat) (us : Layout) (operand : Nat → List Token) :
    (us.tokensWith operand).flatMap (Token.moved k) =
      us.spell fun i => (operand i).flatMap (Token.moved k) := by
  induction us with
  | nil => rfl
  | cons u us ih =>
    cases u with
    | char c =>
      rw [tokensWith, List.flatMap_cons, ih]
      rfl
    | slot i => rw [tokensWith, List.flatMap_append, ih, spell]

theorem operandOf_map {f : List Char → List Char} (hf : f [] = []) (xs : List (List Char))
    (i : Nat) : operandOf (xs.map f) i = f (operandOf xs i) := by
  simp only [operandOf, List.getD_eq_getElem?_getD, List.getElem?_map]
  cases xs[i]? with
  | none => exact hf.symm
  | some x => rfl

/-- Rendered after `k` more parameters, the tree has its text with the placeholders moved
up by `k`. -/
def RendersMoved (limit : Option UInt64) (k : Nat) (t : FilterTree) : Prop :=
  ∀ depth bound x y, (render ⟨.bind, limit⟩ depth bound t).result = .ok x →
    (render ⟨.bind, limit⟩ depth (bound + k) t).result = .ok y →
      y.toList = movePlaceholders k x.toList

theorem renderAll_moved {limit : Option UInt64} {k : Nat} {ts : List FilterTree}
    (h : ∀ t ∈ ts, RendersMoved limit k t) {depth bound : Nat} {xs ys : List String}
    (hxs : (renderAll ⟨.bind, limit⟩ depth bound ts).result = .ok xs)
    (hys : (renderAll ⟨.bind, limit⟩ depth (bound + k) ts).result = .ok ys) :
    ys.map String.toList = (xs.map String.toList).map (movePlaceholders k) := by
  induction ts generalizing bound xs ys with
  | nil =>
    cases hxs
    cases hys
    rfl
  | cons t ts ih =>
    obtain ⟨x, xs, rfl, hx, hxs, -⟩ := renderAll_cons_eq_ok hxs
    obtain ⟨y, ys, rfl, hy, hys, -⟩ := renderAll_cons_eq_ok hys
    have hfirst := h t List.mem_cons_self depth bound x y hx hy
    -- the first tree binds the same parameters in both runs, so the distance stays `k`
    have hparams : (render ⟨.bind, limit⟩ depth (bound + k) t).params =
        (render ⟨.bind, limit⟩ depth bound t).params :=
      (render_follows ⟨.bind, limit⟩ depth (bound + k) t).params.trans
        (render_follows ⟨.bind, limit⟩ depth bound t).params.symm
    rw [hparams, Nat.add_right_comm] at hys
    have hrest := ih (fun u hu => h u (List.mem_cons_of_mem t hu)) hxs hys
    simp only [List.map_cons, hfirst, hrest]

open FilterTree

theorem render_moved (limit : Option UInt64) (k : Nat) {t : FilterTree} (ht : t.SignFree) :
    RendersMoved limit k t := by
  induction t with
  | node kind text children ih =>
    intro depth bound x y hx hy
    cases renderedAs_of_render_ok hx with
    | literal hplaced =>
      cases renderedAs_of_render_ok hy with
      | literal hplaced' =>
        rw [hplaced, hplaced', placedText, placedText, movePlaceholders_placeholder,
          Nat.add_right_comm]
      | branch hus => cases hus
    | property =>
      cases renderedAs_of_render_ok hy with
      | property =>
        exact (movePlaceholders_of_no_sign k (ht _ (self_mem_reached _) rfl)).symm
      | branch hus => cases hus
    | @branch _ _ _ _ us xs hus hxs hspell =>
      cases renderedAs_of_render_ok hy with
      | literal => cases hus
      | property => cases hus
      | @branch _ _ _ _ vs ys hvs hys hspell' =>
        have hk := nests_of_layout? hus
        have hsame : vs = us := Option.some.inj (hvs.symm.trans hus)
        have hmoved := renderAll_moved (fun t hmem => ih t hmem (ht.child hk hmem)) hxs hys
        have hoperand : operandOf (ys.map String.toList) =
            fun i => movePlaceholders k (operandOf (xs.map String.toList) i) := by
          funext i
          rw [hmoved, operandOf_map (movePlaceholders_of_no_sign k List.not_mem_nil)]
        have hsealed := sealed_operands (fun t hmem => ht.child hk hmem) hxs
        rw [hspell', hspell, hsame, hoperand, movePlaceholders,
          Layout.tokens_spell (fits_layout? hus) hsealed, Layout.flatMap_moved_tokensWith]
        rfl

theorem render_eq_renumber {o : Options} {t : FilterTree} (ht : t.SignFree) {depth k : Nat}
    {x y : String} (hx : (render o depth 0 t).result = .ok x)
    (hy : (render o depth k t).result = .ok y) : y = o.literals.renumber k x := by
  obtain ⟨style, limit⟩ := o
  cases style with
  | inline =>
    -- with literals in place the parameters bound before do not matter
    rw [← sameInPlace_refl limit t depth 0 k, hx] at hy
    cases hy
    rfl
  | bind =>
    have hmoved := render_moved limit k ht depth 0 x y hx (by rwa [Nat.zero_add])
    rw [LiteralStyle.renumber, ← hmoved, String.ofList_toList]

theorem result_eq_map {r r' : Rendering String} {f : String → String}
    (hrejection : r'.rejection? = r.rejection?)
    (hf : ∀ x y, r.result = .ok x → r'.result = .ok y → y = f x) :
    r'.result = r.result.map f := by
  simp only [Rendering.rejection?] at hrejection
  cases hr : r.result with
  | ok x =>
    cases hr' : r'.result with
    | ok y => rw [hf x y hr hr', Except.map]
    | error e => simp [hr, hr'] at hrejection
  | error e =>
    cases hr' : r'.result with
    | ok y => simp [hr, hr'] at hrejection
    | error e' =>
      simp only [hr, hr', Option.some.injEq] at hrejection
      rw [hrejection, Except.map]

/-- A session renders a filter as a fresh one does, with the placeholders moved up by the
parameters bound before. It keeps these and adds what the fresh session holds: with bound
literals those that are met before the first problem, else nothing. -/
theorem session_render_eq_fresh (s : Session) {t : FilterTree} (ht : t.SignFree) :
    (s.render t).1 =
        (Session.render ⟨s.options, []⟩ t).1.map (s.options.literals.renumber s.params.length) ∧
      (s.render t).2 =
        ⟨s.options, s.params ++ (Session.render ⟨s.options, []⟩ t).2.params⟩ ∧
      (Session.render ⟨s.options, []⟩ t).2.params =
        Encounter.boundBefore s.options.literals (encounters s.options.maxDepth 1 t) ∧
      (s.options.literals = .inline → (s.render t).2.params = s.params) := by
  have hused := render_follows s.options 1 s.params.length t
  have hfresh := render_follows s.options 1 0 t
  have hparams : (render s.options 1 s.params.length t).params =
      (render s.options 1 0 t).params := hused.params.trans hfresh.params.symm
  refine ⟨?_, ?_, hfresh.params, ?_⟩
  · exact result_eq_map (hused.rejection.trans hfresh.rejection.symm)
      fun x y hx hy => render_eq_renumber ht hx hy
  · simp only [Session.render, hparams, List.nil_append]
    rfl
  · intro hstyle
    simp only [Session.render, hused.params, hstyle, Encounter.boundBefore, List.append_nil]

theorem session_render_eq_fresh_second_filter :
    (comparison "eq" (property "A") (number "1")).SignFree ∧
      Session.render ⟨⟨.bind, none⟩, [⟨.literal .string, "@p1"⟩]⟩
          (comparison "eq" (property "A") (number "1")) =
        (.ok "\x7b A: \x7b $eq: @p2 \x7d \x7d",
          ⟨⟨.bind, none⟩, [⟨.literal .string, "@p1"⟩, ⟨.literal .number, "1"⟩]⟩) ∧
      LiteralStyle.bind.renumber 1 "\x7b A: \x7b $eq: @p1 \x7d \x7d" =
        "\x7b A: \x7b $eq: @p2 \x7d \x7d" := by
  have ht : (comparison "eq" (property "A") (number "1")).SignFree := by
    unfold SignFree
    decide +kernel
  have hsecond : Session.render ⟨⟨.bind, none⟩, [⟨.literal .string, "@p1"⟩]⟩
      (comparison "eq" (property "A") (number "1")) =
      (.ok "\x7b A: \x7b $eq: @p2 \x7d \x7d",
        ⟨⟨.bind, none⟩, [⟨.literal .string, "@p1"⟩, ⟨.literal .number, "1"⟩]⟩) := rfl
  obtain ⟨htext, -⟩ := session_render_eq_fresh
    ⟨⟨.bind, none⟩, [⟨.literal .string, "@p1"⟩]⟩ ht
  rw [hsecond] at htext
  exact ⟨ht, hsecond, (Except.ok.inj htext).symm⟩

end ODataQuery
