import ODataQuery.Proofs.Labelling
import ODataQuery.Proofs.Layout

/-! Properties of texts that go from the leaves of a filter to its whole text. It is enough
that every layout passes the property on from its operands. -/
namespace ODataQuery
namespace FilterTree

/-- Every text that a leaf puts into a fragment has the property: the names of properties,
and the literals or their placeholders. -/
structure LeafTexts (style : LiteralStyle) (P : List Char → Prop) (t : FilterTree) : Prop where
  names : ∀ n ∈ t.reached, n.kind = .property → P n.text.toList
  inline : style = .inline → ∀ p ∈ t.literals, P p.value.toList
  bind : style = .bind → ∀ m, P (placeholder m).toList

theorem LeafTexts.child {style : LiteralStyle} {P : List Char → Prop} {k : Kind} {s : String}
    {ts : List FilterTree} (h : (node k s ts).LeafTexts style P) (hk : k.nests = true)
    {t : FilterTree} (ht : t ∈ ts) : t.LeafTexts style P := by
  refine ⟨fun n hn => h.names n (mem_reached_of_child hk ht hn), ?_, h.bind⟩
  intro hstyle p hp
  apply h.inline hstyle
  rw [literals_of_nests hk]
  exact List.mem_flatMap.mpr ⟨t, ht, hp⟩

end FilterTree

open FilterTree

/-- Layouts pass the property on from the texts of their operands. -/
def PassedOn (P : List Char → Prop) : Prop :=
  ∀ ⦃k : Kind⦄ ⦃s : String⦄ ⦃n : Nat⦄ ⦃us : Layout⦄ ⦃operand : Nat → List Char⦄,
    layout? k s n = some us → (∀ i, i < n → P (operand i)) → P (us.spell operand)

theorem operandOf_of_renderAll_ok {P : List Char → Prop} {o : Options} {depth bound : Nat}
    {ts : List FilterTree} {xs : List String}
    (h : ∀ t ∈ ts, ∀ bound x, (render o depth bound t).result = .ok x → P x.toList)
    (hxs : (renderAll o depth bound ts).result = .ok xs) (i : Nat) (hi : i < ts.length) :
    P (operandOf (xs.map String.toList) i) := by
  have hall : ∀ x ∈ xs, P x.toList := by
    clear hi
    induction ts generalizing bound xs with
    | nil =>
      cases hxs
      exact fun x hx => absurd hx List.not_mem_nil
    | cons t ts ih =>
      obtain ⟨x, ys, rfl, hx, hys, -⟩ := renderAll_cons_eq_ok hxs
      intro y hy
      rcases List.mem_cons.mp hy with rfl | hy
      · exact h t List.mem_cons_self bound y hx
      · exact ih (fun u hu => h u (List.mem_cons_of_mem t hu)) hys y hy
  have hlen : i < (xs.map String.toList).length := by
    rw [List.length_map, length_of_renderAll_ok hxs]
    exact hi
  rw [operandOf_eq_get hlen]
  obtain ⟨x, hx, hget⟩ := List.mem_map.mp (List.get_mem (xs.map String.toList) ⟨i, hlen⟩)
  rw [← hget]
  exact hall x hx

theorem text_of_render_ok {P : List Char → Prop} (hP : PassedOn P) {o : Options}
    {t : FilterTree} (ht : t.LeafTexts o.literals P) {depth bound : Nat} {x : String}
    (hx : (render o depth bound t).result = .ok x) : P x.toList := by
  induction t generalizing depth bound x with
  | node kind text children ih =>
    cases renderedAs_of_render_ok hx with
    | @literal k _ _ _ hplaced =>
      rw [hplaced]
      cases hstyle : o.literals with
      | inline => exact ht.inline hstyle ⟨.literal k, literalText k text⟩ List.mem_cons_self
      | bind => exact ht.bind hstyle _
    | property => exact ht.names _ (self_mem_reached _) rfl
    | branch hus hxs hspell =>
      have hk := nests_of_layout? hus
      rw [hspell]
      apply hP hus
      exact operandOf_of_renderAll_ok (fun t hmem b y hy => ih t hmem (ht.child hk hmem) hy) hxs

end ODataQuery
