import ODataQuery.Proofs.DepthLimit
import ODataQuery.Proofs.Labelling
import ODataQuery.Proofs.Layout

/-! The text of a filter is composed of the texts of its parts. What is reached has been
rendered on the way, and its text stands unchanged in that of the whole. With literals in
place a part has one outcome wherever it stands, so that it may be exchanged for any other
filter of the same outcome. -/
namespace ODataQuery

theorem Layout.infix_spell {us : Layout} {i : Nat} (h : .slot i ∈ us)
    (operand : Nat → List Char) : operand i <:+: us.spell operand := by
  obtain ⟨before, after, rfl⟩ := List.append_of_mem h
  refine ⟨spell operand before, spell operand after, ?_⟩
  rw [spell_append, spell, List.append_assoc]

/-- The text of each operand stands in the text of a list or an operator. -/
theorem infix_of_operand {k : Kind} {s : String} {us : Layout} {xs : List String} {x y : String}
    (hus : layout? k s xs.length = some us)
    (hx : x.toList = us.spell (operandOf (xs.map String.toList))) (hy : y ∈ xs) :
    y.toList <:+: x.toList := by
  obtain ⟨i, hi, hget⟩ := List.getElem_of_mem hy
  have hoperand : operandOf (xs.map String.toList) i = y.toList := by
    rw [operandOf_map_toList, List.getD_eq_getElem?_getD, List.getElem?_eq_getElem hi, hget]
    rfl
  -- there is a slot for every operand, so none is left out
  have hslot : .slot i ∈ us := (fits_layout? hus).slot_mem i hi
  rw [hx, ← hoperand]
  exact Layout.infix_spell hslot _

open FilterTree

/-- What is reached in a filter that is rendered has been rendered too, and its text is part
of the text of the filter. -/
theorem render_of_reached {o : Options} {t n : FilterTree} {depth bound : Nat} {x : String}
    (h : (render o depth bound t).result = .ok x) (hn : n ∈ t.reached) :
    ∃ depth' bound' y, (render o depth' bound' n).result = .ok y ∧ y.toList <:+: x.toList := by
  induction t generalizing depth bound x with
  | node kind text children ih =>
    rcases mem_reached_node.mp hn with rfl | ⟨hk, t, ht, hn⟩
    · exact ⟨depth, bound, x, h, List.infix_rfl⟩
    · -- the text of the node stands in that of the child, and this in the text of the root
      obtain ⟨us, xs, hus, hxs, hx, -⟩ := layout_of_render_ok hk h
      obtain ⟨bound', y, hmem, hy⟩ := render_ok_of_renderAll_ok hxs ht
      obtain ⟨depth'', bound'', z, hz, hinfix⟩ := ih t ht hy hn
      rw [← length_of_renderAll_ok hxs] at hus
      exact ⟨depth'', bound'', z, hz, hinfix.trans (infix_of_operand hus hx hmem)⟩

/-- With literals in place the trees have the same outcome wherever they stand, whatever has
been bound before. -/
def SameInPlace (limit : Option UInt64) (t t' : FilterTree) : Prop :=
  ∀ depth bound bound', (render ⟨.inline, limit⟩ depth bound t).result =
    (render ⟨.inline, limit⟩ depth bound' t').result

theorem renderAll_sameInPlace {limit : Option UInt64} {ts ts' : List FilterTree}
    (h : List.Forall₂ (SameInPlace limit) ts ts') (depth bound bound' : Nat) :
    (renderAll ⟨.inline, limit⟩ depth bound ts).Alike (fun _ _ => True)
      (renderAll ⟨.inline, limit⟩ depth bound' ts') := by
  induction h generalizing bound bound' with
  | nil => exact ⟨rfl, fun _ _ => trivial⟩
  | @cons t t' ts ts' hfirst _ ih =>
    have halike : (render ⟨.inline, limit⟩ depth bound t).Alike (fun _ _ => True)
        (render ⟨.inline, limit⟩ depth bound' t') :=
      ⟨hfirst depth bound bound', fun _ _ => trivial⟩
    apply renderAll_cons_alike (Q := fun _ _ => True) halike
    · intro x _
      exact ih _ _
    · intro _ _ _ _ _ _
      trivial

/-- A node passes the sameness of its children on. -/
theorem sameInPlace_node {limit : Option UInt64} {ts ts' : List FilterTree}
    (h : List.Forall₂ (SameInPlace limit) ts ts') (k : Kind) (s : String) :
    SameInPlace limit (.node k s ts) (.node k s ts') := by
  intro depth bound bound'
  by_cases hk : k.nests = true
  · have hall := renderAll_sameInPlace h (depth + 1) bound bound'
    exact (render_alike_of_nests hk rfl h.length_eq hall).result
  · -- the children do not matter, and a literal in place has its text at once
    cases he : Options.exceeded? ⟨.inline, limit⟩ depth with
    | some m => rw [render_of_exceeded he, render_of_exceeded he]
    | none =>
      rw [render_eq_visit he, render_eq_visit he]
      cases k with
      | literal k =>
        exact (result_renderLiteral ⟨.inline, limit⟩ bound k s).trans
          (result_renderLiteral ⟨.inline, limit⟩ bound' k s).symm
      | property => rfl
      | unsupported k => rfl
      | list => exact absurd rfl hk
      | operator k => exact absurd rfl hk

theorem sameInPlace_refl (limit : Option UInt64) (t : FilterTree) : SameInPlace limit t t := by
  induction t with
  | node kind text children ih =>
    apply sameInPlace_node
    rw [List.forall₂_same]
    exact ih

/-- The outcome of a part does not depend on where it stands. -/
theorem result_render_inline (t : FilterTree) (depth depth' bound bound' : Nat) :
    (render ⟨.inline, none⟩ depth bound t).result =
      (render ⟨.inline, none⟩ depth' bound' t).result := by
  rw [render_unlimited .inline depth depth']
  exact sameInPlace_refl none t depth' bound bound'

theorem compile_inline_eq (limit : Option UInt64) (t : FilterTree) :
    compile ⟨.inline, limit⟩ t =
      (render ⟨.inline, limit⟩ 1 0 t).result.map fun text => ⟨text, []⟩ := by
  rw [compile, params_render_inline]

/-- A part that has been rendered with literals in place is compiled on its own to the same
text. -/
theorem compile_inline_of_render_ok {limit : Option UInt64} {t : FilterTree}
    {depth bound : Nat} {x : String}
    (h : (render ⟨.inline, limit⟩ depth bound t).result = .ok x) :
    compile ⟨.inline, none⟩ t = .ok ⟨x, []⟩ := by
  have halone : (render ⟨.inline, none⟩ 1 bound t).result = .ok x :=
    render_unlimited_eq_ok h 1
  rw [compile_inline_eq, result_render_inline t 1 1 0 bound, halone]
  rfl

/-- Nothing that is rendered gets lost: if a filter is compiled with literals in place, every
node that is reached is compiled on its own as well, and its text is a contiguous part of the
text of the filter. -/
theorem fragment_infix_of_reached {t n : FilterTree} {c : Compiled}
    (hc : compile ⟨.inline, none⟩ t = .ok c) (hn : n ∈ t.reached) :
    ∃ c', compile ⟨.inline, none⟩ n = .ok c' ∧
      c'.fragment.toList <:+: c.fragment.toList := by
  obtain ⟨x, hx, rfl⟩ := render_of_compile_ok hc
  obtain ⟨depth, bound, y, hy, hinfix⟩ := render_of_reached hx hn
  exact ⟨⟨y, []⟩, compile_inline_of_render_ok hy, hinfix⟩

theorem fragment_infix_of_reached_swapped_operand :
    compile ⟨.inline, none⟩ (function "substringof" [property "A", list [function "length"
        [property "B"]]]) =
        .ok ⟨"\x7b $gte: [ \x7b $indexOfCP: [ [\x7b $strLenCP: B \x7d], A ] \x7d, 0 ] \x7d", []⟩ ∧
      ∃ c', compile ⟨.inline, none⟩ (function "length" [property "B"]) = .ok c' ∧
        c'.fragment.toList <:+:
          "\x7b $gte: [ \x7b $indexOfCP: [ [\x7b $strLenCP: B \x7d], A ] \x7d, 0 ] \x7d".toList := by
  have hc : compile ⟨.inline, none⟩ (function "substringof" [property "A",
      list [function "length" [property "B"]]]) =
      .ok ⟨"\x7b $gte: [ \x7b $indexOfCP: [ [\x7b $strLenCP: B \x7d], A ] \x7d, 0 ] \x7d", []⟩ := by
    decide +kernel
  have hn : function "length" [property "B"] ∈ (function "substringof" [property "A",
      list [function "length" [property "B"]]]).reached := by decide +kernel
  exact ⟨hc, fragment_infix_of_reached hc hn⟩

namespace FilterTree

/-- The tree at a position, which is given by the indices of the children on the way to it. -/
def at? : FilterTree → List Nat → Option FilterTree
  | t, [] => some t
  | node _ _ ts, i :: path => ts[i]?.bind fun t => t.at? path

/-- The tree with the one at a position replaced. A position outside of the tree changes
nothing. -/
def replaceAt : FilterTree → List Nat → FilterTree → FilterTree
  | _, [], new => new
  | node k s ts, i :: path, new => node k s (ts.modify i fun t => t.replaceAt path new)

/-- To put in place what stands there already changes nothing. -/
theorem replaceAt_of_at? {path : List Nat} {t u : FilterTree} (h : t.at? path = some u) :
    t.replaceAt path u = t := by
  induction path generalizing t with
  | nil =>
    cases t
    exact (Option.some.inj h).symm
  | cons i path ih =>
    obtain ⟨k, s, ts⟩ := t
    obtain ⟨child, hchild, hu⟩ := Option.bind_eq_some_iff.mp h
    have hsame : ts.modify i (fun t => t.replaceAt path u) = ts := by
      apply List.ext_getElem?
      intro j
      rw [List.getElem?_modify]
      by_cases hij : i = j
      · subst hij
        simp [hchild, ih hu]
      · simp [hij]
    rw [replaceAt, hsame]

end FilterTree

theorem forall₂_modify {α : Type} {R : α → α → Prop} {f g : α → α} (hrefl : ∀ a, R a a)
    (hfg : ∀ a, R (f a) (g a)) (l : List α) (i : Nat) :
    List.Forall₂ R (l.modify i f) (l.modify i g) := by
  induction l generalizing i with
  | nil => simp
  | cons a l ih =>
    have hrest : List.Forall₂ R l l := by
      rw [List.forall₂_same]
      exact fun b _ => hrefl b
    cases i with
    | zero => exact .cons (hfg a) hrest
    | succ i => exact .cons (hrefl a) (ih i)

/-- Wherever they are put into a tree, trees of the same outcome give trees of the same
outcome. -/
theorem sameInPlace_replaceAt {limit : Option UInt64} {s s' : FilterTree}
    (h : SameInPlace limit s s') (t : FilterTree) (path : List Nat) :
    SameInPlace limit (t.replaceAt path s) (t.replaceAt path s') := by
  induction path generalizing t with
  | nil =>
    cases t
    exact h
  | cons i path ih =>
    obtain ⟨k, text, ts⟩ := t
    rw [replaceAt, replaceAt]
    apply sameInPlace_node
    -- only the child on the way differs, and it does so one step closer to the position
    exact forall₂_modify (sameInPlace_refl limit) ih ts i

theorem sameInPlace_of_compile {s s' : FilterTree}
    (h : (compile ⟨.inline, none⟩ s).map Compiled.fragment =
      (compile ⟨.inline, none⟩ s').map Compiled.fragment) : SameInPlace none s s' := by
  have hfragment (t : FilterTree) : (compile ⟨.inline, none⟩ t).map Compiled.fragment =
      (render ⟨.inline, none⟩ 1 0 t).result := by
    rw [compile_inline_eq]
    cases (render ⟨.inline, none⟩ 1 0 t).result <;> rfl
  intro depth bound bound'
  calc (render ⟨.inline, none⟩ depth bound s).result
      = (render ⟨.inline, none⟩ 1 0 s).result := result_render_inline s _ _ _ _
    _ = (render ⟨.inline, none⟩ 1 0 s').result := by rw [← hfragment, h, hfragment]
    _ = (render ⟨.inline, none⟩ depth bound' s').result := result_render_inline s' _ _ _ _

/-- Compiling with literals in place is compositional. Two filters with the same fragment, or
with the same rejection, may stand for each other at any position of any tree; so a part of a
filter may be replaced by a filter that has its outcome. -/
theorem compile_inline_replaceAt (t : FilterTree) (path : List Nat) {s s' : FilterTree}
    (h : (compile ⟨.inline, none⟩ s).map Compiled.fragment =
      (compile ⟨.inline, none⟩ s').map Compiled.fragment) :
    compile ⟨.inline, none⟩ (t.replaceAt path s) = compile ⟨.inline, none⟩ (t.replaceAt path s') ∧
      (t.at? path = some s →
        compile ⟨.inline, none⟩ (t.replaceAt path s') = compile ⟨.inline, none⟩ t) := by
  have hsame : compile ⟨.inline, none⟩ (t.replaceAt path s) =
      compile ⟨.inline, none⟩ (t.replaceAt path s') := by
    have hplaced := sameInPlace_replaceAt (sameInPlace_of_compile h) t path
    rw [compile_inline_eq, compile_inline_eq, hplaced 1 0 0]
  refine ⟨hsame, ?_⟩
  intro hat
  rw [← hsame, replaceAt_of_at? hat]

/-- A property that is named like the text of a function stands for the function. -/
theorem compile_inline_replaceAt_text_of_function :
    (compile ⟨.inline, none⟩ (property "\x7b $strLenCP: A \x7d")).map Compiled.fragment =
        (compile ⟨.inline, none⟩ (function "length" [property "A"])).map Compiled.fragment ∧
      compile ⟨.inline, none⟩
          (list [property "B", comparison "gt" (function "length" [property "A"]) (number "3")]) =
        compile ⟨.inline, none⟩
          (list [property "B", comparison "gt" (property "\x7b $strLenCP: A \x7d") (number "3")]) := by
  have h : (compile ⟨.inline, none⟩ (property "\x7b $strLenCP: A \x7d")).map Compiled.fragment =
      (compile ⟨.inline, none⟩ (function "length" [property "A"])).map Compiled.fragment := by
    decide +kernel
  obtain ⟨-, hpart⟩ := compile_inline_replaceAt
    (list [property "B", comparison "gt" (property "\x7b $strLenCP: A \x7d") (number "3")]) [1, 0] h
  exact ⟨h, hpart rfl⟩

end ODataQuery
