import ODataQuery.Filter.Tree
import Mathlib.Data.List.Forall2

/-! Induction over filter trees, and the nodes of a tree that a compilation looks at. The
children of a literal, a property or an unsupported node are never looked at. -/
namespace ODataQuery

/-- Whether a compilation goes on to the children of a node of this kind. -/
def Kind.nests : Kind → Bool
  | .list | .operator _ => true
  | _ => false

namespace FilterTree

/-- What passes from the children of every node to the node holds of every tree. -/
@[elab_as_elim, induction_eliminator]
theorem induct {P : FilterTree → Prop}
    (node : ∀ kind text children, (∀ t ∈ children, P t) → P (.node kind text children))
    (t : FilterTree) : P t := by
  -- the recursor asks what holds of a list of children: the same of each of them
  refine @FilterTree.rec P (fun ts => ∀ t ∈ ts, P t) node ?_ ?_ t
  · intro u hu
    exact absurd hu List.not_mem_nil
  · intro t ts ht hts u hu
    rcases List.mem_cons.mp hu with rfl | hu
    · exact ht
    · exact hts u hu

mutual

/-- The nodes reached from the root through lists and operators only, each before its
children and the children from left to right. -/
def reached : FilterTree → List FilterTree
  | node k s ts => node k s ts :: if k.nests then reachedAll ts else []

def reachedAll : List FilterTree → List FilterTree
  | [] => []
  | t :: ts => t.reached ++ reachedAll ts

end

theorem reachedAll_eq_flatMap (ts : List FilterTree) : reachedAll ts = ts.flatMap reached := by
  induction ts with
  | nil => rfl
  | cons t ts ih => rw [reachedAll, ih, List.flatMap_cons]

theorem reached_of_nests {k : Kind} (hk : k.nests = true) (s : String) (ts : List FilterTree) :
    (node k s ts).reached = node k s ts :: ts.flatMap reached := by
  rw [reached, if_pos hk, reachedAll_eq_flatMap]

theorem self_mem_reached (t : FilterTree) : t ∈ t.reached := by
  cases t
  rw [reached]
  exact List.mem_cons_self

/-- A node that is reached is the root, or it is reached from a child of a list or an
operator. -/
theorem mem_reached_node {k : Kind} {s : String} {ts : List FilterTree} {n : FilterTree} :
    n ∈ (node k s ts).reached ↔
      n = node k s ts ∨ k.nests = true ∧ ∃ t ∈ ts, n ∈ t.reached := by
  rw [reached, List.mem_cons, reachedAll_eq_flatMap]
  cases k.nests <;> simp

theorem mem_reached_of_child {k : Kind} (hk : k.nests = true) {s : String}
    {ts : List FilterTree} {t n : FilterTree} (ht : t ∈ ts) (hn : n ∈ t.reached) :
    n ∈ (node k s ts).reached := by
  exact mem_reached_node.mpr (.inr ⟨hk, t, ht, hn⟩)

end FilterTree
end ODataQuery
