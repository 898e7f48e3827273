import ODataQuery.Proofs.Labelling
import Mathlib.Algebra.Ring.Nat

/-! The reached nodes of a filter with the ways that lead to them, and how often the text of
a literal is written if every `substring` without a length writes its first operand twice.
The sites of a tree are its reached nodes in the same order, so the literals among them are
those that are bound. -/
namespace ODataQuery
namespace FilterTree

/-- A node of a tree with the nodes above it, from the root down. Each of these comes with
the index of its child that is next on the way. -/
structure Site where
  above : List (FilterTree × Nat)
  node : FilterTree

def Site.under (parent : FilterTree) (i : Nat) (site : Site) : Site :=
  ⟨(parent, i) :: site.above, site.node⟩

mutual

/-- The nodes that are reached from the root, with the ways to them. -/
def sites : FilterTree → List Site
  | node k s ts => ⟨[], node k s ts⟩ :: if k.nests then sitesFrom (node k s ts) 0 ts else []

/-- The sites in the children of a node from the one of the given index on. -/
def sitesFrom (parent : FilterTree) (i : Nat) : List FilterTree → List Site
  | [] => []
  | t :: ts => t.sites.map (Site.under parent i) ++ sitesFrom parent (i + 1) ts

end

/-- Whether the node is a `substring` with two operands. -/
def repeatsFirst : FilterTree → Bool
  | node (.operator _) s ts => Operator.ofName? s = some .substring && ts.length = 2
  | _ => false

/-- The number of nodes above that repeat their first child and have the site in it. -/
def Site.doublings (site : Site) : Nat :=
  site.above.countP fun step => step.1.repeatsFirst && step.2 == 0

def literalSites (t : FilterTree) : List Site := t.sites.filter (·.node.kind.isLiteral)

theorem map_node_sitesFrom {ts : List FilterTree}
    (h : ∀ t ∈ ts, t.sites.map Site.node = t.reached) (parent : FilterTree) (i : Nat) :
    (sitesFrom parent i ts).map Site.node = reachedAll ts := by
  induction ts generalizing i with
  | nil => rfl
  | cons t ts ih =>
    have hfirst : (t.sites.map (Site.under parent i)).map Site.node = t.reached := by
      rw [List.map_map, ← h t List.mem_cons_self]
      rfl
    rw [sitesFrom, reachedAll, List.map_append, hfirst,
      ih (fun u hu => h u (List.mem_cons_of_mem t hu))]

theorem map_node_sites (t : FilterTree) : t.sites.map Site.node = t.reached := by
  induction t with
  | node k s ts ih =>
    rw [sites, reached, List.map_cons]
    by_cases hk : k.nests = true
    · rw [if_pos hk, if_pos hk, map_node_sitesFrom ih]
    · rw [if_neg hk, if_neg hk, List.map_nil]

theorem isSome_param? (t : FilterTree) : t.param?.isSome = t.kind.isLiteral := by
  cases t with
  | node k s ts => cases k <;> rfl

theorem map_param?_literalSites (t : FilterTree) :
    t.literalSites.map (fun site => site.node.param?) = t.literals.map some := by
  have hkeep : (fun site : Site => site.node.kind.isLiteral) =
      fun site => site.node.param?.isSome := by
    funext site
    rw [isSome_param?]
  calc t.literalSites.map (fun site => site.node.param?)
      = (t.sites.map fun site => site.node.param?).filter Option.isSome := by
        rw [literalSites, hkeep, List.filter_map]
        rfl
    _ = (t.reached.map param?).filter Option.isSome := by
        rw [← map_node_sites, List.map_map]
        rfl
    _ = t.literals.map some := by
        rw [literals, List.map_filterMap_some_eq_filter_map_isSome]

theorem length_literalSites (t : FilterTree) : t.literalSites.length = t.literals.length := by
  simpa using congrArg List.length (map_param?_literalSites t)

/-- How often each literal among some sites occurs in a text. -/
def Site.copies (sites : List Site) : List Nat :=
  (sites.filter (·.node.kind.isLiteral)).map fun site => 2 ^ site.doublings

def copies (t : FilterTree) : List Nat := Site.copies t.sites

theorem length_copies (t : FilterTree) : t.copies.length = t.literals.length := by
  rw [← length_literalSites, copies, Site.copies, List.length_map]
  rfl

theorem Site.copies_append (sites sites' : List Site) :
    Site.copies (sites ++ sites') = Site.copies sites ++ Site.copies sites' := by
  simp [Site.copies]

theorem Site.copies_under (parent : FilterTree) (i : Nat) (sites : List Site) :
    Site.copies (sites.map (Site.under parent i)) =
      if parent.repeatsFirst && i == 0 then (Site.copies sites).map (2 * ·)
      else Site.copies sites := by
  have hdoublings (site : Site) : (site.under parent i).doublings =
      site.doublings + if parent.repeatsFirst && i == 0 then 1 else 0 := by
    rw [doublings, under, List.countP_cons]
    rfl
  have hcopies : Site.copies (sites.map (Site.under parent i)) =
      (sites.filter (·.node.kind.isLiteral)).map
        fun site => 2 ^ (site.under parent i).doublings := by
    rw [Site.copies, List.filter_map, List.map_map]
    rfl
  rw [hcopies]
  -- one more step above a site adds one doubling or none, the same for all sites
  split
  · rename_i h
    simp [Site.copies, hdoublings, h, Nat.pow_succ, Nat.mul_comm]
  · rename_i h
    simp [Site.copies, hdoublings, h]

theorem copies_sitesFrom (parent : FilterTree) {i : Nat}
    (h : parent.repeatsFirst = true → 0 < i) (ts : List FilterTree) :
    Site.copies (sitesFrom parent i ts) = ts.flatMap copies := by
  induction ts generalizing i with
  | nil => rfl
  | cons t ts ih =>
    -- only the child of index 0 is repeated, and later children have larger indices
    have hi : (parent.repeatsFirst && i == 0) = false := by
      cases hp : parent.repeatsFirst with
      | false => rfl
      | true => simpa using Nat.pos_iff_ne_zero.mp (h hp)
    rw [sitesFrom, Site.copies_append, Site.copies_under, hi, List.flatMap_cons,
      ih fun _ => Nat.succ_pos i]
    rfl

theorem copies_eq_sitesFrom {k : Kind} (hk : k.nests = true) (s : String)
    (ts : List FilterTree) :
    (node k s ts).copies = Site.copies (sitesFrom (node k s ts) 0 ts) := by
  have hroot : k.isLiteral = false := by
    cases k <;> first | rfl | cases hk
  rw [copies, sites, if_pos hk, Site.copies, Site.copies, List.filter_cons_of_neg]
  simpa [kind] using hroot

theorem copies_of_nests {k : Kind} (hk : k.nests = true) {s : String} {ts : List FilterTree}
    (h : (node k s ts).repeatsFirst = false) : (node k s ts).copies = ts.flatMap copies := by
  rw [copies_eq_sitesFrom hk]
  apply copies_sitesFrom
  intro htrue
  rw [h] at htrue
  cases htrue

theorem nests_of_repeatsFirst {k : Kind} {s : String} {ts : List FilterTree}
    (h : (node k s ts).repeatsFirst = true) : k.nests = true := by
  cases k <;> first | rfl | cases h

theorem length_of_repeatsFirst {k : Kind} {s : String} {ts : List FilterTree}
    (h : (node k s ts).repeatsFirst = true) : ts.length = 2 := by
  cases k with
  | operator k => simpa using (Bool.and_eq_true_iff.mp h).2
  | _ => cases h

theorem copies_of_repeatsFirst {k : Kind} {s : String} {t u : FilterTree}
    (h : (node k s [t, u]).repeatsFirst = true) :
    (node k s [t, u]).copies = t.copies.map (2 * ·) ++ u.copies := by
  have hrest := copies_sitesFrom (node k s [t, u]) (fun _ => Nat.one_pos) [u]
  rw [copies_eq_sitesFrom (nests_of_repeatsFirst h), sitesFrom, Site.copies_append,
    Site.copies_under, h, hrest]
  simp [copies]

end FilterTree
end ODataQuery
