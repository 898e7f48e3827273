import ODataQuery.Proofs.Rendering

/-! What a depth limit changes. Only the nodes that a compilation looks at count against the
limit. As long as these are not too deep, the limit does not show at all; a limit that is
passed can only replace another outcome by the rejection for its own sake. -/
namespace ODataQuery

namespace FilterTree

mutual

/-- The depth of the part of the tree that a compilation looks at. Below a node that is
neither a list nor an operator nothing counts. -/
def reachedDepth : FilterTree → Nat
  | node k _ ts => if k.nests then 1 + reachedDepthAll ts else 1

def reachedDepthAll : List FilterTree → Nat
  | [] => 0
  | t :: ts => max t.reachedDepth (reachedDepthAll ts)

end

theorem reachedDepth_of_nests {k : Kind} (hk : k.nests = true) (s : String)
    (ts : List FilterTree) : (node k s ts).reachedDepth = 1 + reachedDepthAll ts := by
  rw [reachedDepth, if_pos hk]

theorem reachedDepth_of_not_nests {k : Kind} (hk : k.nests = false) (s : String)
    (ts : List FilterTree) : (node k s ts).reachedDepth = 1 := by
  rw [reachedDepth, hk]
  rfl

theorem reachedDepthAll_le {ts : List FilterTree} {n : Nat} :
    reachedDepthAll ts ≤ n ↔ ∀ t ∈ ts, t.reachedDepth ≤ n := by
  induction ts with
  | nil => simp [reachedDepthAll]
  | cons t ts ih => rw [reachedDepthAll, Nat.max_le, ih, List.forall_mem_cons]

theorem depth_node (k : Kind) (s : String) (ts : List FilterTree) :
    (node k s ts).depth = 1 + depthAll ts := by
  rw [depth]

theorem depth_pos (t : FilterTree) : 0 < t.depth := by
  cases t
  rw [depth_node]
  omega

theorem depthAll_le {ts : List FilterTree} {n : Nat} :
    depthAll ts ≤ n ↔ ∀ t ∈ ts, t.depth ≤ n := by
  induction ts with
  | nil => simp [depthAll]
  | cons t ts ih => rw [depthAll, Nat.max_le, ih, List.forall_mem_cons]

theorem reachedDepth_le_depth (t : FilterTree) : t.reachedDepth ≤ t.depth := by
  induction t with
  | node kind text children ih =>
    rw [depth_node]
    cases hk : kind.nests with
    | false =>
      rw [reachedDepth_of_not_nests hk]
      exact Nat.le_add_right 1 _
    | true =>
      rw [reachedDepth_of_nests hk]
      apply Nat.add_le_add_left
      rw [reachedDepthAll_le]
      intro t ht
      exact Nat.le_trans (ih t ht) (depthAll_le.mp (Nat.le_refl _) t ht)

/-- Where nothing hides below a literal, a property or an unsupported node, the whole tree is
looked at. -/
theorem reachedDepth_eq_depth {t : FilterTree}
    (h : ∀ n ∈ t.reached, n.kind.nests = false → n.children = []) :
    t.reachedDepth = t.depth := by
  apply Nat.le_antisymm (reachedDepth_le_depth t)
  induction t with
  | node kind text children ih =>
    rw [depth_node]
    cases hk : kind.nests with
    | false =>
      -- the only place where the two depths can part
      have hnone : children = [] := h _ (self_mem_reached _) hk
      apply Nat.le_of_eq
      calc 1 + depthAll children = 1 := by rw [hnone, depthAll]
        _ = (node kind text children).reachedDepth := (reachedDepth_of_not_nests hk _ _).symm
    | true =>
      rw [reachedDepth_of_nests hk]
      apply Nat.add_le_add_left
      rw [depthAll_le]
      intro t ht
      have hchild : t.depth ≤ t.reachedDepth :=
        ih t ht fun n hn => h n (mem_reached_of_child hk ht hn)
      exact Nat.le_trans hchild (reachedDepthAll_le.mp (Nat.le_refl _) t ht)

end FilterTree

open FilterTree

/-- At every one of the next `n` levels, counted from `depth` and from `depth'`, the two
options allow or refuse alike. -/
structure Options.Agree (o o' : Options) (depth depth' n : Nat) : Prop where
  literals : o.literals = o'.literals
  exceeded : ∀ i < n, o.exceeded? (depth + i) = o'.exceeded? (depth' + i)

theorem Options.Agree.mono {o o' : Options} {depth depth' n m : Nat}
    (h : o.Agree o' depth depth' n) (hm : m ≤ n) : o.Agree o' depth depth' m :=
  ⟨h.literals, fun i hi => h.exceeded i (Nat.lt_of_lt_of_le hi hm)⟩

/-- One level further down there is one level less to agree on. -/
theorem Options.Agree.below {o o' : Options} {depth depth' n : Nat}
    (h : o.Agree o' depth depth' (1 + n)) : o.Agree o' (depth + 1) (depth' + 1) n := by
  refine ⟨h.literals, ?_⟩
  intro i hi
  have hnext := h.exceeded (1 + i) (by omega)
  rwa [← Nat.add_assoc, ← Nat.add_assoc] at hnext

/-- The step at a node does not look at the depth limit. -/
theorem visit_of_literals_eq {o o' : Options} (h : o.literals = o'.literals) (bound : Nat)
    (k : Kind) (s : String) (n : Nat) : visit o bound k s n = visit o' bound k s n := by
  cases k with
  | literal k =>
    have hplace (x : String) : placeLiteral o bound k x = placeLiteral o' bound k x := by
      rw [placeLiteral, placeLiteral, h]
    cases k <;> simp only [visit, renderLiteral, hplace]
  | _ => rfl

/-- Where two options agree on all levels of a tree that count, it is rendered with the same
text, parameters and events. -/
theorem render_agree {o o' : Options} {depth depth' : Nat} {t : FilterTree}
    (h : o.Agree o' depth depth' t.reachedDepth) (bound : Nat) :
    render o depth bound t = render o' depth' bound t := by
  induction t generalizing depth depth' bound with
  | node kind text children ih =>
    have hpos : 0 < (node kind text children).reachedDepth := by
      rw [reachedDepth]
      split <;> omega
    -- both runs pass the node, or both stop at it
    have hhere : o.exceeded? depth = o'.exceeded? depth' := h.exceeded 0 hpos
    apply render_congr hhere (visit_of_literals_eq h.literals bound kind text _)
    intro f hv
    have hk : kind.nests = true := nests_of_operands hv
    rw [reachedDepth_of_nests hk] at h
    apply renderAll_congr
    rw [List.forall₂_same]
    intro t ht b
    exact ih t ht (h.below.mono (reachedDepthAll_le.mp (Nat.le_refl _) t ht)) b

/-- Without a limit it does not matter how deep a tree stands. -/
theorem render_unlimited (style : LiteralStyle) (depth depth' bound : Nat) (t : FilterTree) :
    render ⟨style, none⟩ depth bound t = render ⟨style, none⟩ depth' bound t := by
  have hagree : Options.Agree ⟨style, none⟩ ⟨style, none⟩ depth depth' t.reachedDepth :=
    ⟨rfl, fun _ _ => rfl⟩
  exact render_agree hagree bound

theorem exceeded?_of_limit (style : LiteralStyle) (limit : UInt64) (depth : Nat) :
    Options.exceeded? ⟨style, some limit⟩ depth =
      if limit.toNat < depth then some limit else none := by
  simp [Options.exceeded?, Option.filter_some]

/-- A limit that the tree keeps does not show. -/
theorem render_of_within {limit : UInt64} {depth : Nat} {t : FilterTree}
    (h : depth + t.reachedDepth ≤ limit.toNat + 1) (style : LiteralStyle) (bound : Nat) :
    render ⟨style, some limit⟩ depth bound t = render ⟨style, none⟩ depth bound t := by
  have hagree : Options.Agree ⟨style, some limit⟩ ⟨style, none⟩ depth depth t.reachedDepth := by
    refine ⟨rfl, ?_⟩
    intro i hi
    have hkept : ¬limit.toNat < depth + i := by omega
    rw [exceeded?_of_limit, if_neg hkept]
    rfl
  exact render_agree hagree bound

/-- If a tree is rendered in spite of a limit, it keeps the limit. -/
theorem within_of_render_ok {style : LiteralStyle} {limit : UInt64} {depth bound : Nat}
    {t : FilterTree} {x : String}
    (h : (render ⟨style, some limit⟩ depth bound t).result = .ok x) :
    depth + t.reachedDepth ≤ limit.toNat + 1 := by
  induction t generalizing depth bound x with
  | node kind text children ih =>
    have hhere : depth ≤ limit.toNat := by
      by_contra hdeep
      have he := exceeded?_of_limit style limit depth
      rw [if_pos (Nat.lt_of_not_le hdeep)] at he
      rw [render_of_exceeded he] at h
      cases h
    cases hk : kind.nests with
    | false =>
      rw [reachedDepth_of_not_nests hk]
      omega
    | true =>
      -- every child has been rendered one level further down
      obtain ⟨f, xs, -, hxs, -⟩ := operands_of_render_ok hk h
      have hbelow : reachedDepthAll children ≤ limit.toNat - depth := by
        rw [reachedDepthAll_le]
        intro t ht
        obtain ⟨b, y, -, hy⟩ := render_ok_of_renderAll_ok hxs ht
        have hchild := ih t ht hy
        omega
      rw [reachedDepth_of_nests hk]
      omega

namespace Rendering

variable {α β : Type}

/-- Unless `r` is rejected for the sake of the limit, `r'` is the same. -/
def Outlasts (limit : UInt64) (r r' : Rendering α) : Prop :=
  r.result ≠ .error (.tooDeep limit) → r' = r

/-- What comes after two renderings is only looked at when they are the same. -/
theorem Outlasts.andThen {limit : UInt64} {r r' : Rendering α} {f f' : α → Rendering β}
    (h : Outlasts limit r r') (hf : r' = r → ∀ a, Outlasts limit (f a) (f' a)) :
    Outlasts limit (r.andThen f) (r'.andThen f') := by
  intro hne
  have hfirst : r.result ≠ .error (.tooDeep limit) := by
    intro hr
    exact hne (andThen_of_error hr f).1
  have hsame : r' = r := h hfirst
  subst hsame
  cases hr : r'.result with
  | error e => simp only [Rendering.andThen, hr]
  | ok a =>
    rw [(andThen_of_ok hr f).1] at hne
    have hnext : f' a = f a := hf rfl a hne
    simp only [Rendering.andThen, hr, hnext]

theorem Outlasts.map {limit : UInt64} {r r' : Rendering α} (h : Outlasts limit r r')
    (f : α → β) : Outlasts limit (r.map f) (r'.map f) := by
  intro hne
  have hfirst : r.result ≠ .error (.tooDeep limit) := by
    intro hr
    rw [result_map, hr] at hne
    exact hne rfl
  rw [h hfirst]

end Rendering

open Rendering

theorem renderAll_outlasts {o o' : Options} {limit : UInt64} {depth : Nat}
    {ts : List FilterTree}
    (h : ∀ t ∈ ts, ∀ bound, Outlasts limit (render o depth bound t) (render o' depth bound t))
    (bound : Nat) :
    Outlasts limit (renderAll o depth bound ts) (renderAll o' depth bound ts) := by
  induction ts generalizing bound with
  | nil =>
    intro _
    rw [renderAll, renderAll]
  | cons t ts ih =>
    rw [renderAll, renderAll]
    apply (h t List.mem_cons_self bound).andThen
    intro hsame x
    -- the first tree has bound the same parameters, so the rest starts from the same number
    rw [hsame]
    exact (ih (fun u hu => h u (List.mem_cons_of_mem t hu)) _).map (x :: ·)

/-- Under a more generous limit, or none, only a rejection for the sake of the limit can turn
into something else. -/
theorem render_outlasts {o : Options} {limit : UInt64}
    (hgenerous : ∀ depth ≤ limit.toNat, o.exceeded? depth = none) (depth bound : Nat)
    (t : FilterTree) :
    Outlasts limit (render ⟨o.literals, some limit⟩ depth bound t) (render o depth bound t) := by
  induction t generalizing depth bound with
  | node kind text children ih =>
    by_cases hdeep : limit.toNat < depth
    · have he := exceeded?_of_limit o.literals limit depth
      rw [if_pos hdeep] at he
      -- stopped by the limit: the one outcome of which nothing is claimed
      intro hne
      rw [render_of_exceeded he] at hne
      exact absurd rfl hne
    · have he := exceeded?_of_limit o.literals limit depth
      rw [if_neg hdeep] at he
      have hfree := hgenerous depth (Nat.le_of_not_lt hdeep)
      have hstyle : (⟨o.literals, some limit⟩ : Options).literals = o.literals := rfl
      rw [render_eq_visit he, render_eq_visit hfree, visit_of_literals_eq hstyle]
      cases visit o bound kind text children.length with
      | settled r => exact fun _ => rfl
      | operands f =>
        have hall := renderAll_outlasts (fun t ht b => ih t ht (depth + 1) b) bound
        exact hall.andThen fun _ texts _ => rfl

/-- A tree that is rendered without a limit and does not keep the limit is rejected for
it. -/
theorem render_of_beyond {style : LiteralStyle} {limit : UInt64} {depth bound : Nat}
    {t : FilterTree} {x : String} (h : (render ⟨style, none⟩ depth bound t).result = .ok x)
    (hdeep : limit.toNat + 1 < depth + t.reachedDepth) :
    (render ⟨style, some limit⟩ depth bound t).result = .error (.tooDeep limit) := by
  -- any other outcome would be the one without a limit, a text, and then the limit is kept
  by_contra hne
  have hsame := render_outlasts (o := ⟨style, none⟩) (fun _ _ => rfl) depth bound t hne
  rw [hsame] at h
  have hwithin := within_of_render_ok h
  omega

/-- A tree that is rendered in spite of a limit has the same text without it, at any
depth. -/
theorem render_unlimited_eq_ok {o : Options} {depth bound : Nat} {t : FilterTree} {x : String}
    (h : (render o depth bound t).result = .ok x) (depth' : Nat) :
    (render ⟨o.literals, none⟩ depth' bound t).result = .ok x := by
  rw [render_unlimited o.literals depth' depth]
  obtain ⟨style, limit⟩ := o
  cases limit with
  | none => exact h
  | some limit =>
    have hsame : Outlasts limit (render ⟨style, some limit⟩ depth bound t)
        (render ⟨style, none⟩ depth bound t) :=
      render_outlasts (o := ⟨style, none⟩) (fun _ _ => rfl) depth bound t
    rw [hsame (by rw [h]; exact nofun)]
    exact h

theorem compile_eq_of_render_eq {o o' : Options} {t : FilterTree}
    (h : render o 1 0 t = render o' 1 0 t) : compile o t = compile o' t := by
  rw [compile, compile, h]

/-- A depth limit counts the nodes that are looked at, which is the depth of the tree where
nothing hides below a node that is not. A limit that is kept changes nothing; one that is not
kept rejects what would be compiled without it; and any other outcome than this rejection
stays the same under a more generous limit. -/
theorem compile_under_limit (style : LiteralStyle) (limit : UInt64) (t : FilterTree) :
    t.reachedDepth ≤ t.depth ∧
      ((∀ n ∈ t.reached, n.kind.nests = false → n.children = []) →
        t.reachedDepth = t.depth) ∧
      (t.reachedDepth ≤ limit.toNat →
        compile ⟨style, some limit⟩ t = compile ⟨style, none⟩ t) ∧
      (t.depth ≤ limit.toNat →
        compile ⟨style, some limit⟩ t = compile ⟨style, none⟩ t) ∧
      (∀ c, compile ⟨style, none⟩ t = .ok c → limit.toNat < t.reachedDepth →
        compile ⟨style, some limit⟩ t = .error (.tooDeep limit)) ∧
      ∀ limit', limit ≤ limit' → compile ⟨style, some limit⟩ t ≠ .error (.tooDeep limit) →
        compile ⟨style, some limit'⟩ t = compile ⟨style, some limit⟩ t := by
  have hkept (h : t.reachedDepth ≤ limit.toNat) :
      compile ⟨style, some limit⟩ t = compile ⟨style, none⟩ t := by
    apply compile_eq_of_render_eq
    exact render_of_within (by omega) style 0
  refine ⟨reachedDepth_le_depth t, reachedDepth_eq_depth, hkept, ?_, ?_, ?_⟩
  · intro h
    exact hkept (Nat.le_trans (reachedDepth_le_depth t) h)
  · intro c hc hdeep
    obtain ⟨x, hx, -⟩ := render_of_compile_ok hc
    exact compile_eq_error_iff_render.mpr (render_of_beyond hx (by omega))
  · intro limit' hle hne
    have hgenerous : ∀ depth ≤ limit.toNat,
        Options.exceeded? ⟨style, some limit'⟩ depth = none := by
      intro depth hdepth
      have hlimits : limit.toNat ≤ limit'.toNat := UInt64.le_iff_toNat_le.mp hle
      rw [exceeded?_of_limit, if_neg (by omega)]
    apply compile_eq_of_render_eq
    apply render_outlasts hgenerous 1 0 t
    intro hr
    exact hne (compile_eq_error_iff_render.mpr hr)

theorem compile_under_limit_hidden_child :
    (function "length" [node .property "A" [property "B"]]).reachedDepth = 2 ∧
      (function "length" [node .property "A" [property "B"]]).depth = 3 ∧
      compile ⟨.bind, some 2⟩ (function "length" [node .property "A" [property "B"]]) =
        .ok ⟨"\x7b $strLenCP: A \x7d", []⟩ ∧
      compile ⟨.bind, some 3⟩ (function "length" [node .property "A" [property "B"]]) =
        .ok ⟨"\x7b $strLenCP: A \x7d", []⟩ ∧
      compile ⟨.bind, some 1⟩ (function "length" [node .property "A" [property "B"]]) =
        .error (.tooDeep 1) ∧
      (function "length" [property "A"]).reachedDepth =
        (function "length" [property "A"]).depth := by
  have hfree : compile ⟨.bind, none⟩ (function "length" [node .property "A" [property "B"]]) =
      .ok ⟨"\x7b $strLenCP: A \x7d", []⟩ := by decide +kernel
  obtain ⟨-, -, hkept, -, -, hmore⟩ :=
    compile_under_limit .bind 2 (function "length" [node .property "A" [property "B"]])
  obtain ⟨-, -, -, -, hbeyond, -⟩ :=
    compile_under_limit .bind 1 (function "length" [node .property "A" [property "B"]])
  obtain ⟨-, hplain, -⟩ := compile_under_limit .bind 1 (function "length" [property "A"])
  have htwo := (hkept (by decide)).trans hfree
  have hthree := (hmore 3 (by decide) (by rw [htwo]; simp)).trans htwo
  exact ⟨by decide, by decide, htwo, hthree, hbeyond _ hfree (by decide), hplain (by decide)⟩

end ODataQuery
