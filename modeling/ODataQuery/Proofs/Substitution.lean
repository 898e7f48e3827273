import ODataQuery.Proofs.Placeholder
import ODataQuery.Proofs.Rules

/-! Putting the bound values back. If no property name has the sign of a placeholder in
it, replacing every placeholder of a bound fragment by the value of its parameter gives the
fragment that has its literals in place. -/
namespace ODataQuery

/-- The text that a token stands for; nothing if it is the placeholder of no parameter. -/
def Token.value? (params : List Param) : Token → Option (List Char)
  | .char c => some [c]
  | .placeholder 0 => none
  | .placeholder (i + 1) => params[i]?.map fun p => p.value.toList

/-- The texts of tokens one after the other; nothing if one of them has none. -/
def putBack? (params : List Param) : List Token → Option (List Char)
  | [] => some []
  | token :: rest =>
    (token.value? params).bind fun x => (putBack? params rest).map (x ++ ·)

/-- The fragment with each placeholder replaced by the value of its parameter. The values
are not read again. -/
def substitute? (params : List Param) (fragment : String) : Option String :=
  (putBack? params (tokens fragment.toList)).map String.ofList

theorem putBack?_append {params : List Param} {as bs : List Token} {x y : List Char}
    (hx : putBack? params as = some x) (hy : putBack? params bs = some y) :
    putBack? params (as ++ bs) = some (x ++ y) := by
  induction as generalizing x with
  | nil =>
    cases hx
    exact hy
  | cons a as ih =>
    simp only [putBack?, Option.bind_eq_some_iff, Option.map_eq_some_iff] at hx
    obtain ⟨v, hv, z, hz, rfl⟩ := hx
    simp [putBack?, hv, ih hz]

theorem putBack?_chars (params : List Param) (cs : List Char) :
    putBack? params (cs.map .char) = some cs := by
  induction cs with
  | nil => rfl
  | cons c cs ih => simp [putBack?, Token.value?, ih]

/-- A text whose placeholders, whatever follows it, stand for the second text. -/
structure PutsBack (params : List Param) (x y : List Char) : Prop where
  closed : Sealed x
  value : putBack? params (tokens x) = some y

theorem putsBack_of_no_sign (params : List Param) {x : List Char} (hx : '@' ∉ x) :
    PutsBack params x x :=
  ⟨sealed_of_no_sign hx, by rw [tokens_of_no_sign hx, putBack?_chars]⟩

theorem putsBack_placeholder {params : List Param} {i : Nat} {p : Param}
    (hp : params[i]? = some p) :
    PutsBack params (placeholder (i + 1)).toList p.value.toList := by
  refine ⟨sealed_placeholder (i + 1), ?_⟩
  simp [tokens_placeholder, putBack?, Token.value?, hp]

theorem putBack?_tokensWith {params : List Param} {us : Layout} {f : Nat → List Token}
    {g : Nat → List Char} (h : ∀ i, .slot i ∈ us → putBack? params (f i) = some (g i)) :
    putBack? params (us.tokensWith f) = some (us.spell g) := by
  induction us with
  | nil => rfl
  | cons u us ih =>
    have hrest := ih fun i hi => h i (List.mem_cons_of_mem u hi)
    cases u with
    | char c => simp [Layout.tokensWith, Layout.spell, putBack?, Token.value?, hrest]
    | slot i => exact putBack?_append (h i List.mem_cons_self) hrest

theorem putsBack_spell {params : List Param} {us : Layout} {n : Nat} (hus : us.Fits n)
    {f g : Nat → List Char} (h : ∀ i, i < n → PutsBack params (f i) (g i)) :
    PutsBack params (us.spell f) (us.spell g) := by
  have hsealed : ∀ i, i < n → Sealed (f i) := fun i hi => (h i hi).closed
  refine ⟨Layout.sealed_spell hus hsealed, ?_⟩
  rw [Layout.tokens_spell hus hsealed]
  exact putBack?_tokensWith fun i hi => (h i (hus.slot_lt i hi)).value

/-- No property that is reached has the sign of a placeholder in its name. -/
def FilterTree.SignFree (t : FilterTree) : Prop :=
  ∀ n ∈ t.reached, n.kind = .property → '@' ∉ n.text.toList

open FilterTree

theorem FilterTree.SignFree.child {k : Kind} {s : String} {ts : List FilterTree}
    (h : (node k s ts).SignFree) (hk : k.nests = true) {t : FilterTree} (ht : t ∈ ts) :
    t.SignFree :=
  fun n hn => h n (mem_reached_of_child hk ht hn)

theorem putsBack_all {limit : Option UInt64} {params : List Param} {depth : Nat}
    {ts : List FilterTree} {xs : List (List Char)}
    (h : ∀ t ∈ ts, ∀ x, Writes ⟨.bind, limit⟩ params depth t x →
      ∃ y, Writes ⟨.inline, limit⟩ params depth t y ∧ PutsBack params x y)
    (hxs : WritesAll ⟨.bind, limit⟩ params depth ts xs) :
    ∃ ys, WritesAll ⟨.inline, limit⟩ params depth ts ys ∧
      List.Forall₂ (PutsBack params) xs ys := by
  induction ts generalizing xs with
  | nil =>
    cases hxs
    exact ⟨[], .nil, .nil⟩
  | cons t ts ih =>
    cases hxs with
    | cons first rest =>
      obtain ⟨y, hy, hback⟩ := h t List.mem_cons_self _ first
      obtain ⟨ys, hys, hbacks⟩ := ih (fun u hu => h u (List.mem_cons_of_mem t hu)) rest
      exact ⟨y :: ys, .cons hy hys, .cons hback hbacks⟩

/-- A tree that is written with bound literals is written with literals in place, and the
values lead from one text to the other. -/
theorem writes_inline_of_bind {limit : Option UInt64} {params : List Param} {t : FilterTree}
    (ht : t.SignFree) {depth : Nat} {x : List Char}
    (hx : Writes ⟨.bind, limit⟩ params depth t x) :
    ∃ y, Writes ⟨.inline, limit⟩ params depth t y ∧ PutsBack params x y := by
  induction t generalizing depth x with
  | node kind text children ih =>
    cases hx with
    | literal within hlit =>
      obtain ⟨i, hp, rfl⟩ := hlit
      exact ⟨_, .literal within rfl, putsBack_placeholder hp⟩
    | property within =>
      have hsign : '@' ∉ text.toList := ht _ (self_mem_reached _) rfl
      exact ⟨_, .property within, putsBack_of_no_sign params hsign⟩
    | branch within hus operands hx =>
      have hk := nests_of_layout? hus
      obtain ⟨ys, hys, hback⟩ :=
        putsBack_all (fun t hmem x hx => ih t hmem (ht.child hk hmem) hx) operands
      have hlen := (writesAll_iff_forall₂.mp operands).length_eq
      refine ⟨_, .branch within hus hys rfl, ?_⟩
      rw [hx]
      -- both texts fill the same layout, so it is enough to look at each operand
      apply putsBack_spell (fits_layout? hus)
      intro i hi
      have hxs := hlen ▸ hi
      have hys := hback.length_eq ▸ hxs
      rw [operandOf_eq_get hxs, operandOf_eq_get hys]
      exact hback.get hxs hys

/-- Putting the values of the parameters back into a bound fragment never meets a
placeholder without a parameter and gives the fragment with literals in place. -/
theorem substitute_compile_bind {limit : Option UInt64} {t : FilterTree} {c : Compiled}
    (ht : t.SignFree) (hc : compile ⟨.bind, limit⟩ t = .ok c) :
    ∃ c', compile ⟨.inline, limit⟩ t = .ok c' ∧
      substitute? c.params c.fragment = some c'.fragment := by
  obtain ⟨x, hx, rfl⟩ := render_of_compile_ok hc
  obtain ⟨y, hy, hback⟩ := writes_inline_of_bind ht
    (writes_of_render _ _ t 1 0 x hx (List.prefix_refl _))
  refine ⟨_, compile_of_render_ok (render_of_writes hy 0), ?_⟩
  simp [substitute?, hback.value]

theorem substitute_compile_bind_sign_in_value :
    (function "substringof" [string "@p2", property "Name"]).SignFree ∧
      compile ⟨.bind, none⟩ (function "substringof" [string "@p2", property "Name"]) =
        .ok ⟨"\x7b $gte: [ \x7b $indexOfCP: [ Name, @p1 ] \x7d, 0 ] \x7d",
          [⟨.literal .string, "@p2"⟩]⟩ ∧
      ∃ c', compile ⟨.inline, none⟩ (function "substringof" [string "@p2", property "Name"]) =
          .ok c' ∧
        substitute? [⟨.literal .string, "@p2"⟩]
          "\x7b $gte: [ \x7b $indexOfCP: [ Name, @p1 ] \x7d, 0 ] \x7d" = some c'.fragment := by
  have ht : (function "substringof" [string "@p2", property "Name"]).SignFree := by
    unfold SignFree
    decide +kernel
  have hc : compile ⟨.bind, none⟩ (function "substringof" [string "@p2", property "Name"]) =
      .ok ⟨"\x7b $gte: [ \x7b $indexOfCP: [ Name, @p1 ] \x7d, 0 ] \x7d",
        [⟨.literal .string, "@p2"⟩]⟩ := rfl
  exact ⟨ht, hc, substitute_compile_bind ht hc⟩

end ODataQuery
