import ODataQuery.Proofs.LeafTexts
import ODataQuery.Proofs.Sites
import ODataQuery.Proofs.Substitution

/-! How often a bound parameter is used. Every sign of a placeholder in a bound fragment
starts a placeholder of some parameter, and a parameter occurs once, doubled for every
`substring` without a length whose first operand its literal is part of. -/
namespace ODataQuery

/-- A text that is closed against what follows and has no sign outside of placeholders. -/
structure Tidy (x : List Char) : Prop where
  closed : Sealed x
  noSign : .char '@' ∉ tokens x

theorem tidy_of_no_sign {x : List Char} (hx : '@' ∉ x) : Tidy x := by
  refine ⟨sealed_of_no_sign hx, ?_⟩
  rw [tokens_of_no_sign hx]
  simpa using hx

theorem tidy_placeholder (n : Nat) : Tidy (placeholder n).toList := by
  refine ⟨sealed_placeholder n, ?_⟩
  simp [tokens_placeholder]

theorem Layout.noSign_tokensWith {us : Layout} {operand : Nat → List Token}
    (hus : .char '@' ∉ us) (h : ∀ i, .slot i ∈ us → .char '@' ∉ operand i) :
    .char '@' ∉ us.tokensWith operand := by
  induction us with
  | nil => exact List.not_mem_nil
  | cons u us ih =>
    have hrest := ih (fun hmem => hus (List.mem_cons_of_mem u hmem))
      fun i hi => h i (List.mem_cons_of_mem u hi)
    cases u with
    | char c =>
      intro hmem
      rcases List.mem_cons.mp hmem with hc | hmem
      · cases hc
        exact hus List.mem_cons_self
      · exact hrest hmem
    | slot i =>
      intro hmem
      rcases List.mem_append.mp hmem with hmem | hmem
      · exact h i List.mem_cons_self hmem
      · exact hrest hmem

theorem passedOn_tidy : PassedOn Tidy := by
  intro k s n us operand hus hoperand
  have hfit := fits_layout? hus
  have hsealed : ∀ i, i < n → Sealed (operand i) := fun i hi => (hoperand i hi).closed
  refine ⟨Layout.sealed_spell hfit hsealed, ?_⟩
  rw [Layout.tokens_spell hfit hsealed]
  exact Layout.noSign_tokensWith hfit.noSign
    fun i hi => (hoperand i (hfit.slot_lt i hi)).noSign

theorem tidy_of_render_bind {limit : Option UInt64} {t : FilterTree} (ht : t.SignFree)
    {depth bound : Nat} {x : String}
    (hx : (render ⟨.bind, limit⟩ depth bound t).result = .ok x) : Tidy x.toList := by
  refine text_of_render_ok passedOn_tidy ⟨?_, ?_, ?_⟩ hx
  · intro n hn hkind
    exact tidy_of_no_sign (ht n hn hkind)
  · intro hstyle
    cases hstyle
  · exact fun _ => tidy_placeholder

theorem sealed_operands {limit : Option UInt64} {ts : List FilterTree}
    (hts : ∀ t ∈ ts, t.SignFree) {depth bound : Nat} {xs : List String}
    (hxs : (renderAll ⟨.bind, limit⟩ depth bound ts).result = .ok xs) :
    ∀ i, i < ts.length → Sealed (operandOf (xs.map String.toList) i) :=
  operandOf_of_renderAll_ok (fun t hmem _ _ hx => (tidy_of_render_bind (hts t hmem) hx).closed)
    hxs

/-- A sign behind the start of a placeholder stands behind its end. -/
theorem sign_behind_placeholder {c : Char} {a b rest : List Char} {n : Nat}
    (h : readPlaceholder? (c :: (a ++ '@' :: b)) = some (n, rest)) :
    ∃ a', rest = a' ++ '@' :: b := by
  unfold readPlaceholder? at h
  split at h
  · rename_i after heq
    injection heq with hc hafter
    split at h
    · cases h
    · cases h
      cases a with
      | nil => cases hafter
      | cons d a =>
        cases hafter
        rw [List.append_eq, List.dropWhile_append]
        split
        · exact ⟨[], rfl⟩
        · exact ⟨_, rfl⟩
  · cases h

/-- Where no sign is left between placeholders, every sign starts one. -/
theorem readPlaceholder?_of_noSign {cs a b : List Char} (h : .char '@' ∉ tokens cs)
    (hcs : cs = a ++ '@' :: b) :
    ∃ n rest, readPlaceholder? ('@' :: b) = some (n, rest) ∧ .placeholder n ∈ tokens cs := by
  fun_induction tokens cs generalizing a with
  | case1 => cases a <;> cases hcs
  | case2 c cs n rest hread ih =>
    cases a with
    | nil =>
      cases hcs
      exact ⟨n, rest, hread, List.mem_cons_self⟩
    | cons d a =>
      cases hcs
      -- the placeholder that is read first has no second sign in it
      obtain ⟨a', ha'⟩ := sign_behind_placeholder hread
      obtain ⟨m, rest', hm, hmem⟩ := ih (fun hsign => h (List.mem_cons_of_mem _ hsign)) ha'
      exact ⟨m, rest', hm, List.mem_cons_of_mem _ hmem⟩
  | case3 c cs hread ih =>
    cases a with
    | nil =>
      cases hcs
      exact absurd List.mem_cons_self h
    | cons d a =>
      cases hcs
      obtain ⟨m, rest', hm, hmem⟩ := ih (fun hsign => h (List.mem_cons_of_mem _ hsign)) rfl
      exact ⟨m, rest', hm, List.mem_cons_of_mem _ hmem⟩

/-- The number that the list has for `j`, if its entries are numbered from `bound + 1` on,
and 0 if it has none. -/
def tally (bound : Nat) : List Nat → Nat → Nat
  | [], _ => 0
  | n :: ns, j => (if j = bound + 1 then n else 0) + tally (bound + 1) ns j

theorem tally_append (bound : Nat) (ns ms : List Nat) (j : Nat) :
    tally bound (ns ++ ms) j = tally bound ns j + tally (bound + ns.length) ms j := by
  induction ns generalizing bound with
  | nil => simp [tally]
  | cons n ns ih =>
    have hlen : bound + 1 + ns.length = bound + (n :: ns).length := by
      rw [List.length_cons]
      omega
    rw [List.cons_append, tally, tally, ih, hlen, Nat.add_assoc]

theorem tally_map_double (bound : Nat) (ns : List Nat) (j : Nat) :
    tally bound (ns.map (2 * ·)) j = 2 * tally bound ns j := by
  induction ns generalizing bound with
  | nil => rfl
  | cons n ns ih =>
    rw [List.map_cons, tally, tally, ih]
    split <;> omega

theorem tally_eq_zero {bound : Nat} {ns : List Nat} {j : Nat}
    (h : j ≤ bound ∨ bound + ns.length < j) : tally bound ns j = 0 := by
  induction ns generalizing bound with
  | nil => rfl
  | cons n ns ih =>
    rw [List.length_cons] at h
    rw [tally, if_neg (by omega), ih (by omega)]

theorem tally_of_getElem? {bound : Nat} {ns : List Nat} {i n : Nat} (h : ns[i]? = some n) :
    tally bound ns (bound + i + 1) = n := by
  induction ns generalizing bound i with
  | nil => cases h
  | cons m ns ih =>
    cases i with
    | zero =>
      cases h
      rw [tally, if_pos rfl, tally_eq_zero (by omega)]
      rfl
    | succ i =>
      have hi : bound + (i + 1) + 1 = bound + 1 + i + 1 := by omega
      rw [tally, if_neg (by omega), hi, ih h, Nat.zero_add]

namespace Layout

def slots (us : Layout) : List Nat :=
  us.filterMap fun
    | .char _ => none
    | .slot i => some i

theorem count_tokensWith (us : Layout) (operand : Nat → List Token) (j : Nat) :
    (us.tokensWith operand).count (.placeholder j) =
      (us.slots.map fun i => (operand i).count (.placeholder j)).sum := by
  induction us with
  | nil => rfl
  | cons u us ih =>
    cases u with
    | char c => simp [tokensWith, slots, ih]
    | slot i => simp [tokensWith, slots, ih]

theorem slots_listTail (i n : Nat) : (listTail i n).slots = List.range' i n := by
  induction n generalizing i with
  | zero => rfl
  | succ n ih =>
    rw [List.range'_succ, ← ih (i + 1)]
    rfl

theorem slots_ofList (n : Nat) : (ofList n).slots = List.range n := by
  cases n with
  | zero => rfl
  | succ n =>
    have htail := slots_listTail 1 n
    rw [List.range_eq_range', List.range'_succ, ← htail]
    rfl

end Layout

/-- Only `substring` with two operands writes an operand twice; all others write each of
their operands once, `substringof` in the other order. -/
theorem Operator.slots_table :
    ∀ op ∈ known, ∀ n ∈ [2, 3], ∀ t ∈ op.template? n,
      if op = .substring ∧ n = 2 then t.layout.slots = [0, 1, 0]
      else t.layout.slots.Perm (List.range t.arity) := by
  decide +kernel

open FilterTree

theorem slots_of_repeatsFirst {k : Kind} {s : String} {ts : List FilterTree} {us : Layout}
    (h : layout? k s ts.length = some us) (hrep : (node k s ts).repeatsFirst = true) :
    us.slots = [0, 1, 0] := by
  cases k with
  | operator k =>
    obtain ⟨op, t, hop, ht, -, rfl⟩ := layout?_operator.mp h
    have htable := Operator.of_template?_table Operator.slots_table ht
    have hlen := length_of_repeatsFirst hrep
    have hshort : op = .substring := by simpa [repeatsFirst, hop, hlen] using hrep
    simpa [hlen, hshort] using htable
  | _ => cases hrep

theorem slots_perm_range {k : Kind} {s : String} {ts : List FilterTree} {us : Layout}
    (h : layout? k s ts.length = some us) (hrep : (node k s ts).repeatsFirst = false) :
    us.slots.Perm (List.range ts.length) := by
  cases k with
  | list =>
    cases h
    rw [Layout.slots_ofList]
  | operator k =>
    obtain ⟨op, t, hop, ht, harity, rfl⟩ := layout?_operator.mp h
    have htable := Operator.of_template?_table Operator.slots_table ht
    have hlong : ¬ (op = .substring ∧ (if ts.length = 2 then 2 else 3) = 2) := by
      rintro ⟨hop', hlen⟩
      have hlen' : ts.length = 2 := by
        by_contra hne
        rw [if_neg hne] at hlen
        cases hlen
      simp [repeatsFirst, hop, hop', hlen'] at hrep
    rw [if_neg hlong, harity] at htable
    exact htable
  | _ => cases h

theorem map_operandOf_range (xs : List (List Char)) :
    (List.range xs.length).map (operandOf xs) = xs := by
  apply List.ext_getElem
  · simp
  · intro i hi hi'
    rw [List.getElem_map, List.getElem_range, operandOf_eq_get hi', List.get_eq_getElem]

/-- The number of times that a text refers to a parameter. -/
def uses (number : Nat) (x : List Char) : Nat := (tokens x).count (.placeholder number)

/-- With bound literals a text uses the parameters of its own literals, each as often as it
is copied. -/
def UsesOwn (limit : Option UInt64) (t : FilterTree) : Prop :=
  ∀ depth bound x, (render ⟨.bind, limit⟩ depth bound t).result = .ok x →
    ∀ number, uses number x.toList = tally bound t.copies number

theorem length_params_of_render_bind {limit : Option UInt64} {t : FilterTree}
    {depth bound : Nat} {x : String}
    (hx : (render ⟨.bind, limit⟩ depth bound t).result = .ok x) :
    (render ⟨.bind, limit⟩ depth bound t).params.length = t.copies.length := by
  rw [(render_bind_labelled limit t depth bound 0).params x hx, length_copies]

theorem sum_uses_of_renderAll {limit : Option UInt64} {ts : List FilterTree}
    (h : ∀ t ∈ ts, UsesOwn limit t) {depth bound : Nat} {xs : List String}
    (hxs : (renderAll ⟨.bind, limit⟩ depth bound ts).result = .ok xs) (number : Nat) :
    (xs.map fun x => uses number x.toList).sum = tally bound (ts.flatMap copies) number := by
  induction ts generalizing bound xs with
  | nil =>
    cases hxs
    rfl
  | cons t ts ih =>
    obtain ⟨x, ys, rfl, hx, hys, -⟩ := renderAll_cons_eq_ok hxs
    have hfirst := h t List.mem_cons_self depth bound x hx number
    have hrest := ih (fun u hu => h u (List.mem_cons_of_mem t hu)) hys
    rw [List.map_cons, List.sum_cons, List.flatMap_cons, tally_append, hfirst, hrest,
      length_params_of_render_bind hx]

/-- What the slots of a node use is what its literals are copied for. -/
theorem sum_uses_slots {limit : Option UInt64} {k : Kind} {s : String} {ts : List FilterTree}
    {us : Layout} (hus : layout? k s ts.length = some us) (h : ∀ t ∈ ts, UsesOwn limit t)
    {depth bound : Nat} {xs : List String}
    (hxs : (renderAll ⟨.bind, limit⟩ depth bound ts).result = .ok xs) (number : Nat) :
    (us.slots.map fun i => uses number (operandOf (xs.map String.toList) i)).sum =
      tally bound (node k s ts).copies number := by
  by_cases hrep : (node k s ts).repeatsFirst = true
  · have hslots := slots_of_repeatsFirst hus hrep
    obtain ⟨t, u, rfl⟩ := List.length_eq_two.mp (length_of_repeatsFirst hrep)
    obtain ⟨x, ys, rfl, hx, hys, -⟩ := renderAll_cons_eq_ok hxs
    obtain ⟨y, zs, rfl, hy, hzs, -⟩ := renderAll_cons_eq_ok hys
    cases hzs
    have hfirst := h t (by simp) depth bound x hx number
    have hsecond := h u (by simp) depth _ y hy number
    rw [length_params_of_render_bind hx] at hsecond
    rw [copies_of_repeatsFirst hrep, tally_append, tally_map_double, List.length_map, ← hfirst,
      ← hsecond, hslots]
    -- the slots are the first operand, the second and the first again
    show uses number x.toList + (uses number y.toList + (uses number x.toList + 0)) = _
    omega
  · have hrep := Bool.eq_false_iff.mpr hrep
    have hslots := slots_perm_range hus hrep
    have hlen : ts.length = (xs.map String.toList).length := by
      rw [List.length_map, length_of_renderAll_ok hxs]
    calc (us.slots.map fun i => uses number (operandOf (xs.map String.toList) i)).sum
        = ((List.range ts.length).map
            fun i => uses number (operandOf (xs.map String.toList) i)).sum :=
          (hslots.map _).sum_nat
      _ = (((List.range ts.length).map (operandOf (xs.map String.toList))).map
            (uses number)).sum := by
          rw [List.map_map]
          rfl
      _ = (xs.map fun x => uses number x.toList).sum := by
          rw [hlen, map_operandOf_range, List.map_map]
          rfl
      _ = tally bound (ts.flatMap copies) number := sum_uses_of_renderAll h hxs number
      _ = tally bound (node k s ts).copies number := by
          rw [copies_of_nests (nests_of_layout? hus) hrep]

theorem usesOwn {limit : Option UInt64} {t : FilterTree} (ht : t.SignFree) :
    UsesOwn limit t := by
  induction t with
  | node kind text children ih =>
    intro depth bound x hx number
    cases renderedAs_of_render_ok hx with
    | @literal k _ _ _ hplaced =>
      have hcopies : (node (.literal k) text children).copies = [1] := rfl
      rw [hplaced, uses, placedText, tokens_placeholder, hcopies, tally, tally,
        List.count_singleton]
      by_cases hn : number = bound + 1
      · simp [hn]
      · simp [hn, Ne.symm hn]
    | property =>
      have hsign : '@' ∉ text.toList := ht _ (self_mem_reached _) rfl
      have hcopies : (node .property text children).copies = [] := rfl
      rw [uses, tokens_of_no_sign hsign, hcopies, tally]
      exact List.count_eq_zero.mpr (by simp)
    | branch hus hxs hspell =>
      have hk := nests_of_layout? hus
      have hown : ∀ t ∈ children, UsesOwn limit t := fun t hmem => ih t hmem (ht.child hk hmem)
      have hsealed := sealed_operands (fun t hmem => ht.child hk hmem) hxs
      rw [← sum_uses_slots hus hown hxs, uses, hspell,
        Layout.tokens_spell (fits_layout? hus) hsealed, Layout.count_tokensWith]
      rfl

/-- Every sign in a bound fragment starts the placeholder of a parameter. The placeholder
of a literal occurs once, doubled for every `substring` of two operands that has the literal
in its first one. -/
theorem count_placeholder_compile_bind {limit : Option UInt64} {t : FilterTree} {c : Compiled}
    (ht : t.SignFree) (hc : compile ⟨.bind, limit⟩ t = .ok c) :
    (∀ a b, c.fragment.toList = a ++ '@' :: b →
        ∃ n rest, readPlaceholder? ('@' :: b) = some (n, rest) ∧ 1 ≤ n ∧ n ≤ c.params.length) ∧
      t.literalSites.map (fun site => site.node.param?) = c.params.map some ∧
      ∀ i site, t.literalSites[i]? = some site →
        (tokens c.fragment.toList).count (.placeholder (i + 1)) = 2 ^ site.doublings := by
  obtain ⟨x, hx, rfl⟩ := render_of_compile_ok hc
  have huses := usesOwn ht 1 0 x hx
  have hparams := (render_bind_labelled limit t 1 0 0).params x hx
  refine ⟨?_, ?_, ?_⟩
  · intro a b hab
    obtain ⟨n, rest, hread, hmem⟩ :=
      readPlaceholder?_of_noSign (tidy_of_render_bind ht hx).noSign hab
    -- a number out of range would be used not at all
    have hused : uses n x.toList ≠ 0 := Nat.pos_iff_ne_zero.mp (List.count_pos_iff.mpr hmem)
    have hrange : ¬ (n ≤ 0 ∨ 0 + t.copies.length < n) := fun h =>
      hused ((huses n).trans (tally_eq_zero h))
    have hlen : (render ⟨.bind, limit⟩ 1 0 t).params.length = t.copies.length :=
      length_params_of_render_bind hx
    exact ⟨n, rest, hread, by omega, by simp only [hlen]; omega⟩
  · rw [map_param?_literalSites, ← hparams]
  · intro i site hsite
    have hcopies : t.copies[i]? = some (2 ^ site.doublings) := by
      have hmap : t.copies = t.literalSites.map fun site => 2 ^ site.doublings := rfl
      rw [hmap, List.getElem?_map, hsite]
      rfl
    have hcount := huses (0 + i + 1)
    rw [tally_of_getElem? hcopies, Nat.zero_add] at hcount
    exact hcount

theorem count_placeholder_compile_bind_nested :
    (function "substring" [function "substring" [string "a", number "1"], number "2"]).SignFree ∧
      ∃ c, compile ⟨.bind, none⟩
          (function "substring" [function "substring" [string "a", number "1"], number "2"]) =
          .ok c ∧
        (tokens c.fragment.toList).count (.placeholder 1) = 4 := by
  have ht : (function "substring" [function "substring" [string "a", number "1"],
      number "2"]).SignFree := by
    unfold SignFree
    decide +kernel
  have hc : compile ⟨.bind, none⟩ (function "substring" [function "substring" [string "a",
      number "1"], number "2"]) = .ok _ := rfl
  have hdoublings : (function "substring" [function "substring" [string "a", number "1"],
      number "2"]).literalSites[0]?.map Site.doublings = some 2 := by decide +kernel
  obtain ⟨site, hsite, hd⟩ := Option.map_eq_some_iff.mp hdoublings
  have hcount := (count_placeholder_compile_bind ht hc).2.2 0 site hsite
  rw [hd] at hcount
  exact ⟨ht, _, hc, hcount⟩

end ODataQuery
