import ODataQuery.Proofs.Parting
import ODataQuery.Proofs.Rules

/-! A bound fragment and its parameters determine the filter they were compiled from, up
to what a filter does not say: the spelling of operators, the quotes of strings, the token
of a list and the children that are not looked at. Names of properties are words here, and
`substring` with two operands is left out, since it is written like one with three. -/
namespace ODataQuery
namespace FilterTree

/-- The same filter, node by node along lists and operators. -/
inductive SameFilter : FilterTree → FilterTree → Prop
  | literal {k : LiteralKind} {s s' : String} {ts ts' : List FilterTree}
      (text : literalText k s = literalText k s') :
      SameFilter (node (.literal k) s ts) (node (.literal k) s' ts')
  | property {s : String} {ts ts' : List FilterTree} :
      SameFilter (node .property s ts) (node .property s ts')
  | list {s s' : String} {ts ts' : List FilterTree} (items : List.Forall₂ SameFilter ts ts') :
      SameFilter (node .list s ts) (node .list s' ts')
  | operator {k k' : OperatorKind} {s s' : String} {op : Operator} {ts ts' : List FilterTree}
      (name : Operator.ofName? s = some op) (name' : Operator.ofName? s' = some op)
      (operands : List.Forall₂ SameFilter ts ts') :
      SameFilter (node (.operator k) s ts) (node (.operator k') s' ts')

/-- Every property that is reached has a word for its name, and no `substring` that is
reached has two operands. -/
structure Readable (t : FilterTree) : Prop where
  names : ∀ n ∈ t.reached, n.kind = .property →
    n.text.toList ≠ [] ∧ n.text.toList.all isWord = true
  lengths : ∀ n ∈ t.reached, n.kind.isOperator = true →
    Operator.ofName? n.text = some .substring → n.children.length ≠ 2

theorem Readable.child {k : Kind} {s : String} {ts : List FilterTree}
    (h : (node k s ts).Readable) (hk : k.nests = true) {t : FilterTree} (ht : t ∈ ts) :
    t.Readable :=
  ⟨fun n hn => h.names n (mem_reached_of_child hk ht hn),
    fun n hn => h.lengths n (mem_reached_of_child hk ht hn)⟩

end FilterTree

open FilterTree

/-- Two lists, or two operators with names of the same operator. -/
def SameToken (k k' : Kind) (s s' : String) : Prop :=
  (k = .list ∧ k' = .list) ∨
    ∃ q q' op, k = .operator q ∧ k' = .operator q' ∧ Operator.ofName? s = some op ∧
      Operator.ofName? s' = some op

/-- Different lists and operators have layouts that part. -/
theorem layout?_parts_or_eq {k k' : Kind} {s s' : String} {n n' : Nat} {us vs : Layout}
    (hus : layout? k s n = some us) (hvs : layout? k' s' n' = some vs)
    (hn : k.isOperator = true → Operator.ofName? s = some .substring → n ≠ 2)
    (hn' : k'.isOperator = true → Operator.ofName? s' = some .substring → n' ≠ 2) :
    us.parts vs = true ∨ (us = vs ∧ n = n' ∧ SameToken k k' s s') := by
  by_cases hb : k.bracket = k'.bracket
  · cases k with
    | list =>
      cases k' with
      | list =>
        cases hus
        cases hvs
        by_cases h : n = n'
        · exact .inr ⟨by rw [h], h, .inl ⟨rfl, rfl⟩⟩
        · exact .inl (Layout.parts_ofList h)
      | operator q' => exact absurd hb (by simp [Kind.bracket])
      | _ => cases hvs
    | operator q =>
      cases k' with
      | list => exact absurd hb (by simp [Kind.bracket])
      | operator q' =>
        obtain ⟨op, t, hop, ht, rfl, rfl⟩ := layout?_operator.mp hus
        obtain ⟨op', t', hop', ht', rfl, rfl⟩ := layout?_operator.mp hvs
        -- with the short form of `substring` left out, an operator has one template
        rw [Operator.template?_eq_three fun h => hn rfl (h ▸ hop)] at ht
        rw [Operator.template?_eq_three fun h => hn' rfl (h ▸ hop')] at ht'
        by_cases h : op = op'
        · subst h
          rw [ht] at ht'
          cases ht'
          exact .inr ⟨rfl, rfl, .inr ⟨q, q', op, rfl, rfl, hop, hop'⟩⟩
        · exact .inl (Operator.parts_table op (Operator.mem_known op) t ht op'
            (Operator.mem_known op') t' ht' h)
      | _ => cases hvs
    | _ => cases hus
  · exact .inl (Layout.parts_of_head_ne (head?_layout? hus) (head?_layout? hvs) hb)

/-- Whether the text of a node of this kind can begin with the character. -/
def Kind.leads : Kind → Char → Bool
  | .literal _, c => c == '@'
  | .property, c => isWord c
  | .list, c => c == '['
  | .operator _, c => c == '{'
  | .unsupported _, _ => false

theorem Kind.leads_bracket {k : Kind} (hk : k.nests = true) : k.leads k.bracket = true := by
  cases k <;> first | rfl | cases hk

theorem opens_of_leads {k : Kind} {c : Char} (h : k.leads c = true) : opens c = true := by
  cases k <;> simp_all [Kind.leads, opens]

theorem ne_of_isWord {c : Char} (h : isWord c = true) : c ≠ '@' ∧ c ≠ '[' ∧ c ≠ '{' := by
  refine ⟨?_, ?_, ?_⟩ <;> rintro rfl <;> cases h

/-- The first character tells literals, properties and the other nodes apart. -/
theorem sort_of_leads {k k' : Kind} {c : Char} (h : k.leads c = true) (h' : k'.leads c = true) :
    k.nests = k'.nests ∧ k.isLiteral = k'.isLiteral := by
  have hword := ne_of_isWord (c := c)
  cases k <;> cases k' <;> grind [Kind.leads, Kind.nests, Kind.isLiteral]

theorem leads_of_writes {limit : Option UInt64} {params : List Param} {depth : Nat}
    {t : FilterTree} {x : List Char} (ht : t.Readable)
    (hx : Writes ⟨.bind, limit⟩ params depth t x) :
    ∃ c cs, x = c :: cs ∧ t.kind.leads c = true := by
  cases hx with
  | literal within hlit =>
    obtain ⟨i, -, rfl⟩ := hlit
    exact ⟨_, _, toList_placeholder (i + 1), rfl⟩
  | @property _ s ts within =>
    obtain ⟨hne, hword⟩ := ht.names _ (self_mem_reached _) rfl
    obtain ⟨c, cs, hc⟩ := List.exists_cons_of_ne_nil hne
    exact ⟨c, cs, hc, List.all_eq_true.mp hword c (hc ▸ List.mem_cons_self)⟩
  | @branch _ k s ts us xs x within hus operands hx =>
    have hhead := head?_layout? hus
    have hlead := Kind.leads_bracket (nests_of_layout? hus)
    cases us with
    | nil => cases hhead
    | cons u us =>
      cases hhead
      exact ⟨_, _, hx, hlead⟩

theorem writes_operandOf {o : Options} {params : List Param} {depth : Nat}
    {ts : List FilterTree} {xs : List (List Char)} (h : WritesAll o params depth ts xs)
    (i : Nat) (hi : i < ts.length) :
    Writes o params depth (ts.get ⟨i, hi⟩) (operandOf xs i) := by
  have hall := writesAll_iff_forall₂.mp h
  have hxs : i < xs.length := hall.length_eq ▸ hi
  rw [operandOf_eq_get hxs]
  exact hall.get hi hxs

/-- A readable tree is told apart from any other, wherever both stand. -/
def ToldApart (params : List Param) (limit limit' : Option UInt64) (t : FilterTree) : Prop :=
  ∀ t' depth depth' x x', t.Readable → t'.Readable →
    Writes ⟨.bind, limit⟩ params depth t x → Writes ⟨.bind, limit'⟩ params depth' t' x' →
      Cancels (SameFilter t t') x x'

theorem sameFilter_of_sameToken {k k' : Kind} {s s' : String} {ts ts' : List FilterTree}
    (h : SameToken k k' s s') (hts : List.Forall₂ SameFilter ts ts') :
    SameFilter (.node k s ts) (.node k' s' ts') := by
  rcases h with ⟨rfl, rfl⟩ | ⟨q, q', op, rfl, rfl, hop, hop'⟩
  · exact .list hts
  · exact .operator hop hop' hts

theorem cancels_branches {params : List Param} {limit limit' : Option UInt64}
    {depth depth' : Nat} {k k' : Kind} {s s' : String} {ts ts' : List FilterTree}
    {us vs : Layout} {xs ys : List (List Char)}
    (ih : ∀ t ∈ ts, ToldApart params limit limit' t) (ht : (node k s ts).Readable)
    (ht' : (node k' s' ts').Readable) (hus : layout? k s ts.length = some us)
    (hvs : layout? k' s' ts'.length = some vs)
    (hxs : WritesAll ⟨.bind, limit⟩ params (depth + 1) ts xs)
    (hys : WritesAll ⟨.bind, limit'⟩ params (depth' + 1) ts' ys) :
    Cancels (SameFilter (node k s ts) (node k' s' ts')) (us.spell (operandOf xs))
      (vs.spell (operandOf ys)) := by
  have hk := nests_of_layout? hus
  have hk' := nests_of_layout? hvs
  have hfit := fits_layout? hus
  have hfit' := fits_layout? hvs
  have hread : ∀ i (hi : i < ts.length), (ts.get ⟨i, hi⟩).Readable :=
    fun i hi => ht.child hk (List.get_mem ts ⟨i, hi⟩)
  have hread' : ∀ j (hj : j < ts'.length), (ts'.get ⟨j, hj⟩).Readable :=
    fun j hj => ht'.child hk' (List.get_mem ts' ⟨j, hj⟩)
  have happart : ∀ i j (hi : i < ts.length) (hj : j < ts'.length),
      Cancels (SameFilter (ts.get ⟨i, hi⟩) (ts'.get ⟨j, hj⟩)) (operandOf xs i)
        (operandOf ys j) := fun i j hi hj =>
    ih _ (List.get_mem ts ⟨i, hi⟩) _ _ _ _ _ (hread i hi) (hread' j hj)
      (writes_operandOf hxs i hi) (writes_operandOf hys j hj)
  rcases layout?_parts_or_eq hus hvs (ht.lengths _ (self_mem_reached _))
    (ht'.lengths _ (self_mem_reached _)) with hparts | ⟨rfl, hlen, htoken⟩
  · -- different tokens: no text is written by both layouts
    refine (Layout.cancels_of_parts (S := fun _ _ => True) hparts hfit.spaced hfit'.spaced
      ?_ ?_ ?_).mono False.elim
    · intro i hi
      obtain ⟨c, cs, hc, hlead⟩ := leads_of_writes (hread i (hfit.slot_lt i hi))
        (writes_operandOf hxs i (hfit.slot_lt i hi))
      exact ⟨c, cs, hc, opens_of_leads hlead⟩
    · intro j hj
      obtain ⟨c, cs, hc, hlead⟩ := leads_of_writes (hread' j (hfit'.slot_lt j hj))
        (writes_operandOf hys j (hfit'.slot_lt j hj))
      exact ⟨c, cs, hc, opens_of_leads hlead⟩
    · intro i j hi hj
      exact (happart i j (hfit.slot_lt i hi) (hfit'.slot_lt j hj)).mono fun _ => trivial
  · -- the same token: the layout is one, and every operand has a slot in it
    refine (Layout.cancels_spell (S := fun i => ∀ (hi : i < ts.length) (hj : i < ts'.length),
      SameFilter (ts.get ⟨i, hi⟩) (ts'.get ⟨i, hj⟩)) hfit.spaced ?_).mono ?_
    · intro i hi
      have hlt := hfit.slot_lt i hi
      exact (happart i i hlt (hlen ▸ hlt)).mono fun h _ _ => h
    · intro h
      apply sameFilter_of_sameToken htoken
      apply List.forall₂_iff_get.mpr
      exact ⟨hlen, fun i hi hj => h i (hfit.slot_mem i hi) hi hj⟩

theorem toldApart (params : List Param) (limit limit' : Option UInt64) (t : FilterTree) :
    ToldApart params limit limit' t := by
  induction t with
  | node kind text children ih =>
    intro t' depth depth' x x' ht ht' hx hx'
    obtain ⟨c, cs, hc, hlead⟩ := leads_of_writes ht hx
    obtain ⟨c', cs', hc', hlead'⟩ := leads_of_writes ht' hx'
    by_cases hne : c = c'
    · -- only nodes of one sort are left, so the mixed cases below are absurd
      subst hne
      obtain ⟨hnests, hliteral⟩ := sort_of_leads hlead hlead'
      cases hx with
      | literal within hlit =>
        cases hx' with
        | literal within' hlit' =>
          obtain ⟨i, hp, rfl⟩ := hlit
          obtain ⟨j, hp', rfl⟩ := hlit'
          -- one number is one parameter, which holds the kind and the text of both
          refine (cancels_placeholders (i + 1) (j + 1)).mono fun hij => ?_
          cases hij
          rw [hp] at hp'
          injection hp' with hp'
          injection hp' with hkind hvalue
          cases hkind
          exact .literal hvalue
        | property within' => cases hliteral
        | branch within' hvs operands' hx' => cases hnests.trans (nests_of_layout? hvs)
      | property within =>
        cases hx' with
        | literal within' hlit' => cases hliteral
        | property within' =>
          have hwords := List.all_eq_true.mp (ht.names _ (self_mem_reached _) rfl).2
          have hwords' := List.all_eq_true.mp (ht'.names _ (self_mem_reached _) rfl).2
          refine (cancels_words hwords hwords').mono fun htext => ?_
          cases String.toList_inj.mp htext
          exact .property
        | branch within' hvs operands' hx' => cases hnests.trans (nests_of_layout? hvs)
      | branch within hus operands hx =>
        cases hx' with
        | literal within' hlit' => cases (nests_of_layout? hus).symm.trans hnests
        | property within' => cases (nests_of_layout? hus).symm.trans hnests
        | branch within' hvs operands' hx' =>
          rw [hx, hx']
          exact cancels_branches ih ht ht' hus hvs operands operands'
    · rw [hc, hc']
      exact .of_head_ne hne cs cs'

/-- Readable filters that are compiled to the same bound fragment with the same parameters
are the same filter. -/
theorem sameFilter_of_compile_bind_eq {limit limit' : Option UInt64} {t t' : FilterTree}
    {c : Compiled} (ht : t.Readable) (ht' : t'.Readable)
    (hc : compile ⟨.bind, limit⟩ t = .ok c) (hc' : compile ⟨.bind, limit'⟩ t' = .ok c) :
    SameFilter t t' := by
  obtain ⟨x, hx, rfl⟩ := render_of_compile_ok hc
  obtain ⟨x', hx', heq⟩ := render_of_compile_ok hc'
  injection heq with hfragment hparams
  have hwrites := writes_of_render _ _ t 1 0 x hx (List.prefix_refl _)
  have hwrites' := writes_of_render _ (render ⟨.bind, limit⟩ 1 0 t).params t' 1 0 x' hx'
    (hparams ▸ List.prefix_refl _)
  have hsame : x.toList ++ [] = x'.toList ++ [] := by rw [hfragment]
  exact (toldApart _ limit limit' t t' 1 1 _ _ ht ht' hwrites hwrites' [] [] atBoundary_nil
    atBoundary_nil hsame).1

theorem sameFilter_of_compile_bind_eq_quotes :
    (comparison "EQ" (property "Name") (string "Milk")).Readable ∧
      (function " eq" [property "Name", leaf (.literal .string) "\"Milk\""]).Readable ∧
      compile ⟨.bind, none⟩ (comparison "EQ" (property "Name") (string "Milk")) =
        .ok ⟨"\x7b Name: \x7b $eq: @p1 \x7d \x7d", [⟨.literal .string, "Milk"⟩]⟩ ∧
      compile ⟨.bind, none⟩
          (function " eq" [property "Name", leaf (.literal .string) "\"Milk\""]) =
        .ok ⟨"\x7b Name: \x7b $eq: @p1 \x7d \x7d", [⟨.literal .string, "Milk"⟩]⟩ ∧
      SameFilter (comparison "EQ" (property "Name") (string "Milk"))
        (function " eq" [property "Name", leaf (.literal .string) "\"Milk\""]) := by
  have ht : (comparison "EQ" (property "Name") (string "Milk")).Readable :=
    ⟨by decide +kernel, by decide +kernel⟩
  have ht' : (function " eq" [property "Name", leaf (.literal .string) "\"Milk\""]).Readable :=
    ⟨by decide +kernel, by decide +kernel⟩
  have hc : compile ⟨.bind, none⟩ (comparison "EQ" (property "Name") (string "Milk")) =
      .ok ⟨"\x7b Name: \x7b $eq: @p1 \x7d \x7d", [⟨.literal .string, "Milk"⟩]⟩ := rfl
  have hc' : compile ⟨.bind, none⟩
      (function " eq" [property "Name", leaf (.literal .string) "\"Milk\""]) =
      .ok ⟨"\x7b Name: \x7b $eq: @p1 \x7d \x7d", [⟨.literal .string, "Milk"⟩]⟩ := rfl
  exact ⟨ht, ht', hc, hc', sameFilter_of_compile_bind_eq ht ht' hc hc'⟩

end ODataQuery
