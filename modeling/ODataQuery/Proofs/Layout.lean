import ODataQuery.Proofs.Rendering

/-! The texts of operands stand between fixed characters: a list and a template both lay
them out as a sequence of characters and slots. What holds of every layout is read off the
table of templates once and holds of lists of any length. -/
namespace ODataQuery

/-- A fixed character, or the place of the operand of the given index. -/
inductive Mark
  | char (c : Char)
  | slot (index : Nat)
  deriving DecidableEq, Repr

/-- Whether a slot has an index below `n`. -/
def Mark.below (n : Nat) : Mark → Bool
  | char _ => true
  | slot index => index < n

/-- Fixed characters with the places of operands between them. -/
abbrev Layout := List Mark

/-- A letter or digit of the ASCII alphabet or an underscore. -/
def isWord (c : Char) : Bool := c.isAlphanum || c == '_'

/-- No word goes on here: the text is at its end or begins with no word character. -/
def AtBoundary (cs : List Char) : Prop := ∀ c ∈ cs.head?, isWord c = false

namespace Layout

/-- The text of a layout, given the texts of the operands. -/
def spell (operand : Nat → List Char) : Layout → List Char
  | [] => []
  | .char c :: us => c :: spell operand us
  | .slot i :: us => operand i ++ spell operand us

theorem spell_append (operand : Nat → List Char) (us vs : Layout) :
    spell operand (us ++ vs) = spell operand us ++ spell operand vs := by
  induction us with
  | nil => rfl
  | cons u us ih => cases u <;> simp [spell, ih]

theorem spell_chars (operand : Nat → List Char) (cs : List Char) :
    spell operand (cs.map .char) = cs := by
  induction cs with
  | nil => rfl
  | cons c cs ih => rw [List.map_cons, spell, ih]

/-- Whether the layout is at its end or goes on with a character that is no word
character. -/
def atBoundary : Layout → Bool
  | [] => true
  | .char c :: _ => !isWord c
  | .slot _ :: _ => false

/-- Whether every slot is followed by a boundary. -/
def spaced : Layout → Bool
  | [] => true
  | .char _ :: us => spaced us
  | .slot _ :: us => atBoundary us && spaced us

theorem atBoundary_spell {us : Layout} (h : us.atBoundary = true) (operand : Nat → List Char)
    {rest : List Char} (hrest : AtBoundary rest) : AtBoundary (us.spell operand ++ rest) := by
  cases us with
  | nil => exact hrest
  | cons u us =>
    cases u with
    | slot i => cases h
    | char c =>
      intro d hd
      cases hd
      simpa [atBoundary] using h

/-- What every layout of `n` operands satisfies. -/
structure Fits (n : Nat) (us : Layout) : Prop where
  spaced : us.spaced = true
  noSign : .char '@' ∉ us
  slot_lt : ∀ i, .slot i ∈ us → i < n
  slot_mem : ∀ i, i < n → .slot i ∈ us

/-- The characters and slots behind the first of some items; `i` is the index of the next
item and `n` the number of items to come. -/
def listTail : Nat → Nat → Layout
  | _, 0 => [.char ']']
  | i, n + 1 => .char ',' :: .char ' ' :: .slot i :: listTail (i + 1) n

/-- The layout of a list of `n` items. -/
def ofList : Nat → Layout
  | 0 => [.char '[', .char ']']
  | n + 1 => .char '[' :: .slot 0 :: listTail 1 n

end Layout

def Piece.marks : Piece → Layout
  | text s => s.toList.map .char
  | slot index => [.slot index]

/-- The layout that a template describes. -/
def Template.layout (t : Template) : Layout := t.flatMap Piece.marks

/-- The text of the operand of the given index, empty if there is none. -/
def operandOf (xs : List (List Char)) (index : Nat) : List Char := xs.getD index []

theorem operandOf_eq_get {xs : List (List Char)} {index : Nat} (h : index < xs.length) :
    operandOf xs index = xs.get ⟨index, h⟩ := by
  simp [operandOf, h]

theorem operandOf_map_toList (texts : List String) (index : Nat) :
    operandOf (texts.map String.toList) index = (texts.getD index "").toList := by
  simp only [operandOf, List.getD_eq_getElem?_getD, List.getElem?_map]
  cases texts[index]? <;> rfl

theorem Piece.spell_marks (texts : List String) (p : Piece) :
    p.marks.spell (operandOf (texts.map String.toList)) = (p.resolve texts).toList := by
  cases p with
  | text s => exact Layout.spell_chars _ s.toList
  | slot i => simp only [marks, resolve, Layout.spell, List.append_nil, operandOf_map_toList]

/-- A filled template is its layout with the arguments put in. -/
theorem Template.toList_join_resolve (t : Template) (texts : List String) :
    (String.join (t.map (Piece.resolve texts))).toList =
      t.layout.spell (operandOf (texts.map String.toList)) := by
  rw [String.toList_join, List.flatMap_map, layout]
  induction t with
  | nil => rfl
  | cons p t ih => rw [List.flatMap_cons, List.flatMap_cons, Layout.spell_append,
      Piece.spell_marks, ih]

theorem toList_intercalate_cons (separator x : String) (xs : List String) :
    (separator.intercalate (x :: xs)).toList =
      x.toList ++ xs.flatMap fun y => separator.toList ++ y.toList := by
  induction xs generalizing x with
  | nil => simp
  | cons y ys ih =>
    rw [String.intercalate_cons_cons, String.toList_append, String.toList_append, ih y,
      List.flatMap_cons, List.append_assoc, List.append_assoc]

theorem Layout.spell_listTail (xs : List (List Char)) (i n : Nat) (h : i + n = xs.length) :
    (listTail i n).spell (operandOf xs) =
      ((xs.drop i).flatMap fun y => ',' :: ' ' :: y) ++ [']'] := by
  induction n generalizing i with
  | zero =>
    rw [List.drop_eq_nil_of_le (by omega)]
    rfl
  | succ n ih =>
    have hi : i < xs.length := by omega
    -- one step of the layout writes the item at `i`, which is the first of the rest
    rw [List.drop_eq_getElem_cons hi, List.flatMap_cons, listTail]
    simp only [spell, ih (i + 1) (by omega), operandOf_eq_get hi, List.get_eq_getElem,
      List.cons_append, List.append_assoc]

theorem toList_listText (texts : List String) :
    (listText texts).toList =
      (Layout.ofList texts.length).spell (operandOf (texts.map String.toList)) := by
  cases texts with
  | nil => rfl
  | cons x xs =>
    rw [listText, String.toList_append, String.toList_append, toList_intercalate_cons,
      List.length_cons, Layout.ofList, Layout.spell, Layout.spell,
      Layout.spell_listTail _ 1 xs.length (by simp [Nat.add_comm])]
    simp [operandOf, List.flatMap_map]

theorem Layout.fits_listTail (i n : Nat) :
    (listTail i n).atBoundary = true ∧ (listTail i n).spaced = true ∧
      .char '@' ∉ listTail i n ∧ ∀ j, .slot j ∈ listTail i n ↔ i ≤ j ∧ j < i + n := by
  induction n generalizing i with
  | zero => exact ⟨rfl, rfl, by simp [listTail], by simp [listTail]⟩
  | succ n ih =>
    obtain ⟨hb, hs, ha, hm⟩ := ih (i + 1)
    refine ⟨rfl, ?_, by simp [listTail, ha], ?_⟩
    · simp only [listTail, spaced, hb, hs, Bool.and_self]
    · intro j
      simp only [listTail, List.mem_cons, reduceCtorEq, Mark.slot.injEq, hm, false_or]
      omega

theorem Layout.fits_ofList (n : Nat) : (ofList n).Fits n := by
  cases n with
  | zero => exact ⟨rfl, by decide, by simp [ofList], by simp⟩
  | succ n =>
    obtain ⟨hb, hs, ha, hm⟩ := fits_listTail 1 n
    have hslot (i : Nat) : .slot i ∈ ofList (n + 1) ↔ i < n + 1 := by
      simp only [ofList, List.mem_cons, reduceCtorEq, Mark.slot.injEq, hm, false_or]
      omega
    refine ⟨?_, by simp [ofList, ha], fun i => (hslot i).mp, fun i => (hslot i).mpr⟩
    simp only [ofList, spaced, hb, hs, Bool.and_self]

namespace Operator

/-- The number of operands only tells the two templates of `substring` apart. -/
theorem template?_eq (op : Operator) (n : Nat) :
    op.template? n = op.template? (if n = 2 then 2 else 3) := by
  cases op with
  -- any number but two picks the long form, right or wrong
  | substring => by_cases h : n = 2 <;> simp [template?, h]
  | _ => rfl

/-- A table for two and for three operands is one for all numbers. -/
theorem of_template?_table {P : Operator → Nat → Template → Prop}
    (h : ∀ op ∈ known, ∀ n ∈ [2, 3], ∀ t ∈ op.template? n, P op n t) {op : Operator} {n : Nat}
    {t : Template} (ht : op.template? n = some t) : P op (if n = 2 then 2 else 3) t := by
  rw [template?_eq] at ht
  have hn : (if n = 2 then 2 else 3) ∈ [2, 3] := by split <;> decide
  exact h op (mem_known op) _ hn t ht

/-- What the table of templates shows of each layout. -/
theorem template?_table :
    ∀ op ∈ known, ∀ n ∈ [2, 3], ∀ t ∈ op.template? n,
      t.layout.head? = some (.char '{') ∧ t.layout.spaced = true ∧ .char '@' ∉ t.layout ∧
        (∀ m ∈ t.layout, m.below t.arity = true) ∧
        ∀ i ∈ List.range t.arity, .slot i ∈ t.layout := by
  decide +kernel

theorem fits_layout {op : Operator} {n : Nat} {t : Template} (h : op.template? n = some t) :
    t.layout.head? = some (.char '{') ∧ t.layout.Fits t.arity := by
  obtain ⟨hhead, hs, ha, hlt, hmem⟩ := of_template?_table template?_table h
  refine ⟨hhead, hs, ha, ?_, ?_⟩
  · intro i hi
    simpa only [Mark.below, decide_eq_true_eq] using hlt _ hi
  · intro i hi
    exact hmem i (List.mem_range.mpr hi)

end Operator

/-- The layout of a list or operator node with `n` operands, if it has one. -/
def layout? (kind : Kind) (text : String) (n : Nat) : Option Layout :=
  match kind with
  | .list => some (.ofList n)
  | .operator _ =>
    (Operator.ofName? text).bind fun op =>
      (op.template? n).bind fun t => if t.arity = n then some t.layout else none
  | _ => none

theorem layout?_operator {k : OperatorKind} {s : String} {n : Nat} {us : Layout} :
    layout? (.operator k) s n = some us ↔
      ∃ op t, Operator.ofName? s = some op ∧ op.template? n = some t ∧ t.arity = n ∧
        t.layout = us := by
  simp only [layout?, Option.bind_eq_some_iff, Option.ite_none_right_eq_some,
    Option.some.injEq]
  constructor
  · rintro ⟨op, hop, t, ht, hn, hus⟩
    exact ⟨op, t, hop, ht, hn, hus⟩
  · rintro ⟨op, t, hop, ht, hn, hus⟩
    exact ⟨op, hop, t, ht, hn, hus⟩

theorem nests_of_layout? {k : Kind} {s : String} {n : Nat} {us : Layout}
    (h : layout? k s n = some us) : k.nests = true := by
  cases k <;> first | rfl | cases h

theorem fits_layout? {k : Kind} {s : String} {n : Nat} {us : Layout}
    (h : layout? k s n = some us) : us.Fits n := by
  cases k with
  | list =>
    cases h
    exact Layout.fits_ofList n
  | operator k =>
    obtain ⟨op, t, -, ht, rfl, rfl⟩ := layout?_operator.mp h
    exact (Operator.fits_layout ht).2
  | _ => cases h

/-- The bracket with which the text of a list or an operator begins. -/
def Kind.bracket : Kind → Char
  | .list => '['
  | _ => '{'

theorem head?_layout? {k : Kind} {s : String} {n : Nat} {us : Layout}
    (h : layout? k s n = some us) : us.head? = some (.char k.bracket) := by
  cases k with
  | list =>
    cases h
    cases n <;> rfl
  | operator k =>
    obtain ⟨op, t, -, ht, -, rfl⟩ := layout?_operator.mp h
    exact (Operator.fits_layout ht).1
  | _ => cases h

theorem applyTemplate_eq_ok_iff {op : Operator} {t : Template} {texts : List String}
    {x : String} :
    (applyTemplate op t texts).result = .ok x ↔
      t.arity = texts.length ∧
        x.toList = t.layout.spell (operandOf (texts.map String.toList)) := by
  rw [← Template.toList_join_resolve, String.toList_inj]
  by_cases hn : texts.length = t.arity
  · simp [applyTemplate, Template.instantiate?, hn, Rendering.done, eq_comm]
  · simp [applyTemplate, Template.instantiate?, hn, Rendering.reject, Ne.symm hn]

/-- The texts of operands are put together exactly if there is a layout for their number,
and as it says. -/
theorem operands_eq_ok_iff (o : Options) (bound : Nat) {k : Kind} {s : String}
    {texts : List String} {x : String} :
    (∃ f, visit o bound k s texts.length = .operands f ∧ (f texts).result = .ok x) ↔
      ∃ us, layout? k s texts.length = some us ∧
        x.toList = us.spell (operandOf (texts.map String.toList)) := by
  cases k with
  | list =>
    constructor
    · rintro ⟨f, hf, hx⟩
      cases hf
      cases hx
      exact ⟨_, rfl, toList_listText texts⟩
    · rintro ⟨us, hus, hx⟩
      cases hus
      rw [← toList_listText, String.toList_inj] at hx
      exact ⟨_, rfl, hx ▸ rfl⟩
  | operator k =>
    simp only [layout?_operator]
    constructor
    · rintro ⟨f, hf, hx⟩
      simp only [visit] at hf
      split at hf
      · cases hf
      · rename_i op hop
        split at hf <;> cases hf
        rename_i t ht
        obtain ⟨hn, hx⟩ := applyTemplate_eq_ok_iff.mp hx
        exact ⟨_, ⟨op, t, hop, ht, hn, rfl⟩, hx⟩
    · rintro ⟨us, ⟨op, t, hop, ht, hn, rfl⟩, hx⟩
      refine ⟨applyTemplate op t, ?_, applyTemplate_eq_ok_iff.mpr ⟨hn, hx⟩⟩
      simp only [visit, hop, ht]
  | _ => simp [visit, layout?]

/-- The text of a list or an operator is its layout, filled with the texts of its operands,
and these bind what it binds. -/
theorem layout_of_render_ok {o : Options} {depth bound : Nat} {k : Kind} {s x : String}
    {ts : List FilterTree} (hk : k.nests = true)
    (h : (render o depth bound (.node k s ts)).result = .ok x) :
    ∃ us xs, layout? k s ts.length = some us ∧
      (renderAll o (depth + 1) bound ts).result = .ok xs ∧
      x.toList = us.spell (operandOf (xs.map String.toList)) ∧
      (render o depth bound (.node k s ts)).params =
        (renderAll o (depth + 1) bound ts).params := by
  obtain ⟨f, xs, hv, hxs, hf, hparams⟩ := operands_of_render_ok hk h
  have hlen := length_of_renderAll_ok hxs
  -- the step was taken with the number of children, the layout takes that of texts
  rw [← hlen] at hv
  obtain ⟨us, hus, hx⟩ := (operands_eq_ok_iff o bound).mp ⟨f, hv, hf⟩
  exact ⟨us, xs, hlen ▸ hus, hxs, hx, hparams⟩

/-- The text of a literal after `bound` parameters. -/
def placedText (style : LiteralStyle) (bound : Nat) (k : LiteralKind) (s : String) : String :=
  match style with
  | .inline => literalText k s
  | .bind => placeholder (bound + 1)

theorem result_renderLiteral (o : Options) (bound : Nat) (k : LiteralKind) (s : String) :
    (renderLiteral o bound k s).result = .ok (placedText o.literals bound k s) := by
  rw [(renderLiteral_eq o bound k s).1, placeLiteral]
  cases o.literals <;> rfl

/-- How a tree that is rendered comes to its text. -/
inductive RenderedAs (o : Options) (depth bound : Nat) : FilterTree → String → Prop
  | literal {k : LiteralKind} {s x : String} {ts : List FilterTree}
      (text : x = placedText o.literals bound k s) :
      RenderedAs o depth bound (.node (.literal k) s ts) x
  | property {s : String} {ts : List FilterTree} :
      RenderedAs o depth bound (.node .property s ts) s
  | branch {k : Kind} {s x : String} {ts : List FilterTree} {us : Layout} {xs : List String}
      (layout : layout? k s ts.length = some us)
      (operands : (renderAll o (depth + 1) bound ts).result = .ok xs)
      (text : x.toList = us.spell (operandOf (xs.map String.toList))) :
      RenderedAs o depth bound (.node k s ts) x

theorem renderedAs_of_render_ok {o : Options} {depth bound : Nat} {t : FilterTree} {x : String}
    (h : (render o depth bound t).result = .ok x) : RenderedAs o depth bound t x := by
  obtain ⟨kind, text, children⟩ := t
  by_cases hk : kind.nests = true
  · obtain ⟨us, xs, hus, hxs, hx, -⟩ := layout_of_render_ok hk h
    exact .branch hus hxs hx
  · cases he : o.exceeded? depth with
    | some limit =>
      rw [render_of_exceeded he] at h
      cases h
    | none =>
      rw [render_eq_visit he] at h
      cases kind with
      | literal k =>
        exact .literal (Except.ok.inj (h.symm.trans (result_renderLiteral o bound k text)))
      | property =>
        cases h
        exact .property
      | unsupported k => cases h
      | list => exact absurd rfl hk
      | operator k => exact absurd rfl hk

end ODataQuery
