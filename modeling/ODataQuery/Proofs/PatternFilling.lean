import ODataQuery.Proofs.PatternSlots
import Mathlib.Data.List.Forall2

/-! Filling the slots of a pattern. A pattern takes as many arguments as its highest index asks
for, so every slot finds its argument. If the arguments are the slots themselves, the result is
the pattern again without the zeros in front of its indices: it has the same pieces, since no
slot comes about or goes away where a text and an argument meet. The templates of the operators
are filled as their patterns are. -/
namespace ODataQuery

/-- The text that a piece shows. A slot shows the argument of its index, which has to be there. -/
inductive Piece.Shows (arguments : List String) : Piece → String → Prop
  | text (s : String) : Shows arguments (.text s) s
  | slot {index : Nat} {s : String} (h : arguments[index]? = some s) :
      Shows arguments (.slot index) s

namespace Template

/-- The slots below a number, as arguments. -/
def ownSlots (n : Nat) : List String :=
  (List.range n).map fun index => (Piece.slot index).pattern

/-- The texts are the same but for zeros in front of an index, which the second one leaves out. -/
inductive SameUpToZeros : List Char → List Char → Prop
  | nil : SameUpToZeros [] []
  | char (c : Char) {l r : List Char} (h : SameUpToZeros l r) : SameUpToZeros (c :: l) (c :: r)
  | slot (zeros : Nat) {index : Nat} (hword : index < UInt64.size) {l r : List Char}
      (h : SameUpToZeros l r) :
      SameUpToZeros ('{' :: (List.replicate zeros '0' ++ (Nat.toDigits 10 index ++ '}' :: l)))
        ('{' :: (Nat.toDigits 10 index ++ '}' :: r))

/-! ## Arguments -/

theorem lt_arity_of_mem {t : Template} {index : Nat} (h : .slot index ∈ t) : index < t.arity := by
  induction t with
  | nil => cases h
  | cons p t ih =>
    rcases List.mem_cons.mp h with rfl | h
    · rw [arity]
      omega
    · have hrest := ih h
      cases p with
      | text s => exact hrest
      | slot i =>
        rw [arity]
        omega

theorem arity_lt {t : Template} {bound : Nat} (hpos : 0 < bound)
    (h : ∀ index, .slot index ∈ t → index + 1 < bound) : t.arity < bound := by
  induction t with
  | nil => exact hpos
  | cons p t ih =>
    have hrest := ih fun index hindex => h index (List.mem_cons_of_mem p hindex)
    cases p with
    | text s => exact hrest
    | slot i =>
      have hfirst := h i List.mem_cons_self
      rw [arity]
      omega

/-- With enough arguments every piece shows what it is resolved to. -/
theorem shows_resolve {t : Template} {arguments : List String}
    (h : arguments.length = t.arity) :
    List.Forall₂ (Piece.Shows arguments) t (t.map (Piece.resolve arguments)) := by
  apply List.forall₂_map_right_iff.mpr
  apply List.forall₂_same.mpr
  intro p hp
  cases p with
  | text s => exact .text s
  | slot index =>
    have hindex : index < arguments.length := h ▸ lt_arity_of_mem hp
    apply Piece.Shows.slot
    rw [Piece.resolve, List.getD_eq_getElem?_getD, List.getElem?_eq_getElem hindex]
    rfl

theorem instantiate?_eq_some_iff {t : Template} {arguments : List String} {filled : String} :
    t.instantiate? arguments = some filled ↔
      arguments.length = t.arity ∧ String.join (t.map (Piece.resolve arguments)) = filled := by
  simp [instantiate?]

theorem length_ownSlots (n : Nat) : (ownSlots n).length = n := by
  simp [ownSlots]

/-- Filled with its own slots, a template gives its pattern. -/
theorem instantiate?_ownSlots (t : Template) :
    t.instantiate? (ownSlots t.arity) = some t.pattern := by
  have hresolve : t.map (Piece.resolve (ownSlots t.arity)) = t.map Piece.pattern := by
    apply List.map_congr_left
    intro p hp
    cases p with
    | text s => rfl
    | slot index =>
      have hindex := lt_arity_of_mem hp
      simp [Piece.resolve, ownSlots, hindex]
  apply instantiate?_eq_some_iff.mpr
  refine ⟨length_ownSlots _, ?_⟩
  rw [hresolve]
  rfl

/-! ## The pattern of the pieces -/

theorem toList_pattern_slot (index : Nat) :
    (Piece.slot index).pattern.toList = '{' :: (Nat.toDigits 10 index ++ ['}']) := by
  simp [Piece.pattern]

theorem SlotText.lt_size {index : Nat} {chars : List Char} (h : SlotText index chars) :
    index < UInt64.size := by
  cases h with
  | digits hne hdigits hword => exact hword

/-- An index is written without zeros in front. -/
theorem slotText_pattern {index : Nat} (h : index < UInt64.size) :
    SlotText index (Piece.slot index).pattern.toList := by
  have hdigits : ∀ c ∈ Nat.toDigits 10 index, c.isDigit = true := fun c hc =>
    Nat.isDigit_of_mem_toDigits (by decide) (by decide) hc
  have hvalue : Nat.ofDigitChars 10 (Nat.toDigits 10 index) 0 = index :=
    Nat.ofDigitChars_ten_toDigits
  have hslot := SlotText.digits Nat.toDigits_ne_nil hdigits (hvalue.symm ▸ h)
  rwa [hvalue, ← toList_pattern_slot] at hslot

/-- A stretch as the pattern of its piece writes it. -/
def Stretch.rewritten (x : Stretch) : Stretch := ⟨x.piece, x.piece.pattern.toList⟩

/-- A division stays one if its slots are written anew. -/
theorem Divided.rewritten {stretches : List Stretch} (h : Divided stretches) :
    Divided (stretches.map Stretch.rewritten) := by
  induction h with
  | nil => exact .nil
  | slot hslot hrest ih => exact .slot (slotText_pattern hslot.lt_size) ih
  | text hne hfree hnext hrest ih =>
    refine .text hne hfree ?_ ih
    intro x hx
    rw [List.head?_map, Option.mem_def, Option.map_eq_some_iff] at hx
    obtain ⟨y, hy, rfl⟩ := hx
    exact hnext y hy

theorem joined_rewritten (stretches : List Stretch) :
    joined (stretches.map Stretch.rewritten) =
      (pattern (stretches.map Stretch.piece)).toList := by
  rw [pattern, String.toList_join, joined]
  simp [List.flatMap_map, Stretch.rewritten]

/-- The pattern of the pieces of a pattern has the same pieces. -/
theorem ofPattern_pattern (s : String) : ofPattern (ofPattern s).pattern = ofPattern s := by
  obtain ⟨stretches, hdivided, -, hpieces⟩ := exists_divided_ofPattern s
  calc ofPattern (ofPattern s).pattern
      = split [] (joined (stretches.map Stretch.rewritten)) := by
        rw [joined_rewritten, hpieces, ofPattern]
    _ = (stretches.map Stretch.rewritten).map Stretch.piece :=
        split_joined hdivided.rewritten (.inl rfl)
    _ = stretches.map Stretch.piece := by
        rw [List.map_map]
        rfl
    _ = ofPattern s := hpieces

/-! ## Zeros -/

/-- The value of a digit is below ten and is written as this digit. -/
theorem toDigits_digit {c : Char} (h : c.isDigit = true) :
    c.toNat - '0'.toNat < 10 ∧ Nat.toDigits 10 (c.toNat - '0'.toNat) = [c] := by
  have key : ∀ n < 10, Nat.toDigits 10 n = [Char.ofNat ('0'.toNat + n)] := by decide
  obtain ⟨hlow, hhigh⟩ := Char.isDigit_iff_toNat.mp h
  have hten : c.toNat - '0'.toNat < 10 := by
    change c.toNat ≤ 57 at hhigh
    change c.toNat - 48 < 10
    omega
  refine ⟨hten, ?_⟩
  rw [key _ hten, Nat.add_sub_cancel' hlow, Char.ofNat_toNat]

/-- Digits behind a number that is not zero are written as they are read. -/
theorem toDigits_ofDigitChars {ds : List Char} (hdigits : ∀ c ∈ ds, c.isDigit = true) {n : Nat}
    (hn : 0 < n) : Nat.toDigits 10 (Nat.ofDigitChars 10 ds n) = Nat.toDigits 10 n ++ ds := by
  induction ds generalizing n with
  | nil => simp
  | cons c ds ih =>
    obtain ⟨hten, hc⟩ := toDigits_digit (hdigits c List.mem_cons_self)
    have hrest : ∀ d ∈ ds, d.isDigit = true := fun d hd => hdigits d (List.mem_cons_of_mem c hd)
    calc Nat.toDigits 10 (Nat.ofDigitChars 10 (c :: ds) n)
        = Nat.toDigits 10 (10 * n + (c.toNat - '0'.toNat)) ++ ds := by
          rw [Nat.ofDigitChars_cons]
          apply ih hrest
          omega
      _ = Nat.toDigits 10 n ++ [c] ++ ds := by
          rw [← Nat.toDigits_append_toDigits (by decide) hn hten, hc]
      _ = Nat.toDigits 10 n ++ c :: ds := List.append_cons _ _ _ |>.symm

/-- Digits are zeros and then the digits of their value. -/
theorem exists_zeros {ds : List Char} (hne : ds ≠ []) (hdigits : ∀ c ∈ ds, c.isDigit = true) :
    ∃ zeros, ds = List.replicate zeros '0' ++ Nat.toDigits 10 (Nat.ofDigitChars 10 ds 0) := by
  induction ds with
  | nil => exact absurd rfl hne
  | cons c ds ih =>
    obtain ⟨-, hc⟩ := toDigits_digit (hdigits c List.mem_cons_self)
    have hrest : ∀ d ∈ ds, d.isDigit = true := fun d hd => hdigits d (List.mem_cons_of_mem c hd)
    rw [Nat.ofDigitChars_cons, Nat.mul_zero, Nat.zero_add]
    by_cases hzero : c.toNat - '0'.toNat = 0
    · rw [hzero] at hc ⊢
      obtain rfl : '0' = c := List.head_eq_of_cons_eq hc
      by_cases hempty : ds = []
      · -- the last of the zeros is the number itself
        subst hempty
        exact ⟨0, rfl⟩
      · obtain ⟨zeros, hzeros⟩ := ih hempty hrest
        refine ⟨zeros + 1, ?_⟩
        rw [List.replicate_succ, List.cons_append, ← hzeros]
    · refine ⟨0, ?_⟩
      rw [toDigits_ofDigitChars hrest (Nat.pos_of_ne_zero hzero), hc]
      rfl

theorem SlotText.exists_zeros {index : Nat} {chars : List Char} (h : SlotText index chars) :
    ∃ zeros, chars = '{' :: (List.replicate zeros '0' ++ (Nat.toDigits 10 index ++ ['}'])) := by
  cases h with
  | @digits ds hne hdigits hword =>
    obtain ⟨zeros, hzeros⟩ := Template.exists_zeros hne hdigits
    refine ⟨zeros, ?_⟩
    rw [← List.append_assoc, ← hzeros]

theorem SameUpToZeros.append (cs : List Char) {l r : List Char} (h : SameUpToZeros l r) :
    SameUpToZeros (cs ++ l) (cs ++ r) := by
  induction cs with
  | nil => exact h
  | cons c cs ih => exact .char c ih

theorem sameUpToZeros_rewritten {stretches : List Stretch} (h : Divided stretches) :
    SameUpToZeros (joined stretches) (joined (stretches.map Stretch.rewritten)) := by
  induction h with
  | nil => exact .nil
  | @slot index chars rest hslot hrest ih =>
    obtain ⟨zeros, rfl⟩ := hslot.exists_zeros
    rw [List.map_cons, joined_cons, joined_cons, Stretch.rewritten, toList_pattern_slot]
    simpa using SameUpToZeros.slot zeros hslot.lt_size ih
  | @text s rest hne hfree hnext hrest ih => exact ih.append s.toList

theorem sameUpToZeros_pattern (s : String) :
    SameUpToZeros s.toList (ofPattern s).pattern.toList := by
  obtain ⟨stretches, hdivided, hjoined, hpieces⟩ := exists_divided_ofPattern s
  have hsame := sameUpToZeros_rewritten hdivided
  rwa [joined_rewritten, hjoined, hpieces] at hsame

theorem lt_size_of_mem_ofPattern {s : String} {index : Nat} (h : .slot index ∈ ofPattern s) :
    index < UInt64.size := by
  obtain ⟨stretches, hdivided, -, hpieces⟩ := exists_divided_ofPattern s
  rw [← hpieces, List.mem_map] at h
  obtain ⟨⟨piece, chars⟩, hmem, rfl⟩ := h
  have hslot : SlotText index chars := hdivided.sound _ hmem
  exact hslot.lt_size

/-! ## The patterns of operators -/

theorem slot_mem_layout {t : Template} {index : Nat} :
    .slot index ∈ t.layout ↔ .slot index ∈ t := by
  have hmarks (p : Piece) : .slot index ∈ p.marks ↔ .slot index = p := by
    cases p <;> simp [Piece.marks]
  simp only [layout, List.mem_flatMap, hmarks, exists_eq_right']

theorem arity_le_of_layout {t t' : Template} (h : t.layout = t'.layout) : t.arity ≤ t'.arity := by
  apply Nat.le_of_lt_succ
  apply arity_lt (Nat.succ_pos _)
  intro index hindex
  have hmem : .slot index ∈ t' := slot_mem_layout.mp (h ▸ slot_mem_layout.mpr hindex)
  exact Nat.succ_lt_succ (lt_arity_of_mem hmem)

theorem arity_of_layout {t t' : Template} (h : t.layout = t'.layout) : t.arity = t'.arity :=
  Nat.le_antisymm (arity_le_of_layout h) (arity_le_of_layout h.symm)

/-- Templates with the same layout are filled alike; where one text ends and the next begins does
not matter. -/
theorem instantiate?_of_layout {t t' : Template} (h : t.layout = t'.layout)
    (arguments : List String) : t.instantiate? arguments = t'.instantiate? arguments := by
  have hjoin : String.join (t.map (Piece.resolve arguments)) =
      String.join (t'.map (Piece.resolve arguments)) := by
    apply String.toList_inj.mp
    rw [toList_join_resolve, toList_join_resolve, h]
  rw [instantiate?, instantiate?, arity_of_layout h, hjoin]

end Template

open Template

namespace Operator

/-- No brace of an operator's template opens a slot by accident. -/
theorem ofPattern_table :
    ∀ op ∈ known, ∀ n ∈ [2, 3], ∀ t ∈ op.template? n,
      (ofPattern t.pattern).layout = t.layout := by
  decide +kernel

/-- The text of an operator is what filling its pattern gives, and a wrong number of operands is
reported alike. -/
theorem applyTemplate_ofPattern {op : Operator} {n : Nat} {t : Template}
    (h : op.template? n = some t) (texts : List String) :
    applyTemplate op (ofPattern t.pattern) texts = applyTemplate op t texts := by
  have hlayout : (ofPattern t.pattern).layout = t.layout := of_template?_table ofPattern_table h
  rw [applyTemplate, applyTemplate, instantiate?_of_layout hlayout, arity_of_layout hlayout]

end Operator

/-- A pattern is filled by exactly as many arguments as its highest index asks for, and every
slot finds its argument among them. Filled with its own slots it loses nothing but zeros, and
filling the result is the same as filling the pattern, whatever the arguments are. -/
theorem filling_respects_own_slots (s : String)
    (h : Piece.slot (UInt64.size - 1) ∉ ofPattern s) :
    (ofPattern s).arity < UInt64.size ∧
    (∀ arguments, ((ofPattern s).instantiate? arguments).isSome = true ↔
      arguments.length = (ofPattern s).arity) ∧
    (∀ index, .slot index ∈ ofPattern s → index < (ofPattern s).arity) ∧
    (∀ arguments filled, (ofPattern s).instantiate? arguments = some filled →
      ∃ texts, List.Forall₂ (Piece.Shows arguments) (ofPattern s) texts ∧
        String.join texts = filled) ∧
    ∃ trimmed, (ofPattern s).instantiate? (ownSlots (ofPattern s).arity) = some trimmed ∧
      SameUpToZeros s.toList trimmed.toList ∧ (ofPattern trimmed).arity = (ofPattern s).arity ∧
      (∀ arguments, (ofPattern trimmed).instantiate? arguments =
        (ofPattern s).instantiate? arguments) ∧
      (ofPattern trimmed).instantiate? (ownSlots (ofPattern s).arity) = some trimmed := by
  have hword : (ofPattern s).arity < UInt64.size := by
    apply arity_lt (by decide)
    intro index hindex
    have hlt := lt_size_of_mem_ofPattern hindex
    have hne : index ≠ UInt64.size - 1 := by
      rintro rfl
      exact h hindex
    omega
  have hsome (arguments : List String) :
      ((ofPattern s).instantiate? arguments).isSome = true ↔
        arguments.length = (ofPattern s).arity := by
    rw [Option.isSome_iff_exists]
    simp only [instantiate?_eq_some_iff, exists_and_left, exists_eq', and_true]
  refine ⟨hword, hsome, fun index => lt_arity_of_mem, ?_, (ofPattern s).pattern, ?_⟩
  · intro arguments filled hfilled
    obtain ⟨hlength, hjoin⟩ := instantiate?_eq_some_iff.mp hfilled
    exact ⟨_, shows_resolve hlength, hjoin⟩
  · have hown := instantiate?_ownSlots (ofPattern s)
    refine ⟨hown, sameUpToZeros_pattern s, ?_⟩
    -- the result has the same pieces as the pattern, so nothing can tell them apart
    rw [ofPattern_pattern]
    exact ⟨rfl, fun arguments => rfl, hown⟩

theorem filling_respects_own_slots_padded_index :
    ∃ trimmed, (ofPattern "\x7b1\x7b02\x7d\x7b0\x7d").instantiate? (ownSlots 3) = some trimmed ∧
      SameUpToZeros "\x7b1\x7b02\x7d\x7b0\x7d".toList trimmed.toList ∧
      (ofPattern trimmed).instantiate? ["\x7b", "1", "2\x7d"] = some "\x7b12\x7d\x7b" := by
  have hfilled : (ofPattern "\x7b1\x7b02\x7d\x7b0\x7d").instantiate? ["\x7b", "1", "2\x7d"] =
      some "\x7b12\x7d\x7b" := by decide +kernel
  have harity : (ofPattern "\x7b1\x7b02\x7d\x7b0\x7d").arity = 3 := by decide +kernel
  obtain ⟨-, -, -, -, trimmed, hown, hsame, -, hall, -⟩ :=
    filling_respects_own_slots "\x7b1\x7b02\x7d\x7b0\x7d" (by decide +kernel)
  rw [harity] at hown
  exact ⟨trimmed, hown, hsame, (hall _).trans hfilled⟩

end ODataQuery
