import ODataQuery.Fragment.Template
import ODataQuery.Proofs.Placeholder
import Mathlib.Data.List.Chain
import Mathlib.Data.List.TakeWhile

/-! Where the slots of a pattern are. A slot is an index in decimal digits between braces. It
opens with its only opening brace, so two slots never overlap, and a pattern can be divided in
one way only into its slots and the stretches of text between them. The loop that splits a
pattern finds this way. -/
namespace ODataQuery

def Piece.isText : Piece → Bool
  | text _ => true
  | slot _ => false

namespace Template

/-- The text of a slot: an index in decimal digits between braces. Zeros may stand in front of
it, and it fits a 64-bit word. -/
inductive SlotText : Nat → List Char → Prop
  | digits {ds : List Char} (hne : ds ≠ []) (hdigits : ∀ c ∈ ds, c.isDigit = true)
      (hword : Nat.ofDigitChars 10 ds 0 < UInt64.size) :
      SlotText (Nat.ofDigitChars 10 ds 0) ('{' :: (ds ++ ['}']))

/-- A slot stands in the text, between what comes before it and what comes after it. -/
structure SlotAt (cs before slot after : List Char) (index : Nat) : Prop where
  place : cs = before ++ (slot ++ after)
  spelled : SlotText index slot

/-- No slot stands in the text. -/
def SlotFree (cs : List Char) : Prop :=
  ∀ before slot after index, ¬SlotAt cs before slot after index

/-- A stretch of a pattern and the piece that it stands for. -/
structure Stretch where
  piece : Piece
  chars : List Char

/-- The text that the stretches make up. -/
def joined (stretches : List Stretch) : List Char := stretches.flatMap Stretch.chars

/-- The stretches make up the text, and they part it exactly at its slots: what stands behind
one of them and before the next is one stretch of text, unless it is empty. -/
structure DividesAtSlots (cs : List Char) (stretches : List Stretch) : Prop where
  restores : joined stretches = cs
  slots : ∀ before slot after index, SlotAt cs before slot after index ↔
    ∃ left right, stretches = left ++ ⟨.slot index, slot⟩ :: right ∧
      joined left = before ∧ joined right = after
  texts : ∀ x ∈ stretches, ∀ s, x.piece = .text s →
    x.chars = s.toList ∧ s ≠ "" ∧ SlotFree s.toList
  apart : stretches.IsChain fun x y => ¬(x.piece.isText = true ∧ y.piece.isText = true)

/-! ## Slots as they are written -/

/-- Past its first character a slot has no opening brace. -/
theorem SlotText.not_mem_of_append {index : Nat} {x y : List Char} (h : SlotText index (x ++ y))
    (hx : x ≠ []) : '{' ∉ y := by
  generalize hz : x ++ y = z at h
  cases h with
  | @digits ds hne hdigits hword =>
    obtain ⟨c, x, rfl⟩ := List.exists_cons_of_ne_nil hx
    have htail : x ++ y = ds ++ ['}'] := (List.cons.inj hz).2
    intro hmem
    have hbrace : '{' ∈ ds ++ ['}'] := htail ▸ List.mem_append_right x hmem
    rcases List.mem_append.mp hbrace with hbrace | hbrace
    · have hdigit := hdigits '{' hbrace
      cases hdigit
    · simp at hbrace

theorem SlotText.exists_cons {index : Nat} {slot : List Char} (h : SlotText index slot) :
    ∃ tail, slot = '{' :: tail := by
  cases h with
  | digits => exact ⟨_, rfl⟩

/-- A slot that begins behind the start of another one begins behind its end: its brace cannot
be inside of the other. -/
theorem SlotText.behind {i j : Nat} {slot slot' rest rest' gap : List Char}
    (h : SlotText i slot) (h' : SlotText j slot') (hgap : gap ≠ [])
    (heq : slot ++ rest = gap ++ (slot' ++ rest')) :
    ∃ between, gap = slot ++ between ∧ rest = between ++ (slot' ++ rest') := by
  rcases List.append_eq_append_iff.mp heq with ⟨between, hgap', hrest⟩ | ⟨y, hslot, hrest⟩
  · exact ⟨between, hgap', hrest⟩
  · cases y with
    | nil =>
      refine ⟨[], ?_, hrest.symm⟩
      rw [hslot]
      simp
    | cons c y =>
      obtain ⟨tail, rfl⟩ := h'.exists_cons
      have hc : '{' = c := (List.cons.inj hrest).1
      subst hslot
      exact absurd (hc ▸ List.mem_cons_self) (h.not_mem_of_append hgap)

/-- Slots at two places do not overlap: the one that begins first ends before the other. -/
theorem SlotAt.length_le {cs before slot after before' slot' after' : List Char} {i j : Nat}
    (h : SlotAt cs before slot after i) (h' : SlotAt cs before' slot' after' j)
    (hlt : before.length < before'.length) : before.length + slot.length ≤ before'.length := by
  have heq : before ++ (slot ++ after) = before' ++ (slot' ++ after') :=
    h.place.symm.trans h'.place
  rcases List.append_eq_append_iff.mp heq with ⟨gap, rfl, hrest⟩ | ⟨gap, rfl, -⟩
  · rw [List.length_append] at hlt
    have hgap : gap ≠ [] := by
      rintro rfl
      simp at hlt
    obtain ⟨between, rfl, -⟩ := h.spelled.behind h'.spelled hgap hrest
    simp only [List.length_append]
    omega
  · rw [List.length_append] at hlt
    omega

/-- Behind its brace a slot is read with its index, and its digits and its closing brace are
what is dropped. -/
theorem SlotText.slotIndex?_eq {index : Nat} {slot cs rest : List Char} (h : SlotText index slot)
    (hcs : '{' :: cs = slot ++ rest) :
    ∃ n, slotIndex? cs = some (index, n) ∧ cs.drop (n + 1) = rest := by
  cases h with
  | @digits ds hne hdigits hword =>
    obtain rfl : cs = ds ++ '}' :: rest := by simpa using (List.cons.inj hcs).2
    have hclose : ∀ c ∈ ('}' :: rest).head?, c.isDigit = false := by simp
    obtain ⟨htake, -⟩ := takeWhile_run hdigits hclose
    refine ⟨ds.length, ?_, by simp⟩
    unfold slotIndex?
    rw [htake]
    simp [hne, hword]

/-- An index is read from nothing but a slot. -/
theorem exists_slotText_of_slotIndex? {cs : List Char} {index n : Nat}
    (h : slotIndex? cs = some (index, n)) :
    ∃ slot, SlotText index slot ∧ '{' :: cs = slot ++ cs.drop (n + 1) := by
  unfold slotIndex? at h
  dsimp only at h
  split at h
  · rename_i hslot
    obtain ⟨hne, hclose, hword⟩ := hslot
    cases h
    have hdigits : ∀ c ∈ cs.takeWhile Char.isDigit, c.isDigit = true :=
      fun c hc => List.mem_takeWhile_imp hc
    refine ⟨_, .digits hne hdigits hword, ?_⟩
    have hrun : cs.take (cs.takeWhile Char.isDigit).length = cs.takeWhile Char.isDigit :=
      List.prefix_iff_eq_take.mp (List.takeWhile_prefix _) |>.symm
    rw [List.cons_append, List.append_assoc, List.singleton_append]
    congr 1
    calc cs = cs.take (cs.takeWhile Char.isDigit).length ++
          cs.drop (cs.takeWhile Char.isDigit).length := (List.take_append_drop _ cs).symm
      _ = _ := by rw [hrun, List.drop_eq_getElem?_toList_append, hclose]; rfl
  · cases h

/-- At one place there is one slot at most. -/
theorem SlotText.unique {i j : Nat} {slot slot' rest rest' : List Char} (h : SlotText i slot)
    (h' : SlotText j slot') (heq : slot ++ rest = slot' ++ rest') :
    i = j ∧ slot = slot' ∧ rest = rest' := by
  obtain ⟨tail, rfl⟩ := h.exists_cons
  have hcons : '{' :: (tail ++ rest) = '{' :: tail ++ rest := rfl
  obtain ⟨n, hread, hrest⟩ := h.slotIndex?_eq hcons
  obtain ⟨n', hread', hrest'⟩ := h'.slotIndex?_eq (hcons.trans heq)
  obtain ⟨rfl, rfl⟩ := Prod.mk.inj (Option.some.inj (hread.symm.trans hread'))
  obtain rfl : rest = rest' := hrest.symm.trans hrest'
  exact ⟨rfl, List.append_cancel_right heq, rfl⟩

/-! ## The division of a text -/

@[simp] theorem joined_nil : joined [] = [] := rfl

@[simp] theorem joined_cons (x : Stretch) (rest : List Stretch) :
    joined (x :: rest) = x.chars ++ joined rest := rfl

@[simp] theorem joined_append (left right : List Stretch) :
    joined (left ++ right) = joined left ++ joined right := List.flatMap_append

/-- Slots, and texts without a slot in them of which no two follow each other. -/
inductive Divided : List Stretch → Prop
  | nil : Divided []
  | slot {index : Nat} {chars : List Char} {rest : List Stretch} (h : SlotText index chars)
      (hrest : Divided rest) : Divided (⟨.slot index, chars⟩ :: rest)
  | text {s : String} {rest : List Stretch} (hne : s ≠ "") (hfree : SlotFree s.toList)
      (hnext : ∀ x ∈ rest.head?, x.piece.isText = false) (hrest : Divided rest) :
      Divided (⟨.text s, s.toList⟩ :: rest)

/-- A stretch spells its slot, or it is a text that is not empty and holds no slot. -/
def Stretch.Sound (x : Stretch) : Prop :=
  match x.piece with
  | .slot index => SlotText index x.chars
  | .text s => x.chars = s.toList ∧ s ≠ "" ∧ SlotFree s.toList

theorem slotFree_nil : SlotFree [] := by
  intro before slot after index h
  obtain ⟨tail, rfl⟩ := h.spelled.exists_cons
  have hplace := h.place
  simp at hplace

theorem slotFree_cons {c : Char} {cs : List Char} (hfirst : ∀ slot after index,
    ¬SlotAt (c :: cs) [] slot after index) (hcs : SlotFree cs) : SlotFree (c :: cs) := by
  intro before slot after index h
  cases before with
  | nil => exact hfirst slot after index h
  | cons d before => exact hcs before slot after index ⟨(List.cons.inj h.place).2, h.spelled⟩

/-- A slot at the start of a text is also one at the start of a longer text. -/
theorem SlotAt.extend {cs slot after : List Char} {index : Nat}
    (h : SlotAt cs [] slot after index) (rest : List Char) :
    SlotAt (cs ++ rest) [] slot (after ++ rest) index :=
  ⟨by rw [h.place]; simp, h.spelled⟩

/-- A character that begins no slot joins the text behind it. -/
theorem exists_divided_cons {c : Char} {stretches : List Stretch} (h : Divided stretches)
    (hfirst : ∀ slot after index, ¬SlotAt (c :: joined stretches) [] slot after index) :
    ∃ more, Divided more ∧ joined more = c :: joined stretches := by
  have hfirst' {cs rest : List Char} (hcs : cs ++ rest = joined stretches) :
      ∀ slot after index, ¬SlotAt (c :: cs) [] slot after index := by
    intro slot after index hat
    apply hfirst slot (after ++ rest) index
    rw [← hcs]
    exact hat.extend rest
  have hsingle : SlotFree (String.ofList [c]).toList := by
    rw [String.toList_ofList]
    exact slotFree_cons (hfirst' (List.nil_append _)) slotFree_nil
  cases h with
  | nil => exact ⟨_, .text (by simp) hsingle (by simp) .nil, by simp⟩
  | slot hslot hrest =>
    exact ⟨_, .text (by simp) hsingle (by simp [Piece.isText]) (.slot hslot hrest), by simp⟩
  | @text s rest hne hfree hnext hrest =>
    have hfree' : SlotFree (String.ofList (c :: s.toList)).toList := by
      rw [String.toList_ofList]
      exact slotFree_cons (hfirst' rfl) hfree
    exact ⟨_, .text (by simp) hfree' hnext hrest, by simp⟩

/-- Every text can be divided. -/
theorem exists_divided (cs : List Char) :
    ∃ stretches, Divided stretches ∧ joined stretches = cs := by
  induction hn : cs.length using Nat.strongRecOn generalizing cs with
  | ind n ih =>
    by_cases hslot : ∃ slot after index, SlotAt cs [] slot after index
    · obtain ⟨slot, after, index, hat⟩ := hslot
      have hplace : cs = slot ++ after := hat.place
      have hshorter : after.length < n := by
        obtain ⟨tail, rfl⟩ := hat.spelled.exists_cons
        rw [← hn, hplace, List.length_append, List.length_cons]
        omega
      obtain ⟨rest, hrest, rfl⟩ := ih after.length hshorter after rfl
      exact ⟨_, .slot hat.spelled hrest, hplace.symm⟩
    · cases cs with
      | nil => exact ⟨[], .nil, rfl⟩
      | cons c cs =>
        obtain ⟨rest, hrest, rfl⟩ := ih cs.length (by simp [← hn]) cs rfl
        apply exists_divided_cons hrest
        intro slot after index hat
        exact hslot ⟨slot, after, index, hat⟩

/-- What follows a text in a division is nothing or the brace of a slot. -/
theorem Divided.head_joined {stretches : List Stretch} (h : Divided stretches)
    (hnext : ∀ x ∈ stretches.head?, x.piece.isText = false) :
    ∀ c ∈ (joined stretches).head?, c = '{' := by
  cases h with
  | nil => simp
  | slot hslot =>
    obtain ⟨tail, rfl⟩ := hslot.exists_cons
    simp
  | text =>
    have htext := hnext _ rfl
    cases htext

/-- Every slot of a divided text is one of its stretches, at the same place. -/
theorem Divided.exists_of_slotAt {stretches : List Stretch} (h : Divided stretches)
    {before slot after : List Char} {index : Nat}
    (hat : SlotAt (joined stretches) before slot after index) :
    ∃ left right, stretches = left ++ ⟨.slot index, slot⟩ :: right ∧
      joined left = before ∧ joined right = after := by
  obtain ⟨hplace, hslot⟩ := hat
  induction h generalizing before with
  | nil =>
    obtain ⟨tail, rfl⟩ := hslot.exists_cons
    simp at hplace
  | @slot i chars rest hchars hrest ih =>
    rw [joined_cons] at hplace
    by_cases hbefore : before = []
    · subst hbefore
      obtain ⟨rfl, rfl, hafter⟩ := hchars.unique hslot hplace
      exact ⟨[], rest, rfl, rfl, hafter⟩
    · obtain ⟨between, rfl, hbetween⟩ := hchars.behind hslot hbefore hplace
      obtain ⟨left, right, rfl, rfl, hafter⟩ := ih hbetween
      exact ⟨_ :: left, right, rfl, rfl, hafter⟩
  | @text s rest hne hfree hnext hrest ih =>
    rw [joined_cons] at hplace
    have hbehind {between : List Char} (hbefore : before = s.toList ++ between)
        (hbetween : joined rest = between ++ (slot ++ after)) :
        ∃ left right, (⟨.text s, s.toList⟩ : Stretch) :: rest =
          left ++ ⟨.slot index, slot⟩ :: right ∧ joined left = before ∧ joined right = after := by
      obtain ⟨left, right, rfl, rfl, hafter⟩ := ih hbetween
      exact ⟨_ :: left, right, rfl, hbefore.symm, hafter⟩
    rcases List.append_eq_append_iff.mp hplace with ⟨between, hbefore, hbetween⟩ | ⟨x, hs, hx⟩
    · exact hbehind hbefore hbetween
    · -- the slot would begin in the text; it cannot end in it, and not behind it either
      rcases List.append_eq_append_iff.mp hx with ⟨y, rfl, -⟩ | ⟨y, rfl, hy⟩
      · exact absurd ⟨hs, hslot⟩ (hfree before slot y index)
      · by_cases hempty : x = []
        · subst hempty
          exact @hbehind [] (by simpa using hs.symm) hy
        · cases y with
          | nil => exact absurd ⟨by simpa using hs, hslot⟩ (hfree before _ [] index)
          | cons c y =>
            have hc : c = '{' := hrest.head_joined hnext c (by rw [hy]; rfl)
            exact absurd (hc ▸ List.mem_cons_self) (hslot.not_mem_of_append hempty)

/-- Every stretch of a division is a slot or a text as it should be. -/
theorem Divided.sound {stretches : List Stretch} (h : Divided stretches) :
    ∀ x ∈ stretches, x.Sound := by
  induction h with
  | nil => simp
  | slot hslot hrest ih => exact List.forall_mem_cons.mpr ⟨hslot, ih⟩
  | text hne hfree hnext hrest ih => exact List.forall_mem_cons.mpr ⟨⟨rfl, hne, hfree⟩, ih⟩

theorem Divided.apart {stretches : List Stretch} (h : Divided stretches) :
    stretches.IsChain fun x y => ¬(x.piece.isText = true ∧ y.piece.isText = true) := by
  induction h with
  | nil => exact .nil
  | slot hslot hrest ih => exact ih.cons (by simp [Piece.isText])
  | text hne hfree hnext hrest ih =>
    apply ih.cons
    intro y hy hboth
    rw [hnext y hy] at hboth
    cases hboth.2

theorem Divided.dividesAtSlots {stretches : List Stretch} (h : Divided stretches) :
    DividesAtSlots (joined stretches) stretches where
  restores := rfl
  slots before slot after index := by
    refine ⟨h.exists_of_slotAt, ?_⟩
    rintro ⟨left, right, rfl, rfl, rfl⟩
    exact ⟨by simp, h.sound ⟨.slot index, slot⟩ (by simp)⟩
  texts := by
    rintro ⟨piece, chars⟩ hmem s rfl
    exact h.sound _ hmem
  apart := h.apart

/-- No slot begins in a text of a division, not even one that ends behind it. -/
theorem Divided.length_le_of_slotAt {s : String} {rest : List Stretch}
    (h : Divided (⟨.text s, s.toList⟩ :: rest)) {before slot after : List Char} {index : Nat}
    (hat : SlotAt (s.toList ++ joined rest) before slot after index) :
    s.toList.length ≤ before.length := by
  obtain ⟨left, right, hsplit, rfl, -⟩ := h.exists_of_slotAt hat
  cases left with
  | nil => cases hsplit
  | cons x left =>
    obtain ⟨rfl, -⟩ := List.cons.inj hsplit
    rw [joined_cons, List.length_append]
    exact Nat.le_add_right _ _

/-! ## The loop -/

/-- At a slot the text that was held back is let go, and the loop goes on behind the slot. -/
theorem split_slot {index : Nat} {slot : List Char} (h : SlotText index slot)
    (text rest : List Char) :
    split text (slot ++ rest) = ofText text ++ .slot index :: split [] rest := by
  obtain ⟨tail, rfl⟩ := h.exists_cons
  have hcons : '{' :: (tail ++ rest) = '{' :: tail ++ rest := rfl
  obtain ⟨n, hread, hrest⟩ := h.slotIndex?_eq hcons
  rw [← hcons, split, if_pos rfl, hread]
  dsimp only
  rw [hrest]

/-- A character that begins no slot is held back. -/
theorem split_char {c : Char} {cs : List Char}
    (h : ∀ slot after index, ¬SlotAt (c :: cs) [] slot after index) (text : List Char) :
    split text (c :: cs) = split (text ++ [c]) cs := by
  have hnone : (if c = '{' then slotIndex? cs else none) = none := by
    split
    · rename_i hc
      subst hc
      apply Option.eq_none_iff_forall_ne_some.mpr
      rintro ⟨index, n⟩ hread
      obtain ⟨slot, hslot, hcs⟩ := exists_slotText_of_slotIndex? hread
      exact h slot _ index ⟨hcs, hslot⟩
    · rfl
  rw [split, hnone]

/-- A text in which no slot begins is held back as a whole. -/
theorem split_text {s rest : List Char}
    (h : ∀ before slot after index, SlotAt (s ++ rest) before slot after index →
      s.length ≤ before.length) (text : List Char) :
    split text (s ++ rest) = split (text ++ s) rest := by
  induction s generalizing text with
  | nil => rw [List.nil_append, List.append_nil]
  | cons c s ih =>
    have hfirst : ∀ slot after index, ¬SlotAt (c :: (s ++ rest)) [] slot after index :=
      fun slot after index hat => absurd (h [] slot after index hat) (by simp)
    have hrest : ∀ before slot after index, SlotAt (s ++ rest) before slot after index →
        s.length ≤ before.length := by
      intro before slot after index hat
      have hlater := h (c :: before) slot after index ⟨congrArg _ hat.place, hat.spelled⟩
      simpa using hlater
    rw [List.cons_append, split_char hfirst, ih hrest, List.append_assoc]
    rfl

/-- The loop finds the division of a text. What is held back is a piece of its own, so no text
may follow it. -/
theorem split_joined {stretches : List Stretch} (h : Divided stretches) {text : List Char}
    (htext : text = [] ∨ ∀ x ∈ stretches.head?, x.piece.isText = false) :
    split text (joined stretches) = ofText text ++ stretches.map Stretch.piece := by
  induction h generalizing text with
  | nil => rw [joined_nil, split, List.map_nil, List.append_nil]
  | slot hslot hrest ih =>
    rw [joined_cons, split_slot hslot, ih (.inl rfl)]
    rfl
  | @text s rest hne hfree hnext hrest ih =>
    rcases htext with rfl | htext
    · have hs : s.toList ≠ [] := by simpa using hne
      have hpiece : ofText s.toList = [.text s] := by
        rw [ofText, if_neg hs, String.ofList_toList]
      have hwhole := Divided.text hne hfree hnext hrest
      rw [joined_cons, split_text fun _ _ _ _ hat => hwhole.length_le_of_slotAt hat,
        List.nil_append, ih (.inr hnext), hpiece]
      rfl
    · have hslot := htext _ rfl
      cases hslot

/-- The pieces of a pattern come from a division of its text. -/
theorem exists_divided_ofPattern (s : String) :
    ∃ stretches, Divided stretches ∧ joined stretches = s.toList ∧
      stretches.map Stretch.piece = ofPattern s := by
  obtain ⟨stretches, hdivided, hjoined⟩ := exists_divided s.toList
  refine ⟨stretches, hdivided, hjoined, ?_⟩
  rw [ofPattern, ← hjoined, split_joined hdivided (.inl rfl)]
  rfl

end Template

open Template

/-- The pieces of a pattern are its slots, each where it stands, and the stretches of text
between them, which are neither empty nor next to each other and hold no slot. -/
theorem ofPattern_divides_at_slots (pattern : String) :
    (∃ stretches, DividesAtSlots pattern.toList stretches ∧
      stretches.map Stretch.piece = ofPattern pattern) ∧
    ∀ {before slot after before' slot' after' : List Char} {i j : Nat},
      SlotAt pattern.toList before slot after i → SlotAt pattern.toList before' slot' after' j →
      before.length < before'.length → before.length + slot.length ≤ before'.length := by
  obtain ⟨stretches, hdivided, hjoined, hpieces⟩ := exists_divided_ofPattern pattern
  refine ⟨⟨stretches, ?_, hpieces⟩, fun h h' => h.length_le h'⟩
  rw [← hjoined]
  exact hdivided.dividesAtSlots

theorem ofPattern_divides_at_slots_stray_brace :
    SlotAt "\x7b1\x7b02\x7d\x7b3\x7d".toList ['{', '1'] ['{', '0', '2', '}'] ['{', '3', '}'] 2 ∧
      (∃ left right : List Stretch, joined left = ['{', '1'] ∧ joined right = ['{', '3', '}'] ∧
        (left ++ ⟨.slot 2, ['{', '0', '2', '}']⟩ :: right).map Stretch.piece =
          ofPattern "\x7b1\x7b02\x7d\x7b3\x7d") ∧
      ['{', '1'].length + ['{', '0', '2', '}'].length ≤ ['{', '1', '{', '0', '2', '}'].length := by
  have hfirst : SlotText 2 ['{', '0', '2', '}'] :=
    @SlotText.digits ['0', '2'] (by decide) (by simp) (by decide)
  have hsecond : SlotText 3 ['{', '3', '}'] :=
    @SlotText.digits ['3'] (by decide) (by simp) (by decide)
  have hat : SlotAt "\x7b1\x7b02\x7d\x7b3\x7d".toList ['{', '1'] ['{', '0', '2', '}']
      ['{', '3', '}'] 2 := ⟨by decide, hfirst⟩
  have hnext : SlotAt "\x7b1\x7b02\x7d\x7b3\x7d".toList ['{', '1', '{', '0', '2', '}']
      ['{', '3', '}'] [] 3 := ⟨by decide, hsecond⟩
  obtain ⟨⟨stretches, hdivides, hpieces⟩, hdisjoint⟩ :=
    ofPattern_divides_at_slots "\x7b1\x7b02\x7d\x7b3\x7d"
  obtain ⟨left, right, rfl, hleft, hright⟩ := (hdivides.slots _ _ _ _).mp hat
  exact ⟨hat, ⟨left, right, hleft, hright, hpieces⟩, hdisjoint hat hnext (by decide)⟩

end ODataQuery
