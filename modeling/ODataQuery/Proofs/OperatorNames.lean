import ODataQuery.Filter.Operator
import Mathlib.Data.List.Nodup
import Mathlib.Data.List.TakeWhile

/-! The written forms of an operator's name. A text is looked up without the blanks around
it and in lower case, so what finds an operator is its name in any letter case of the ASCII
alphabet with any blanks around it, and nothing else. -/
namespace ODataQuery

/-- The text is `core` with blanks around it, and `core` neither begins nor ends with a
blank. -/
structure TrimsTo (cs core : List Char) : Prop where
  parts : ∃ before after, cs = before ++ core ++ after ∧
    (∀ c ∈ before, isBlank c = true) ∧ ∀ c ∈ after, isBlank c = true
  head : ∀ c ∈ core.head?, isBlank c = false
  last : ∀ c ∈ core.getLast?, isBlank c = false

theorem dropWhile_isBlank_eq_self {cs : List Char} (h : ∀ c ∈ cs.head?, isBlank c = false) :
    cs.dropWhile isBlank = cs := by
  cases cs with
  | nil => rfl
  | cons c cs =>
    apply List.dropWhile_cons_of_neg
    rw [h c rfl]
    exact Bool.false_ne_true

theorem head?_dropWhile_isBlank (cs : List Char) :
    ∀ c ∈ (cs.dropWhile isBlank).head?, isBlank c = false := by
  intro c hc
  have hnot := List.head?_dropWhile_not isBlank cs
  rw [Option.mem_def.mp hc] at hnot
  exact hnot

theorem trimBlank_blanks_append {before : List Char} (h : ∀ c ∈ before, isBlank c = true)
    (cs : List Char) : trimBlank (before ++ cs) = trimBlank cs := by
  rw [trimBlank, trimBlank, List.dropWhile_append_of_pos h]

theorem trimBlank_append_blanks {after : List Char} (h : ∀ c ∈ after, isBlank c = true)
    (cs : List Char) : trimBlank (cs ++ after) = trimBlank cs := by
  have hback : ∀ c ∈ after.reverse, isBlank c = true := by
    intro c hc
    exact h c (List.mem_reverse.mp hc)
  rw [trimBlank, trimBlank, List.dropWhile_append]
  split
  · -- the text is blank all over, and so is what follows it
    rename_i hempty
    rw [List.isEmpty_iff.mp hempty, List.dropWhile_eq_nil_iff.mpr h]
  · rw [List.reverse_append, List.dropWhile_append_of_pos hback]

theorem trimsTo_trimBlank (cs : List Char) : TrimsTo cs (trimBlank cs) := by
  have hfront := head?_dropWhile_isBlank cs
  have hmiddle : cs.dropWhile isBlank =
      trimBlank cs ++ ((cs.dropWhile isBlank).reverse.takeWhile isBlank).reverse := by
    rw [trimBlank, ← List.reverse_append, List.takeWhile_append_dropWhile, List.reverse_reverse]
  refine ⟨⟨cs.takeWhile isBlank, ((cs.dropWhile isBlank).reverse.takeWhile isBlank).reverse,
    ?_, ?_, ?_⟩, ?_, ?_⟩
  · rw [List.append_assoc, ← hmiddle, List.takeWhile_append_dropWhile]
  · exact fun c hc => List.mem_takeWhile_imp hc
  · exact fun c hc => List.mem_takeWhile_imp (List.mem_reverse.mp hc)
  · -- the core begins like the text without its first blanks
    intro c hc
    apply hfront c
    rw [hmiddle, List.head?_append, Option.mem_def.mp hc]
    rfl
  · intro c hc
    rw [trimBlank, List.getLast?_reverse] at hc
    exact head?_dropWhile_isBlank _ c hc

/-- There is one way to part a text into a core and the blanks around it. -/
theorem trimsTo_iff {cs core : List Char} : TrimsTo cs core ↔ trimBlank cs = core := by
  constructor
  · rintro ⟨⟨before, after, rfl, hbefore, hafter⟩, hhead, hlast⟩
    have hreverse : ∀ c ∈ core.reverse.head?, isBlank c = false := by
      rwa [List.head?_reverse]
    rw [trimBlank_append_blanks hafter, trimBlank_blanks_append hbefore, trimBlank,
      dropWhile_isBlank_eq_self hhead, dropWhile_isBlank_eq_self hreverse, List.reverse_reverse]
  · rintro rfl
    exact trimsTo_trimBlank cs

/-- Lowering changes nothing but the 26 capital letters of the ASCII alphabet. -/
theorem toLower_cases (c : Char) :
    c.toLower = c ∨ (65 ≤ c.toNat ∧ c.toNat ≤ 90 ∧ c.toLower.toNat = c.toNat + 32) := by
  unfold Char.toLower
  split
  · rename_i h
    have hlow : 65 ≤ c.toNat := UInt32.le_iff_toNat_le.mp h.1
    have hhigh : c.toNat ≤ 90 := UInt32.le_iff_toNat_le.mp h.2
    have hsum : (c.val + ('a'.val - 'A'.val)).toNat = c.toNat + 32 := by
      have hoffset : ('a'.val - 'A'.val).toNat = 32 := rfl
      have hnat : c.val.toNat = c.toNat := rfl
      -- the sum stays within a word
      rw [UInt32.toNat_add, hoffset, hnat]
      exact Nat.mod_eq_of_lt (by omega)
    exact .inr ⟨hlow, hhigh, hsum⟩
  · exact .inl rfl

theorem isBlank_toLower (c : Char) : isBlank c.toLower = isBlank c := by
  obtain hsame | ⟨hlow, hhigh, hnext⟩ := toLower_cases c
  · rw [hsame]
  · -- neither a capital letter nor a small one is blank
    have hletter (n : Nat) (h : 65 ≤ n) (h' : n ≤ 122) : inRanges blankRanges n = false := by
      simp [inRanges, blankRanges]
      omega
    rw [isBlank, isBlank, hnext, hletter _ (by omega) (by omega),
      hletter _ (by omega) (by omega)]

theorem trimBlank_map_toLower (cs : List Char) :
    trimBlank (cs.map Char.toLower) = (trimBlank cs).map Char.toLower := by
  have hblank : isBlank ∘ Char.toLower = isBlank := funext isBlank_toLower
  simp only [trimBlank, List.dropWhile_map, ← List.map_reverse, hblank]

namespace Operator

/-- Two operators of the same name are the same operator. -/
theorem name_injective {a b : Operator} (h : a.name = b.name) : a = b := by
  have hnodup : (known.map name).Nodup := by decide +kernel
  exact List.inj_on_of_nodup_map hnodup (mem_known a) (mem_known b) h

/-- Names are made of small letters and signs of the ASCII alphabet. -/
theorem name_table : ∀ op ∈ known, ∀ c ∈ op.name.toList, c.toLower = c ∧ c.toNat < 128 := by
  have hall : known.all (fun op => op.name.toList.all fun c => c.toLower = c ∧ c.toNat < 128) := by
    decide +kernel
  intro op hop c hc
  exact of_decide_eq_true (List.all_eq_true.mp (List.all_eq_true.mp hall op hop) c hc)

theorem map_toLower_name (op : Operator) :
    op.name.toList.map Char.toLower = op.name.toList := by
  have hid : op.name.toList.map Char.toLower = op.name.toList.map id := by
    apply List.map_congr_left
    intro c hc
    exact (name_table op (mem_known op) c hc).1
  rw [hid, List.map_id]

theorem name_of_ofName? {s : String} {op : Operator} (h : ofName? s = some op) :
    op.name = normalize s := by
  rw [ofName?] at h
  have hfound := List.find?_some h
  exact beq_iff_eq.mp hfound

/-- The first operator of a name is the only one. -/
theorem ofName?_eq_some_iff {s : String} {op : Operator} :
    ofName? s = some op ↔ normalize s = op.name := by
  constructor
  · intro h
    exact (name_of_ofName? h).symm
  · intro h
    have hsome : (ofName? s).isSome = true := by
      rw [ofName?, List.find?_isSome]
      refine ⟨op, mem_known op, ?_⟩
      rw [h, beq_iff_eq]
    obtain ⟨found, hfound⟩ := Option.isSome_iff_exists.mp hsome
    have hname : found.name = op.name := (name_of_ofName? hfound).trans h
    rw [hfound, name_injective hname]

theorem ofName?_congr {s s' : String} (h : normalize s = normalize s') :
    ofName? s = ofName? s' := by
  rw [ofName?, ofName?, h]

/-- An operator is found by the texts that, without the blanks around them, are its name up
to the case of letters. -/
theorem ofName?_eq_some_iff_trimsTo {s : String} {op : Operator} :
    ofName? s = some op ↔
      ∃ core, TrimsTo s.toList core ∧
        core.map Char.toLower = op.name.toList.map Char.toLower := by
  rw [ofName?_eq_some_iff, normalize, ← String.toList_inj, String.toList_ofList,
    map_toLower_name]
  constructor
  · intro h
    exact ⟨trimBlank s.toList, trimsTo_trimBlank s.toList, h⟩
  · rintro ⟨core, hcore, h⟩
    rw [trimsTo_iff.mp hcore, h]

/-- What is the name of an operator up to the case of letters has no other characters than
those of the ASCII alphabet. -/
theorem ascii_of_map_toLower {core : List Char} {op : Operator}
    (h : core.map Char.toLower = op.name.toList.map Char.toLower) :
    ∀ c ∈ core, c.toNat < 128 := by
  intro c hc
  have hmem : c.toLower ∈ op.name.toList := by
    rw [← map_toLower_name, ← h]
    exact List.mem_map_of_mem hc
  have hascii := (name_table op (mem_known op) _ hmem).2
  obtain hsame | ⟨-, hhigh, -⟩ := toLower_cases c
  · rwa [hsame] at hascii
  · omega

end Operator
end ODataQuery
