import ODataQuery.Proofs.LeafTexts
import ODataQuery.Proofs.Placeholder

/-! Compiled fragments are well bracketed. A text is read with a stack of the brackets that
are still to be closed; a slot of a layout leaves the stack as it is if its operand is
balanced, so the table of templates can be checked without operands. -/
namespace ODataQuery

/-- Reads one character, given the closing brackets to come, innermost first. Nothing if it
closes another bracket than the innermost one. -/
def readBracket? (pending : List Char) (c : Char) : Option (List Char) :=
  if c = '{' then some ('}' :: pending)
  else if c = '[' then some (']' :: pending)
  else if c = '}' ∨ c = ']' then
    match pending with
    | [] => none
    | d :: rest => if c = d then some rest else none
  else some pending

/-- Every bracket of the text is closed in the text, and the one that was opened last is
closed first. -/
def Balanced (cs : List Char) : Prop := cs.foldlM readBracket? [] = some []

instance (cs : List Char) : Decidable (Balanced cs) :=
  inferInstanceAs (Decidable (_ = _))

theorem readBracket?_append {pending pending' : List Char} {c : Char}
    (h : readBracket? pending c = some pending') (outer : List Char) :
    readBracket? (pending ++ outer) c = some (pending' ++ outer) := by
  unfold readBracket? at h ⊢
  cases pending with
  | nil => grind
  | cons d rest => grind

theorem foldlM_readBracket?_append {pending pending' : List Char} {cs : List Char}
    (h : cs.foldlM readBracket? pending = some pending') (outer : List Char) :
    cs.foldlM readBracket? (pending ++ outer) = some (pending' ++ outer) := by
  induction cs generalizing pending with
  | nil =>
    cases h
    rfl
  | cons c cs ih =>
    rw [List.foldlM_cons] at h ⊢
    obtain ⟨next, hstep, hrest⟩ := Option.bind_eq_some_iff.mp h
    exact Option.bind_eq_some_iff.mpr ⟨next ++ outer, readBracket?_append hstep outer, ih hrest⟩

/-- A balanced text leaves the brackets around it as they are. -/
theorem Balanced.foldlM_eq {cs : List Char} (h : Balanced cs) (pending : List Char) :
    cs.foldlM readBracket? pending = some pending :=
  foldlM_readBracket?_append h pending

theorem balanced_of_no_bracket {cs : List Char} (h : ∀ c ∈ cs, c ∉ ['{', '}', '[', ']']) :
    Balanced cs := by
  induction cs with
  | nil => rfl
  | cons c cs ih =>
    have hc := h c List.mem_cons_self
    have hstep : readBracket? [] c = some [] := by
      simp only [List.mem_cons, not_or] at hc
      simp [readBracket?, hc]
    rw [Balanced, List.foldlM_cons, hstep]
    exact ih fun d hd => h d (List.mem_cons_of_mem c hd)

theorem balanced_placeholder (n : Nat) : Balanced (placeholder n).toList := by
  apply balanced_of_no_bracket
  rw [toList_placeholder]
  intro c hc
  rcases List.mem_cons.mp hc with rfl | hc
  · decide
  rcases List.mem_cons.mp hc with rfl | hc
  · decide
  have hdigit : c.isDigit = true := Nat.isDigit_of_mem_toDigits (by decide) (by decide) hc
  intro hbracket
  simp only [List.mem_cons, List.not_mem_nil, or_false] at hbracket
  rcases hbracket with rfl | rfl | rfl | rfl <;> cases hdigit

/-- Reads a mark of a layout; a slot stands for a balanced text. -/
def readMark? (pending : List Char) : Mark → Option (List Char)
  | .char c => readBracket? pending c
  | .slot _ => some pending

namespace Layout

theorem foldlM_spell {us : Layout} {operand : Nat → List Char}
    (h : ∀ i, .slot i ∈ us → Balanced (operand i)) (pending : List Char) :
    (us.spell operand).foldlM readBracket? pending = us.foldlM readMark? pending := by
  induction us generalizing pending with
  | nil => rfl
  | cons u us ih =>
    have hrest := ih fun i hi => h i (List.mem_cons_of_mem u hi)
    cases u with
    | char c =>
      rw [spell, List.foldlM_cons, List.foldlM_cons]
      exact congrArg (readBracket? pending c).bind (funext hrest)
    | slot i =>
      have hi := h i List.mem_cons_self
      rw [spell, List.foldlM_append, hi.foldlM_eq, List.foldlM_cons]
      exact hrest pending

theorem foldlM_listTail (i n : Nat) (pending : List Char) :
    (listTail i n).foldlM readMark? (']' :: pending) = some pending := by
  induction n generalizing i with
  | zero => rfl
  | succ n ih => exact ih (i + 1)

theorem foldlM_ofList (n : Nat) : (ofList n).foldlM readMark? [] = some [] := by
  cases n with
  | zero => rfl
  | succ n => exact foldlM_listTail 1 n []

end Layout

theorem Operator.brackets_table :
    ∀ op ∈ known, ∀ n ∈ [2, 3], ∀ t ∈ op.template? n,
      t.layout.foldlM readMark? [] = some [] := by
  decide +kernel

theorem foldlM_layout? {k : Kind} {s : String} {n : Nat} {us : Layout}
    (h : layout? k s n = some us) : us.foldlM readMark? [] = some [] := by
  cases k with
  | list =>
    cases h
    exact Layout.foldlM_ofList n
  | operator k =>
    obtain ⟨op, t, -, ht, -, rfl⟩ := layout?_operator.mp h
    exact Operator.of_template?_table Operator.brackets_table ht
  | _ => cases h

open FilterTree

theorem passedOn_balanced : PassedOn Balanced := by
  intro k s n us operand hus hoperand
  have hslots : ∀ i, .slot i ∈ us → Balanced (operand i) :=
    fun i hi => hoperand i ((fits_layout? hus).slot_lt i hi)
  rw [Balanced, Layout.foldlM_spell hslots]
  exact foldlM_layout? hus

/-- A compiled fragment is balanced if the names of its properties are and, where literals
stand in it, these are too. -/
theorem balanced_compile {o : Options} {t : FilterTree} {c : Compiled}
    (hc : compile o t = .ok c)
    (hnames : ∀ n ∈ t.reached, n.kind = .property → Balanced n.text.toList)
    (hliterals : o.literals = .inline → ∀ p ∈ t.literals, Balanced p.value.toList) :
    Balanced c.fragment.toList := by
  obtain ⟨x, hx, rfl⟩ := render_of_compile_ok hc
  exact text_of_render_ok passedOn_balanced
    ⟨hnames, hliterals, fun _ => balanced_placeholder⟩ hx

theorem balanced_compile_brackets_in_leaves :
    compile ⟨.inline, some 3⟩ (comparison "in" (property "a[0]") (list [string "\x7b\x7d"])) =
        .ok ⟨"\x7b a[0]: \x7b $in: [\x7b\x7d] \x7d \x7d", []⟩ ∧
      Balanced "\x7b a[0]: \x7b $in: [\x7b\x7d] \x7d \x7d".toList := by
  have hc : compile ⟨.inline, some 3⟩
      (comparison "in" (property "a[0]") (list [string "\x7b\x7d"])) =
      .ok ⟨"\x7b a[0]: \x7b $in: [\x7b\x7d] \x7d \x7d", []⟩ := rfl
  exact ⟨hc, balanced_compile hc (by decide +kernel) (fun _ => by decide +kernel)⟩

end ODataQuery
