import ODataQuery.Proofs.Placeholder

/-! Telling texts apart from the left. Two texts that go on at boundaries can agree only
if they stand for the same thing, and then what follows agrees too; layouts pass this on
from their operands, and two layouts of different operators part before they end. -/
namespace ODataQuery

/-- If the two texts, with more behind a boundary, are the same, then `S` holds and what is
behind them is the same. -/
def Cancels (S : Prop) (x y : List Char) : Prop :=
  ∀ r r', AtBoundary r → AtBoundary r' → x ++ r = y ++ r' → S ∧ r = r'

theorem Cancels.of_head_ne {S : Prop} {c d : Char} (h : c ≠ d) (cs ds : List Char) :
    Cancels S (c :: cs) (d :: ds) := by
  intro r r' _ _ he
  exact absurd (List.cons.inj he).1 h

theorem Cancels.mono {S T : Prop} {x y : List Char} (h : Cancels S x y) (hST : S → T) :
    Cancels T x y := by
  intro r r' hr hr' he
  obtain ⟨hS, hrest⟩ := h r r' hr hr' he
  exact ⟨hST hS, hrest⟩

theorem cancels_words {x y : List Char} (hx : ∀ c ∈ x, isWord c = true)
    (hy : ∀ c ∈ y, isWord c = true) : Cancels (x = y) x y := by
  intro r r' hr hr' he
  obtain ⟨hxt, hxd⟩ := takeWhile_run hx hr
  obtain ⟨hyt, hyd⟩ := takeWhile_run hy hr'
  rw [he] at hxt hxd
  exact ⟨hxt.symm.trans hyt, hxd.symm.trans hyd⟩

theorem cancels_placeholders (m n : Nat) :
    Cancels (m = n) (placeholder m).toList (placeholder n).toList := by
  intro r r' hr hr' he
  have hm := readPlaceholder?_placeholder m hr
  have hn := readPlaceholder?_placeholder n hr'
  rw [he, hn] at hm
  cases hm
  exact ⟨rfl, rfl⟩

/-- Whether the text of a node can begin with the character. -/
def opens (c : Char) : Bool := isWord c || c == '@' || c == '[' || c == '{'

/-- A text that begins like the text of a node. -/
def Opens (x : List Char) : Prop := ∃ c cs, x = c :: cs ∧ opens c = true

namespace Layout

/-- Whether two layouts differ in a character before either of them ends. A slot stands
against a slot, or against a character with which no operand begins. -/
def parts : Layout → Layout → Bool
  | .char c :: us, .char d :: vs => c ≠ d || parts us vs
  | .slot _ :: us, .slot _ :: vs => parts us vs
  | .char c :: _, .slot _ :: _ => !opens c
  | .slot _ :: _, .char d :: _ => !opens d
  | _, _ => false

/-- A layout that is filled in two ways is told apart by its operands. -/
theorem cancels_spell {us : Layout} (hs : us.spaced = true) {S : Nat → Prop}
    {f g : Nat → List Char} (h : ∀ i, .slot i ∈ us → Cancels (S i) (f i) (g i)) :
    Cancels (∀ i, .slot i ∈ us → S i) (us.spell f) (us.spell g) := by
  induction us with
  | nil =>
    intro r r' _ _ he
    exact ⟨fun i hi => absurd hi List.not_mem_nil, he⟩
  | cons u us ih =>
    have htail : ∀ i, .slot i ∈ us → Cancels (S i) (f i) (g i) :=
      fun i hi => h i (List.mem_cons_of_mem u hi)
    intro r r' hr hr' he
    cases u with
    | char c =>
      obtain ⟨hS, hrest⟩ := ih hs htail r r' hr hr' (List.cons.inj he).2
      refine ⟨fun i hi => hS i ?_, hrest⟩
      simpa using hi
    | slot i =>
      simp only [spaced, Bool.and_eq_true] at hs
      simp only [spell, List.append_assoc] at he
      -- both operands are followed by the rest of the same layout, which is at a boundary
      obtain ⟨hSi, he⟩ := h i List.mem_cons_self _ _ (atBoundary_spell hs.1 f hr)
        (atBoundary_spell hs.1 g hr') he
      obtain ⟨hS, hrest⟩ := ih hs.2 htail r r' hr hr' he
      refine ⟨fun j hj => ?_, hrest⟩
      rcases List.mem_cons.mp hj with hj | hj
      · cases hj
        exact hSi
      · exact hS j hj

/-- Layouts that part have no text in common. -/
theorem cancels_of_parts {us vs : Layout} (hp : us.parts vs = true) (hus : us.spaced = true)
    (hvs : vs.spaced = true) {S : Nat → Nat → Prop} {f g : Nat → List Char}
    (hf : ∀ i, .slot i ∈ us → Opens (f i)) (hg : ∀ j, .slot j ∈ vs → Opens (g j))
    (h : ∀ i j, .slot i ∈ us → .slot j ∈ vs → Cancels (S i j) (f i) (g j)) :
    Cancels False (us.spell f) (vs.spell g) := by
  intro r r' hr hr' he
  fun_induction parts us vs with
  | case1 c us d vs ih =>
    obtain ⟨hcd, he⟩ := List.cons.inj he
    simp only [hcd, ne_eq, not_true_eq_false, decide_false, Bool.false_or] at hp
    exact ih hp hus hvs (fun i hi => hf i (List.mem_cons_of_mem _ hi))
      (fun j hj => hg j (List.mem_cons_of_mem _ hj))
      (fun i j hi hj => h i j (List.mem_cons_of_mem _ hi) (List.mem_cons_of_mem _ hj)) he
  | case2 i us j vs ih =>
    simp only [spaced, Bool.and_eq_true] at hus hvs
    simp only [spell, List.append_assoc] at he
    -- the operands cancel, whatever they stand for
    obtain ⟨-, he⟩ := h i j List.mem_cons_self List.mem_cons_self _ _
      (atBoundary_spell hus.1 f hr) (atBoundary_spell hvs.1 g hr') he
    exact ih hp hus.2 hvs.2 (fun i hi => hf i (List.mem_cons_of_mem _ hi))
      (fun j hj => hg j (List.mem_cons_of_mem _ hj))
      (fun i j hi hj => h i j (List.mem_cons_of_mem _ hi) (List.mem_cons_of_mem _ hj)) he
  | case3 c us j vs =>
    -- an operand would begin with a character that opens none
    obtain ⟨d, ds, hd, hopen⟩ := hg j List.mem_cons_self
    simp only [spell, hd, List.cons_append, List.append_assoc] at he
    rw [(List.cons.inj he).1, hopen] at hp
    cases hp
  | case4 i us d vs =>
    obtain ⟨c, cs, hc, hopen⟩ := hf i List.mem_cons_self
    simp only [spell, hc, List.cons_append, List.append_assoc] at he
    rw [← (List.cons.inj he).1, hopen] at hp
    cases hp
  | case5 => cases hp

theorem parts_listTail {m n : Nat} (h : m ≠ n) (i j : Nat) :
    (listTail i m).parts (listTail j n) = true := by
  -- they part where the shorter one is closed and the other goes on with a comma
  induction m generalizing n i j with
  | zero =>
    cases n with
    | zero => exact absurd rfl h
    | succ n => rfl
  | succ m ih =>
    cases n with
    | zero => rfl
    | succ n => simpa [listTail, parts] using ih (by omega) (i + 1) (j + 1)

theorem parts_ofList {m n : Nat} (h : m ≠ n) : (ofList m).parts (ofList n) = true := by
  cases m with
  | zero =>
    cases n with
    | zero => exact absurd rfl h
    | succ n => rfl
  | succ m =>
    cases n with
    | zero => rfl
    | succ n => simpa [ofList, parts] using parts_listTail (by omega) 1 1

theorem parts_of_head_ne {us vs : Layout} {c d : Char} (hus : us.head? = some (.char c))
    (hvs : vs.head? = some (.char d)) (h : c ≠ d) : us.parts vs = true := by
  cases us <;> cases vs <;> simp_all [parts]

end Layout

namespace Operator

/-- Apart from `substring` with two operands, the template does not depend on their
number. -/
theorem template?_eq_three {op : Operator} {n : Nat} (h : op = .substring → n ≠ 2) :
    op.template? n = op.template? 3 := by
  cases op with
  | substring => simp [template?, h rfl]
  | _ => rfl

theorem parts_table :
    ∀ op ∈ known, ∀ t ∈ op.template? 3, ∀ op' ∈ known, ∀ t' ∈ op'.template? 3,
      op ≠ op' → t.layout.parts t'.layout = true := by
  decide +kernel

end Operator
end ODataQuery
