import ODataQuery.Proofs.Layout

/-! Finding the placeholders of a query text. The text is read once from left to right,
and a placeholder takes all digits that follow it; so it can be told from what comes next
only where no digit comes next, which every layout sees to. -/
namespace ODataQuery

/-- A longest run of characters is cut off where it ends. -/
theorem takeWhile_run {p : Char → Bool} {run rest : List Char} (hrun : ∀ c ∈ run, p c = true)
    (hrest : ∀ c ∈ rest.head?, p c = false) :
    (run ++ rest).takeWhile p = run ∧ (run ++ rest).dropWhile p = rest := by
  rw [List.takeWhile_append_of_pos hrun, List.dropWhile_append_of_pos hrun]
  cases rest with
  | nil => simp
  | cons c rest =>
    have hc : p c = false := hrest c rfl
    simp [hc]

/-- A character, or a placeholder with its number. -/
inductive Token
  | char (c : Char)
  | placeholder (number : Nat)
  deriving DecidableEq, Repr

/-- Reads a placeholder at the start of a text: the sign, at least one digit and as many
as there are. -/
def readPlaceholder? : List Char → Option (Nat × List Char)
  | '@' :: 'p' :: rest =>
    if rest.takeWhile Char.isDigit = [] then none
    else some (Nat.ofDigitChars 10 (rest.takeWhile Char.isDigit) 0, rest.dropWhile Char.isDigit)
  | _ => none

theorem length_of_readPlaceholder? {cs rest : List Char} {n : Nat}
    (h : readPlaceholder? cs = some (n, rest)) : rest.length < cs.length := by
  unfold readPlaceholder? at h
  split at h
  · rename_i after
    split at h
    · cases h
    · cases h
      have := (List.dropWhile_sublist (l := after) Char.isDigit).length_le
      simp only [List.length_cons]
      omega
  · cases h

/-- The tokens of a text. -/
def tokens (cs : List Char) : List Token :=
  match cs with
  | [] => []
  | c :: cs =>
    match _h : readPlaceholder? (c :: cs) with
    | some (n, rest) => .placeholder n :: tokens rest
    | none => .char c :: tokens cs
termination_by cs.length
decreasing_by
  · exact length_of_readPlaceholder? _h
  · simp

@[simp] theorem tokens_nil : tokens [] = [] := by
  rw [tokens]

theorem tokens_cons_of_ne {c : Char} (hc : c ≠ '@') (cs : List Char) :
    tokens (c :: cs) = .char c :: tokens cs := by
  have hread : readPlaceholder? (c :: cs) = none := by
    unfold readPlaceholder?
    split
    · rename_i h
      cases h
      exact absurd rfl hc
    · rfl
  rw [tokens]
  split
  · rename_i h
    rw [hread] at h
    cases h
  · rfl

theorem toList_placeholder (n : Nat) :
    (placeholder n).toList = '@' :: 'p' :: Nat.toDigits 10 n := by
  simp [placeholder]

theorem isDigit_of_atBoundary {cs : List Char} (h : AtBoundary cs) :
    ∀ c ∈ cs.head?, c.isDigit = false := by
  intro c hc
  have hword := h c hc
  simp only [isWord, Char.isAlphanum, Bool.or_eq_false_iff] at hword
  exact hword.1.2

/-- A placeholder that is followed by a boundary is read with its own number. -/
theorem readPlaceholder?_placeholder (n : Nat) {rest : List Char} (hrest : AtBoundary rest) :
    readPlaceholder? ((placeholder n).toList ++ rest) = some (n, rest) := by
  have hdigits : ∀ c ∈ Nat.toDigits 10 n, c.isDigit = true := fun c hc =>
    Nat.isDigit_of_mem_toDigits (by decide) (by decide) hc
  obtain ⟨htake, hdrop⟩ := takeWhile_run hdigits (isDigit_of_atBoundary hrest)
  rw [toList_placeholder, List.cons_append, List.cons_append, readPlaceholder?, htake, hdrop,
    if_neg Nat.toDigits_ne_nil, Nat.ofDigitChars_ten_toDigits]

theorem tokens_placeholder_append (n : Nat) {rest : List Char} (hrest : AtBoundary rest) :
    tokens ((placeholder n).toList ++ rest) = .placeholder n :: tokens rest := by
  have hread := readPlaceholder?_placeholder n hrest
  rw [toList_placeholder, List.cons_append] at hread ⊢
  rw [tokens]
  split
  · rename_i h
    rw [hread] at h
    cases h
    rfl
  · rename_i h
    rw [hread] at h
    cases h

theorem tokens_append_of_no_sign {x : List Char} (hx : '@' ∉ x) (rest : List Char) :
    tokens (x ++ rest) = x.map .char ++ tokens rest := by
  induction x with
  | nil => rfl
  | cons c x ih =>
    have hc : c ≠ '@' := fun h => hx (h ▸ List.mem_cons_self)
    have hcs : '@' ∉ x := fun h => hx (List.mem_cons_of_mem c h)
    rw [List.cons_append, tokens_cons_of_ne hc, ih hcs, List.map_cons, List.cons_append]

/-- A text whose tokens do not run into what follows at a boundary. -/
def Sealed (x : List Char) : Prop :=
  ∀ rest, AtBoundary rest → tokens (x ++ rest) = tokens x ++ tokens rest

theorem atBoundary_nil : AtBoundary [] := by
  intro c hc
  cases hc

theorem tokens_of_no_sign {x : List Char} (hx : '@' ∉ x) : tokens x = x.map .char := by
  simpa using tokens_append_of_no_sign hx []

theorem sealed_of_no_sign {x : List Char} (hx : '@' ∉ x) : Sealed x := by
  intro rest _
  rw [tokens_append_of_no_sign hx, tokens_of_no_sign hx]

theorem tokens_placeholder (n : Nat) : tokens (placeholder n).toList = [.placeholder n] := by
  simpa using tokens_placeholder_append n atBoundary_nil

theorem sealed_placeholder (n : Nat) : Sealed (placeholder n).toList := by
  intro rest hrest
  rw [tokens_placeholder_append n hrest, tokens_placeholder, List.singleton_append]

namespace Layout

/-- The tokens of a layout, given the tokens of the operands. -/
def tokensWith (operand : Nat → List Token) : Layout → List Token
  | [] => []
  | .char c :: us => .char c :: tokensWith operand us
  | .slot i :: us => operand i ++ tokensWith operand us

theorem tokens_spell_append {us : Layout} {operand : Nat → List Char} (hs : us.spaced = true)
    (ha : .char '@' ∉ us) (ho : ∀ i, .slot i ∈ us → Sealed (operand i)) {rest : List Char}
    (hrest : AtBoundary rest) :
    tokens (us.spell operand ++ rest) =
      us.tokensWith (fun i => tokens (operand i)) ++ tokens rest := by
  induction us with
  | nil => rfl
  | cons u us ih =>
    have ha' : .char '@' ∉ us := fun h => ha (List.mem_cons_of_mem u h)
    have ho' : ∀ i, .slot i ∈ us → Sealed (operand i) :=
      fun i hi => ho i (List.mem_cons_of_mem u hi)
    cases u with
    | char c =>
      -- a fixed character is never the start of a placeholder
      have hc : c ≠ '@' := fun h => ha (h ▸ List.mem_cons_self)
      rw [spell, List.cons_append, tokens_cons_of_ne hc, ih hs ha' ho', tokensWith,
        List.cons_append]
    | slot i =>
      simp only [spaced, Bool.and_eq_true] at hs
      -- the operand ends where the layout goes on with a boundary
      have hnext : AtBoundary (spell operand us ++ rest) := atBoundary_spell hs.1 operand hrest
      rw [spell, List.append_assoc, ho i List.mem_cons_self _ hnext, ih hs.2 ha' ho', tokensWith,
        List.append_assoc]

theorem tokens_spell {us : Layout} {n : Nat} (hus : us.Fits n) {operand : Nat → List Char}
    (ho : ∀ i, i < n → Sealed (operand i)) :
    tokens (us.spell operand) = us.tokensWith (fun i => tokens (operand i)) := by
  simpa using tokens_spell_append hus.spaced hus.noSign
    (fun i hi => ho i (hus.slot_lt i hi)) atBoundary_nil

theorem sealed_spell {us : Layout} {n : Nat} (hus : us.Fits n) {operand : Nat → List Char}
    (ho : ∀ i, i < n → Sealed (operand i)) : Sealed (us.spell operand) := by
  intro rest hrest
  rw [tokens_spell hus ho]
  exact tokens_spell_append hus.spaced hus.noSign (fun i hi => ho i (hus.slot_lt i hi)) hrest

end Layout
end ODataQuery
