import ODataQuery.Json.Skip
import ODataQuery.Proofs.JsonGrammar
import ODataQuery.Proofs.JsonReaders
import ODataQuery.Proofs.Placeholder

/-! The readers of strings and numbers, and the one that passes over a value, on every text of
the grammar. The value of an unknown key is passed over without a limit on its depth: the
brackets that are open are kept in a list, and the number of steps that are left always exceeds
the length of the text that is left. -/
namespace ODataQuery.Json

/-! ## Strings -/

theorem hexValue?_of_isHexDigit {v : Nat} {c : Char} (h : IsHexDigit v c) :
    hexValue? c = some v := by
  have key : ∀ v < 16, hexValue? (Nat.digitChar v) = some v ∧
      hexValue? (Nat.digitChar v).toUpper = some v := by decide
  obtain ⟨hv, rfl | rfl⟩ := h
  · exact (key v hv).1
  · exact (key v hv).2

theorem codeUnit?_of_hexText {u : Nat} {l r : List Char} (h : HexText u l r) :
    ∃ a b c d, l = a :: b :: c :: d :: r ∧ codeUnit? a b c d = some u := by
  cases h with
  | @digits p q s t a b c d ha hb hc hd =>
    refine ⟨a, b, c, d, rfl, ?_⟩
    simp [codeUnit?, hexValue?_of_isHexDigit ha, hexValue?_of_isHexDigit hb,
      hexValue?_of_isHexDigit hc, hexValue?_of_isHexDigit hd]

theorem readChars_letter {e c : Char} (h : (e, c) ∈ letterEscapes) (r : List Char) :
    readChars ('\\' :: e :: r) = consChar c (readChars r) := by
  simp only [letterEscapes, List.mem_cons, Prod.mk.injEq, List.not_mem_nil, or_false] at h
  rcases h with ⟨rfl, rfl⟩ | ⟨rfl, rfl⟩ | ⟨rfl, rfl⟩ | ⟨rfl, rfl⟩ | ⟨rfl, rfl⟩ | ⟨rfl, rfl⟩ |
    ⟨rfl, rfl⟩ | ⟨rfl, rfl⟩ <;> rfl

/-- Two halves that are written one behind the other are read as their character. -/
theorem readChars_pair {c : Char} {u v : Nat} (hv : v < 0x400)
    (h : c.toNat = 0x10000 + u * 0x400 + v) {a₁ a₂ a₃ a₄ b₁ b₂ b₃ b₄ : Char}
    (ha : codeUnit? a₁ a₂ a₃ a₄ = some (0xD800 + u))
    (hb : codeUnit? b₁ b₂ b₃ b₄ = some (0xDC00 + v)) (r : List Char) :
    readChars ('\\' :: 'u' :: a₁ :: a₂ :: a₃ :: a₄ :: '\\' :: 'u' :: b₁ :: b₂ :: b₃ :: b₄ :: r) =
      consChar c (readChars r) := by
  have hu : u < 0x400 := by
    have hrange := toNat_range c
    omega
  have hleading : isTrailing (0xD800 + u) = false ∧ isLeading (0xD800 + u) = true := by
    simp [isTrailing, isLeading]
    omega
  have htrailing : isTrailing (0xDC00 + v) = true := by
    simp [isTrailing]
    omega
  have hjoin : joinHalves (0xD800 + u) (0xDC00 + v) = c := by
    rw [joinHalves, Nat.add_sub_cancel_left, Nat.add_sub_cancel_left, ← h, Char.ofNat_toNat]
  have hstep : readChars ('\\' :: 'u' :: a₁ :: a₂ :: a₃ :: a₄ :: '\\' :: 'u' :: b₁ :: b₂ :: b₃ ::
      b₄ :: r) =
      if isTrailing (0xDC00 + v) then
        consChar (joinHalves (0xD800 + u) (0xDC00 + v)) (readChars r)
      else .error .malformed := by
    rw [readChars, ha]
    dsimp only
    rw [hleading.1, hleading.2]
    simp only [Bool.false_eq_true, if_false, if_true, hb]
  rw [hstep, htrailing, hjoin]
  rfl

theorem readChars_of_charText {c : Char} {l m : List Char} (h : CharText c l m) :
    readChars l = consChar c (readChars m) := by
  cases h with
  | plain h => exact readChars_plain h.1 h.2.1 (Nat.not_lt.mpr h.2.2) m
  | letter h => exact readChars_letter h m
  | code h =>
    obtain ⟨a, b, c, d, rfl, hcode⟩ := codeUnit?_of_hexText h
    exact readChars_code hcode m
  | pair hu hv hv' h =>
    obtain ⟨a₁, a₂, a₃, a₄, rfl, ha⟩ := codeUnit?_of_hexText hu
    obtain ⟨b₁, b₂, b₃, b₄, rfl, hb⟩ := codeUnit?_of_hexText hv
    exact readChars_pair hv' h ha hb m

theorem readChars_of_charsText {cs l r : List Char} (h : CharsText cs l r) :
    readChars l = .ok (cs, r) := by
  induction h with
  | close r => exact readChars_escaped [] r
  | cons hc h ih =>
    rw [readChars_of_charText hc, ih]
    rfl

theorem readText_of_charsText {s : String} {l r : List Char} (h : CharsText s.toList l r) :
    readText l = .ok (s, r) := by
  simp [readText, readChars_of_charsText h]

theorem skipText_of_anyChars {l r : List Char} (h : AnyChars l r) : skipText l = .ok r := by
  induction h with
  | close r => rw [skipText, if_pos rfl] <;> simp
  | plain hc h ih =>
    rw [skipText, if_neg hc.1, if_neg (Nat.not_lt.mpr hc.2.2), ih]
    all_goals
      intros
      exact absurd ‹_› hc.2.1
  | letter he h ih =>
    simp only [letterEscapes, List.mem_cons, Prod.mk.injEq, List.not_mem_nil, or_false] at he
    rcases he with ⟨rfl, rfl⟩ | ⟨rfl, rfl⟩ | ⟨rfl, rfl⟩ | ⟨rfl, rfl⟩ | ⟨rfl, rfl⟩ | ⟨rfl, rfl⟩ |
      ⟨rfl, rfl⟩ | ⟨rfl, rfl⟩ <;> exact ih
  | code hu h ih =>
    obtain ⟨a, b, c, d, rfl, hcode⟩ := codeUnit?_of_hexText hu
    rw [skipText, hcode]
    exact ih

/-! ## Numbers -/

/-- A number that ends here is not taken to go on. -/
def Stops (r : List Char) : Prop :=
  ∀ c ∈ r.head?, c.isDigit = false ∧ c ≠ '.' ∧ c ≠ 'e' ∧ c ≠ 'E'

theorem readDigits_append {ds r : List Char} (hds : IsDigits ds)
    (hr : ∀ c ∈ r.head?, c.isDigit = false) : readDigits (ds ++ r) = .ok (ds, r) := by
  obtain ⟨hne, hdigits⟩ := hds
  obtain ⟨htake, hdrop⟩ := takeWhile_run hdigits hr
  obtain ⟨d, ds, rfl⟩ := List.exists_cons_of_ne_nil hne
  unfold readDigits
  rw [htake, hdrop]

theorem readFraction_of_ne {r : List Char} (hr : ∀ c ∈ r.head?, c ≠ '.') :
    readFraction r = .ok ([], r) := by
  cases r with
  | nil => rfl
  | cons c r =>
    have hc := hr c rfl
    rw [readFraction]
    intro cs h
    exact hc (List.cons.inj h).1

theorem readExponent_of_stops {r : List Char} (hr : Stops r) : readExponent r = .ok (none, r) := by
  cases r with
  | nil => rfl
  | cons c r =>
    obtain ⟨-, -, hsmall, hcapital⟩ := hr c rfl
    exact if_neg (by simp [hsmall, hcapital])

theorem readFraction_append {fraction r : List Char}
    (h : fraction = [] ∨ ∃ ds, IsDigits ds ∧ fraction = '.' :: ds)
    (hr : ∀ c ∈ r.head?, c.isDigit = false ∧ c ≠ '.') :
    ∃ ds, readFraction (fraction ++ r) = .ok (ds, r) := by
  rcases h with rfl | ⟨ds, hds, rfl⟩
  · exact ⟨[], readFraction_of_ne fun c hc => (hr c hc).2⟩
  · exact ⟨ds, readDigits_append hds fun c hc => (hr c hc).1⟩

theorem readExponent_append {exponent r : List Char}
    (h : exponent = [] ∨ ∃ e ∈ ['e', 'E'], ∃ s ∈ [[], ['+'], ['-']], ∃ ds, IsDigits ds ∧
      exponent = e :: (s ++ ds)) (hr : Stops r) :
    ∃ n, readExponent (exponent ++ r) = .ok (n, r) := by
  rcases h with rfl | ⟨e, he, s, hs, ds, hds, rfl⟩
  · exact ⟨none, readExponent_of_stops hr⟩
  · have he : e = 'e' ∨ e = 'E' := by simpa using he
    have hread := readDigits_append hds fun c hc => (hr c hc).1
    obtain ⟨d, ds', rfl⟩ := List.exists_cons_of_ne_nil hds.1
    have hd : d ≠ '-' ∧ d ≠ '+' := by
      have := hds.2 d List.mem_cons_self
      constructor <;> rintro rfl <;> cases this
    simp only [List.mem_cons, List.not_mem_nil, or_false] at hs
    rw [List.cons_append] at hread
    unfold readExponent
    rcases hs with rfl | rfl | rfl
    all_goals simp [he, hd, hread]

theorem readNumeral_append {whole fraction exponent r : List Char} (hwhole : IsDigits whole)
    (hzero : whole.head? = some '0' → whole = ['0'])
    (hfraction : fraction = [] ∨ ∃ ds, IsDigits ds ∧ fraction = '.' :: ds)
    (hexponent : exponent = [] ∨ ∃ e ∈ ['e', 'E'], ∃ s ∈ [[], ['+'], ['-']], ∃ ds,
      IsDigits ds ∧ exponent = e :: (s ++ ds)) (hr : Stops r) :
    ∃ n, readNumeral (whole ++ (fraction ++ (exponent ++ r))) = .ok (n, r) := by
  -- neither an exponent nor what follows the number lets its digits or its fraction go on
  have hbehind : ∀ c ∈ (exponent ++ r).head?, c.isDigit = false ∧ c ≠ '.' := by
    intro c hc
    rcases hexponent with rfl | ⟨e, he, s, -, ds, -, rfl⟩
    · exact ⟨(hr c hc).1, (hr c hc).2.1⟩
    · cases hc
      have key : ∀ e ∈ ['e', 'E'], e.isDigit = false ∧ e ≠ '.' := by simp
      exact key c he
  have hpoint : ∀ c ∈ (fraction ++ (exponent ++ r)).head?, c.isDigit = false := by
    intro c hc
    rcases hfraction with rfl | ⟨ds, -, rfl⟩
    · exact (hbehind c hc).1
    · cases hc
      rfl
  obtain ⟨ds, hds⟩ := readFraction_append hfraction hbehind
  obtain ⟨e, he⟩ := readExponent_append hexponent hr
  have hzero : ¬(whole.head? = some '0' ∧ whole ≠ ['0']) := fun h => h.2 (hzero h.1)
  refine ⟨⟨whole, ds, e⟩, ?_⟩
  rw [readNumeral, readDigits_append hwhole hpoint]
  simp [hzero, hds, he]

theorem skipNumber_append {numeral r : List Char} (h : IsNumeral numeral) (hr : Stops r) :
    skipNumber (numeral ++ r) = .ok r := by
  cases h with
  | @parts sign whole fraction exponent hsign hwhole hzero hfraction hexponent =>
    obtain ⟨n, hn⟩ := readNumeral_append hwhole hzero hfraction hexponent hr
    simp only [List.mem_cons, List.not_mem_nil, or_false] at hsign
    rcases hsign with rfl | rfl
    · -- digits do not begin with a sign
      obtain ⟨d, ds, rfl⟩ := List.exists_cons_of_ne_nil hwhole.1
      have hd : d ≠ '-' := by
        have := hwhole.2 d List.mem_cons_self
        rintro rfl
        cases this
      simp only [List.nil_append, List.append_assoc, List.cons_append] at hn ⊢
      simp [skipNumber, hd, hn]
    · simp only [List.append_assoc, List.cons_append, List.nil_append] at hn ⊢
      simp [skipNumber, hn]

/-! ## Values -/

theorem skipScalar_number {c : Char} (hc : c = '-' ∨ c.isDigit = true) (cs : List Char) :
    skipScalar (c :: cs) = skipNumber (c :: cs) := by
  have hne : c ≠ 'n' ∧ c ≠ 't' ∧ c ≠ 'f' ∧ c ≠ '"' := by
    rcases hc with rfl | hc
    · decide
    · refine ⟨?_, ?_, ?_, ?_⟩ <;> rintro rfl <;> cases hc
  obtain ⟨hn, ht, hf, hquote⟩ := hne
  rw [skipScalar, if_pos hc]
  all_goals assumption

/-- Goes on behind a value, unless no bracket is open any more. -/
def resume (n : Nat) (brackets : List Bracket) (r : List Char) : Except Problem (List Char) :=
  if brackets = [] then .ok r else skipFrom n .comma brackets r

/-- The character that closes a bracket. -/
def Bracket.closing : Bracket → Char
  | array => ']'
  | object => '}'

/-- What is awaited behind an opening bracket. -/
def Bracket.start : Bracket → Awaiting
  | array => .item
  | object => .member

/-- What is awaited next to a bracket that is open. -/
def Bracket.awaits (bracket : Bracket) (first : Bool) : Awaiting :=
  if first then bracket.start else .comma

section Steps

variable {l r : List Char} (n : Nat) (a : Awaiting) (brackets : List Bracket)

/-- White space before a token changes nothing. -/
theorem skipFrom_spaced {c : Char} (h : Spaced l (c :: r)) (hc : isSpace c = false) :
    skipFrom n a brackets l = skipFrom n a brackets (c :: r) := by
  cases n with
  | zero => rfl
  | succ n =>
    unfold skipFrom
    rw [h.skipSpace_eq hc, (Spaced.refl (c :: r)).skipSpace_eq hc]

theorem skipFrom_close (bracket : Bracket) (first : Bool) (h : Spaced l (bracket.closing :: r)) :
    skipFrom (n + 1) (bracket.awaits first) (bracket :: brackets) l = resume n brackets r := by
  have hc : isSpace bracket.closing = false := by cases bracket <;> rfl
  rw [skipFrom_spaced _ _ _ h hc]
  cases bracket <;> cases first <;> rfl

theorem skipFrom_comma (bracket : Bracket) (h : Spaced l (',' :: r)) :
    skipFrom (n + 1) .comma (bracket :: brackets) l =
      skipFrom n bracket.next (bracket :: brackets) r := by
  rw [skipFrom_spaced _ _ _ h rfl]
  cases bracket <;> rfl

/-- A value may stand here: behind a colon or a comma, or at the start of an array. -/
def Awaiting.isValue : Awaiting → Bool
  | value | item => true
  | _ => false

variable {a}

theorem skipFrom_array (ha : a.isValue = true) (h : Spaced l ('[' :: r)) :
    skipFrom (n + 1) a brackets l = skipFrom n .item (.array :: brackets) r := by
  rw [skipFrom_spaced _ _ _ h rfl]
  cases a <;> first | rfl | cases ha

theorem skipFrom_object (ha : a.isValue = true) (h : Spaced l ('{' :: r)) :
    skipFrom (n + 1) a brackets l = skipFrom n .member (.object :: brackets) r := by
  rw [skipFrom_spaced _ _ _ h rfl]
  cases a <;> first | rfl | cases ha

theorem skipFrom_key {k : List Char} (ha : a = .member ∨ a = .key) (h : Spaced l ('"' :: k))
    (hkey : skipKey ('"' :: k) = .ok r) :
    skipFrom (n + 1) a (.object :: brackets) l = skipFrom n .value (.object :: brackets) r := by
  have hstep : skipFrom (n + 1) a (.object :: brackets) ('"' :: k) =
      (skipKey ('"' :: k) >>= fun r => skipFrom n .value (.object :: brackets) r) := by
    rcases ha with rfl | rfl <;> rfl
  rw [skipFrom_spaced _ _ _ h rfl, hstep, hkey, ok_bind]

theorem skipFrom_scalar {c : Char} {k : List Char} (ha : a.isValue = true)
    (h : Spaced l (c :: k)) (hspace : isSpace c = false) (hc : c ∉ ['[', '{', ']'])
    (hskip : skipScalar (c :: k) = .ok r) :
    skipFrom (n + 1) a brackets l = resume n brackets r := by
  have hne : c ≠ '[' ∧ c ≠ '{' ∧ c ≠ ']' := by simpa using hc
  have hstep : skipFrom (n + 1) a brackets (c :: k) =
      (skipScalar (c :: k) >>= resume n brackets) := by
    unfold skipFrom
    rw [(Spaced.refl (c :: k)).skipSpace_eq hspace]
    split
    case h_12 => rfl
    -- all other cases await something else or have a bracket in front
    all_goals simp_all [Awaiting.isValue]
  rw [skipFrom_spaced _ _ _ h hspace, hstep, hskip, ok_bind]

end Steps

theorem stops_nil : Stops [] := by
  intro c hc
  cases hc

theorem stops_cons {c : Char} (hc : c ∈ [',', ']', '}', ' ', '\t', '\n', '\r']) (r : List Char) :
    Stops (c :: r) := by
  have key : ∀ c ∈ [',', ']', '}', ' ', '\t', '\n', '\r'],
      c.isDigit = false ∧ c ≠ '.' ∧ c ≠ 'e' ∧ c ≠ 'E' := by simp
  intro d hd
  cases hd
  exact key c hc

theorem Spaced.stops {l r : List Char} (h : Spaced l r) (hr : Stops r) : Stops l := by
  cases h with
  | refl => exact hr
  | @cons c l _ space h =>
    have hspace : c ∈ [' ', '\t', '\n', '\r'] := by simpa [isSpace, or_assoc] using space
    exact stops_cons (List.mem_append_right [',', ']', '}'] hspace) l

/-- A number in a list ends where the next part or the closing bracket follows. -/
theorem Listed.stops (bracket : Bracket) {α : Type} {R : α → List Char → List Char → Prop}
    {xs : List α} {l r : List Char} (h : Listed bracket.closing R false xs l r) : Stops l := by
  cases h with
  | close h => exact h.stops (stops_cons (by cases bracket <;> decide) r)
  | @next _ _ _ k _ _ comma => exact comma.stops (stops_cons (by decide) k)

/-- The text is passed over up to the given rest, and more steps are left than characters. -/
def Passes (a : Awaiting) (brackets : List Bracket) (l r : List Char) : Prop :=
  ∀ n, l.length < n → ∃ m, r.length < m ∧ skipFrom n a brackets l = resume m brackets r

theorem passes_scalar {a : Awaiting} (ha : a.isValue = true) (brackets : List Bracket)
    {c : Char} {l k r : List Char} (h : Spaced l (c :: k)) (hspace : isSpace c = false)
    (hc : c ∉ ['[', '{', ']']) (hskip : skipScalar (c :: k) = .ok r)
    (hlen : r.length ≤ k.length) : Passes a brackets l r := by
  intro n hn
  have hspaced := h.length_le
  rw [List.length_cons] at hspaced
  obtain ⟨n, rfl⟩ : ∃ m, n = m + 1 := ⟨n - 1, by omega⟩
  exact ⟨n, by omega, skipFrom_scalar n brackets ha h hspace hc hskip⟩

/-- Parts that are passed over one by one are so with the commas between them and the bracket
behind them. -/
theorem skipFrom_listed (bracket : Bracket) (outer : List Bracket) {α : Type}
    {R : α → List Char → List Char → Prop} {xs : List α} {first : Bool} {l r : List Char}
    (hl : Listed bracket.closing R first xs l r)
    (hR : ∀ x ∈ xs, ∀ l r, R x l r → Stops r → ∀ a, a = bracket.start ∨ a = bracket.next →
      Passes a (bracket :: outer) l r) :
    ∀ n, l.length < n → ∃ m, r.length < m ∧
      skipFrom n (bracket.awaits first) (bracket :: outer) l = resume m outer r := by
  induction hl with
  | close h =>
    intro n hn
    have hspaced := h.length_le
    rw [List.length_cons] at hspaced
    obtain ⟨n, rfl⟩ : ∃ m, n = m + 1 := ⟨n - 1, by omega⟩
    exact ⟨n, by omega, skipFrom_close n outer bracket _ h⟩
  | @first x xs l m r hx h ih =>
    intro n hn
    obtain ⟨n', hn', hpart⟩ := hR x List.mem_cons_self l m hx (h.stops bracket) _ (.inl rfl) n hn
    obtain ⟨m', hm', hrest⟩ := ih (fun y hy => hR y (List.mem_cons_of_mem x hy)) n' hn'
    exact ⟨m', hm', hpart.trans hrest⟩
  | @next x xs l k m r comma hx h ih =>
    intro n hn
    have hspaced := comma.length_le
    rw [List.length_cons] at hspaced
    obtain ⟨n, rfl⟩ : ∃ m, n = m + 1 := ⟨n - 1, by omega⟩
    obtain ⟨n', hn', hpart⟩ := hR x List.mem_cons_self k m hx (h.stops bracket) _ (.inr rfl) n
      (by omega)
    obtain ⟨m', hm', hrest⟩ := ih (fun y hy => hR y (List.mem_cons_of_mem x hy)) n' hn'
    exact ⟨m', hm', ((skipFrom_comma n outer bracket comma).trans hpart).trans hrest⟩

theorem passColon_of_spaced {l r : List Char} (colon : Spaced l (':' :: r)) :
    passColon l = .ok r := by
  rw [passColon, colon.skipSpace_eq rfl]
  rfl

theorem skipKey_of_stringText {key : Option String} {k m n : List Char}
    (hkey : StringText key k m) (colon : Spaced m (':' :: n)) : skipKey ('"' :: k) = .ok n := by
  rw [skipKey, skipText_of_anyChars hkey.anyChars, ok_bind, passColon_of_spaced colon]

theorem passes_of_spells (v : Value) {l r : List Char} (h : Spells v l r) (hr : Stops r)
    {a : Awaiting} (ha : a.isValue = true) (brackets : List Bracket) :
    Passes a brackets l r := by
  induction v generalizing l r a brackets with
  | null =>
    cases h with
    | null h => exact passes_scalar ha brackets h rfl (by decide) rfl (by simp; omega)
  | bool b =>
    cases h with
    | true h => exact passes_scalar ha brackets h rfl (by decide) rfl (by simp; omega)
    | false h => exact passes_scalar ha brackets h rfl (by decide) rfl (by simp; omega)
  | number numeral =>
    cases h with
    | number h hn =>
      obtain ⟨c, cs, rfl, hc⟩ := hn.exists_cons
      have hspace : isSpace c = false := Value.isSpace_of_leads (Value.leads_number [] hc)
      have hnot : c ∉ ['[', '{', ']'] := by
        intro hmem
        have key : ∀ c ∈ ['[', '{', ']'], ¬(c = '-' ∨ c.isDigit = true) := by simp
        exact key c hmem hc
      have hskip : skipScalar (c :: (cs ++ r)) = .ok r :=
        (skipScalar_number hc (cs ++ r)).trans (skipNumber_append hn hr)
      refine passes_scalar ha brackets h hspace hnot hskip ?_
      rw [List.append_eq, List.length_append]
      omega
  | text s =>
    cases h with
    | text h hs =>
      have hany := hs.anyChars
      exact passes_scalar ha brackets h rfl (by decide) (skipText_of_anyChars hany)
        (Nat.le_of_lt hany.length_lt)
  | array items ih =>
    cases h with
    | array h hitems =>
      intro n hn
      have hspaced := h.length_le
      rw [List.length_cons] at hspaced
      obtain ⟨n, rfl⟩ : ∃ m, n = m + 1 := ⟨n - 1, by omega⟩
      rw [skipFrom_array n brackets ha h]
      apply skipFrom_listed .array brackets hitems ?_ n (by omega)
      rintro v hv l r hspells hstops a (rfl | rfl)
      · exact ih v hv hspells hstops rfl _
      · exact ih v hv hspells hstops rfl _
  | object entries ih =>
    cases h with
    | object h hentries =>
      intro n hn
      have hspaced := h.length_le
      rw [List.length_cons] at hspaced
      obtain ⟨n, rfl⟩ : ∃ m, n = m + 1 := ⟨n - 1, by omega⟩
      rw [skipFrom_object n brackets ha h]
      apply skipFrom_listed .object brackets hentries ?_ n (by omega)
      intro e he l r hentry hstops a ha n hn
      cases hentry with
      | @entry key v l k m k' r quote hkey colon hv =>
        -- a step takes the key with its colon, and the value is passed over from there
        have hquote := quote.length_le
        have hany := hkey.anyChars.length_lt
        have hcolon := colon.length_le
        rw [List.length_cons] at hquote hcolon
        obtain ⟨n, rfl⟩ : ∃ m, n = m + 1 := ⟨n - 1, by omega⟩
        rw [skipFrom_key n brackets ha quote (skipKey_of_stringText hkey colon)]
        exact ih (key, v) he hv hstops rfl _ n (by omega)

/-- Every value of the grammar is passed over, whatever follows it. -/
theorem skipValue_of_spells {v : Value} {l r : List Char} (h : Spells v l r) (hr : Stops r) :
    skipValue l = .ok r := by
  have hpasses : Passes .value [] l r := passes_of_spells v h hr rfl []
  obtain ⟨m, -, hskip⟩ := hpasses (l.length + 1) (Nat.lt_succ_self _)
  exact hskip

end ODataQuery.Json
