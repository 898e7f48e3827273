import ODataQuery.Json.Problem

/-! The grammar of JSON texts, apart from any reader. Each rule relates what is written to a
text that begins with it and to the rest of this text behind it, so that rules are put
together without a concatenation. White space may stand before every token. -/
namespace ODataQuery.Json

/-- The first text is the second one behind white space. -/
inductive Spaced : List Char → List Char → Prop
  | refl (r : List Char) : Spaced r r
  | cons {c : Char} {l r : List Char} (space : isSpace c = true) (h : Spaced l r) :
      Spaced (c :: l) r

/-- The hexadecimal digit of a number below 16, with a small or a capital letter. -/
def IsHexDigit (v : Nat) (c : Char) : Prop :=
  v < 16 ∧ (c = Nat.digitChar v ∨ c = (Nat.digitChar v).toUpper)

instance (v : Nat) (c : Char) : Decidable (IsHexDigit v c) :=
  inferInstanceAs (Decidable (_ ∧ _))

/-- Four hexadecimal digits and their value. -/
inductive HexText : Nat → List Char → List Char → Prop
  | digits {p q s t : Nat} {a b c d : Char} (ha : IsHexDigit p a) (hb : IsHexDigit q b)
      (hc : IsHexDigit s c) (hd : IsHexDigit t d) (r : List Char) :
      HexText (((p * 16 + q) * 16 + s) * 16 + t) (a :: b :: c :: d :: r) r

/-- The letters that may follow a backslash, each with the character that both stand for. -/
def letterEscapes : List (Char × Char) :=
  [('"', '"'), ('\\', '\\'), ('/', '/'), ('b', '\x08'), ('f', '\x0c'), ('n', '\n'),
    ('r', '\r'), ('t', '\t')]

/-- A character that stands for itself inside a string. -/
def IsPlain (c : Char) : Prop := c ≠ '"' ∧ c ≠ '\\' ∧ 0x20 ≤ c.toNat

instance (c : Char) : Decidable (IsPlain c) := inferInstanceAs (Decidable (_ ∧ _ ∧ _))

/-- The ways to write a character inside a string. One outside the basic plane may be written
by its two halves. -/
inductive CharText : Char → List Char → List Char → Prop
  | plain {c : Char} (h : IsPlain c) (r : List Char) : CharText c (c :: r) r
  | letter {e c : Char} (h : (e, c) ∈ letterEscapes) (r : List Char) :
      CharText c ('\\' :: e :: r) r
  | code {c : Char} {l r : List Char} (h : HexText c.toNat l r) :
      CharText c ('\\' :: 'u' :: l) r
  | pair {c : Char} {u v : Nat} {l m r : List Char}
      (hu : HexText (0xD800 + u) l ('\\' :: 'u' :: m)) (hv : HexText (0xDC00 + v) m r)
      (hv' : v < 0x400) (h : c.toNat = 0x10000 + u * 0x400 + v) :
      CharText c ('\\' :: 'u' :: l) r

/-- A string with the given characters, from behind its opening quote on. -/
inductive CharsText : List Char → List Char → List Char → Prop
  | close (r : List Char) : CharsText [] ('"' :: r) r
  | cons {c : Char} {cs l m r : List Char} (hc : CharText c l m) (h : CharsText cs m r) :
      CharsText (c :: cs) l r

/-- A string of any kind, from behind its opening quote on. A half of a character may stand in
it without the other one. -/
inductive AnyChars : List Char → List Char → Prop
  | close (r : List Char) : AnyChars ('"' :: r) r
  | plain {c : Char} {l r : List Char} (hc : IsPlain c) (h : AnyChars l r) : AnyChars (c :: l) r
  | letter {e c : Char} {l r : List Char} (he : (e, c) ∈ letterEscapes) (h : AnyChars l r) :
      AnyChars ('\\' :: e :: l) r
  | code {u : Nat} {l m r : List Char} (hu : HexText u l m) (h : AnyChars m r) :
      AnyChars ('\\' :: 'u' :: l) r

/-- A string from behind its opening quote on. It has no text if half of a character is
missing in it. -/
inductive StringText : Option String → List Char → List Char → Prop
  | text {s : String} {l r : List Char} (h : CharsText s.toList l r) : StringText (some s) l r
  | broken {l r : List Char} (h : AnyChars l r) (hnone : ∀ cs, ¬CharsText cs l r) :
      StringText none l r

/-- One or more digits. -/
def IsDigits (ds : List Char) : Prop := ds ≠ [] ∧ ∀ c ∈ ds, c.isDigit = true

/-- The written form of a number: a sign, digits of which a zero is followed by no other one,
a fraction and an exponent. -/
inductive IsNumeral : List Char → Prop
  | parts {sign whole fraction exponent : List Char} (hsign : sign ∈ [[], ['-']])
      (hwhole : IsDigits whole) (hzero : whole.head? = some '0' → whole = ['0'])
      (hfraction : fraction = [] ∨ ∃ ds, IsDigits ds ∧ fraction = '.' :: ds)
      (hexponent : exponent = [] ∨ ∃ e ∈ ['e', 'E'], ∃ s ∈ [[], ['+'], ['-']],
        ∃ ds, IsDigits ds ∧ exponent = e :: (s ++ ds)) :
      IsNumeral (sign ++ (whole ++ (fraction ++ exponent)))

/-- A JSON value of any kind. A number is kept as it is written, and a string by its text, if
it has one. -/
inductive Value
  | null
  | bool (b : Bool)
  | number (numeral : List Char)
  | text (s : Option String)
  | array (items : List Value)
  | object (entries : List (Option String × Value))

/-- What passes from its parts to every value holds of all values. -/
@[elab_as_elim, induction_eliminator]
theorem Value.induct {P : Value → Prop} (null : P .null) (bool : ∀ b, P (.bool b))
    (number : ∀ numeral, P (.number numeral)) (text : ∀ s, P (.text s))
    (array : ∀ items, (∀ v ∈ items, P v) → P (.array items))
    (object : ∀ entries, (∀ e ∈ entries, P e.2) → P (.object entries)) (v : Value) : P v := by
  refine @Value.rec P (fun vs => ∀ v ∈ vs, P v) (fun es => ∀ e ∈ es, P e.2)
    (fun e => P e.2) null bool number text array object ?_ ?_ ?_ ?_ (fun _ _ h => h) v
  · intro v hv
    exact absurd hv List.not_mem_nil
  · intro v vs hv hvs w hw
    rcases List.mem_cons.mp hw with rfl | hw
    · exact hv
    · exact hvs w hw
  · intro e he
    exact absurd he List.not_mem_nil
  · intro e es he hes f hf
    rcases List.mem_cons.mp hf with rfl | hf
    · exact he
    · exact hes f hf

/-- Parts that are separated by commas, up to a closing bracket. The flag tells whether none
of them has been written before. -/
inductive Listed {α : Type} (close : Char) (R : α → List Char → List Char → Prop) :
    Bool → List α → List Char → List Char → Prop
  | close {first : Bool} {l r : List Char} (h : Spaced l (close :: r)) :
      Listed close R first [] l r
  | first {x : α} {xs : List α} {l m r : List Char} (hx : R x l m)
      (h : Listed close R false xs m r) : Listed close R true (x :: xs) l r
  | next {x : α} {xs : List α} {l k m r : List Char} (comma : Spaced l (',' :: k))
      (hx : R x k m) (h : Listed close R false xs m r) : Listed close R false (x :: xs) l r

/-- An entry of an object: a key, a colon and a value. -/
inductive EntryText (R : Value → List Char → List Char → Prop) :
    Option String × Value → List Char → List Char → Prop
  | entry {key : Option String} {v : Value} {l k m n r : List Char}
      (quote : Spaced l ('"' :: k)) (hkey : StringText key k m) (colon : Spaced m (':' :: n))
      (hv : R v n r) : EntryText R (key, v) l r

/-- The text begins with the value. -/
inductive Spells : Value → List Char → List Char → Prop
  | null {l r : List Char} (h : Spaced l ('n' :: 'u' :: 'l' :: 'l' :: r)) : Spells .null l r
  | true {l r : List Char} (h : Spaced l ('t' :: 'r' :: 'u' :: 'e' :: r)) :
      Spells (.bool .true) l r
  | false {l r : List Char} (h : Spaced l ('f' :: 'a' :: 'l' :: 's' :: 'e' :: r)) :
      Spells (.bool .false) l r
  | number {numeral l r : List Char} (h : Spaced l (numeral ++ r)) (hn : IsNumeral numeral) :
      Spells (.number numeral) l r
  | text {s : Option String} {l k r : List Char} (h : Spaced l ('"' :: k))
      (hs : StringText s k r) : Spells (.text s) l r
  | array {items : List Value} {l k r : List Char} (h : Spaced l ('[' :: k))
      (hitems : Listed ']' Spells .true items k r) : Spells (.array items) l r
  | object {entries : List (Option String × Value)} {l k r : List Char}
      (h : Spaced l ('{' :: k)) (hentries : Listed '}' (EntryText Spells) .true entries k r) :
      Spells (.object entries) l r

/-- A whole text that writes the value, with nothing but white space behind it. -/
def Value.Document (v : Value) (text : String) : Prop :=
  ∃ rest, Spells v text.toList rest ∧ Spaced rest []

theorem Spaced.length_le {l r : List Char} (h : Spaced l r) : r.length ≤ l.length := by
  induction h with
  | refl r => exact Nat.le_refl _
  | cons space h ih =>
    rw [List.length_cons]
    omega

theorem Spaced.trans {l m r : List Char} (h : Spaced l m) (h' : Spaced m r) : Spaced l r := by
  induction h with
  | refl r => exact h'
  | cons space h ih => exact .cons space (ih h')

/-- White space is passed over up to the next token. -/
theorem Spaced.skipSpace_eq {l r : List Char} {c : Char} (h : Spaced l (c :: r))
    (hc : isSpace c = false) : skipSpace l = c :: r := by
  generalize ht : c :: r = t at h
  induction h with
  | refl =>
    subst ht
    exact List.dropWhile_cons_of_neg (by rw [hc]; decide)
  | cons space h ih => exact (List.dropWhile_cons_of_pos space).trans (ih ht)

theorem Spaced.skipSpace_nil {l : List Char} (h : Spaced l []) : skipSpace l = [] := by
  generalize ht : [] = t at h
  induction h with
  | refl => rw [← ht]; rfl
  | cons space h ih => exact (List.dropWhile_cons_of_pos space).trans (ih ht)

/-- Behind white space there is only one place where a token can begin. -/
theorem Spaced.unique {l r r' : List Char} {c c' : Char} (h : Spaced l (c :: r))
    (h' : Spaced l (c' :: r')) (hc : isSpace c = false) (hc' : isSpace c' = false) :
    c = c' ∧ r = r' :=
  List.cons.inj ((h.skipSpace_eq hc).symm.trans (h'.skipSpace_eq hc'))

theorem charsText_plain {cs : List Char} (h : cs.all (IsPlain ·) = true) (r : List Char) :
    CharsText cs (cs ++ '"' :: r) r := by
  induction cs with
  | nil => exact .close r
  | cons c cs ih =>
    rw [List.all_cons, Bool.and_eq_true, decide_eq_true_iff] at h
    exact .cons (.plain h.1 _) (ih h.2)

/-- A string that has a text is also one of any kind; a character that is written by its two
halves is then two of them. -/
theorem anyChars_of_charsText {cs l r : List Char} (h : CharsText cs l r) : AnyChars l r := by
  induction h with
  | close r => exact .close r
  | cons hc _ ih =>
    cases hc with
    | plain h => exact .plain h ih
    | letter h => exact .letter h ih
    | code h => exact .code h ih
    | pair hu hv => exact .code hu (.code hv ih)

theorem StringText.anyChars {s : Option String} {l r : List Char} (h : StringText s l r) :
    AnyChars l r := by
  cases h with
  | text h => exact anyChars_of_charsText h
  | broken h => exact h

theorem AnyChars.length_lt {l r : List Char} (h : AnyChars l r) : r.length < l.length := by
  induction h with
  | close r => exact Nat.lt_succ_self _
  | plain hc h ih => exact Nat.lt_succ_of_lt ih
  | letter he h ih =>
    simp only [List.length_cons]
    omega
  | code hu h ih =>
    cases hu
    simp only [List.length_cons] at ih ⊢
    omega

/-- The characters with which the text of a value can begin. -/
def Value.leads : Value → Char → Bool
  | null, c => c = 'n'
  | bool b, c => c = if b then 't' else 'f'
  | number _, c => c = '-' || c.isDigit
  | text _, c => c = '"'
  | array _, c => c = '['
  | object _, c => c = '{'

theorem Value.leads_number (numeral : List Char) {c : Char} (hc : c = '-' ∨ c.isDigit = true) :
    (number numeral).leads c = true := by
  simpa [leads] using hc

/-- No value begins with white space, a closing bracket or a separator. -/
theorem Value.ne_of_leads {v : Value} {c d : Char} (h : v.leads c = true)
    (hd : d ∈ [' ', '\t', '\n', '\r', ']', '}', ',']) : c ≠ d := by
  rintro rfl
  have key : ∀ c ∈ [' ', '\t', '\n', '\r', ']', '}', ','],
      c ≠ 'n' ∧ c ≠ 't' ∧ c ≠ 'f' ∧ c ≠ '-' ∧ c.isDigit = false ∧ c ≠ '"' ∧ c ≠ '[' ∧ c ≠ '{' := by
    simp
  obtain ⟨hn, ht, hf, hminus, hdigit, hquote, harray, hobject⟩ := key c hd
  cases v with
  | bool b => cases b <;> simp_all [leads]
  | _ => simp_all [leads]

theorem Value.isSpace_of_leads {v : Value} {c : Char} (h : v.leads c = true) :
    isSpace c = false := by
  have hne (d : Char) (hd : d ∈ [' ', '\t', '\n', '\r', ']', '}', ',']) := ne_of_leads h hd
  simp [isSpace, hne ' ', hne '\t', hne '\n', hne '\r']

theorem IsNumeral.exists_cons {numeral : List Char} (h : IsNumeral numeral) :
    ∃ c cs, numeral = c :: cs ∧ (c = '-' ∨ c.isDigit = true) := by
  cases h with
  | @parts sign whole fraction exponent hsign hwhole hzero hfraction hexponent =>
    simp only [List.mem_cons, List.not_mem_nil, or_false] at hsign
    rcases hsign with rfl | rfl
    · obtain ⟨hne, hdigits⟩ := hwhole
      obtain ⟨d, ds, rfl⟩ := List.exists_cons_of_ne_nil hne
      exact ⟨d, _, rfl, .inr (hdigits d List.mem_cons_self)⟩
    · exact ⟨'-', _, rfl, .inl rfl⟩

/-- The text of a value begins, behind white space, with a character that tells its kind, and
this white space does not matter. -/
theorem Spells.lead {v : Value} {l r : List Char} (h : Spells v l r) :
    ∃ c k, Spaced l (c :: k) ∧ v.leads c = .true ∧
      ∀ l', Spaced l' (c :: k) → Spells v l' r := by
  cases h with
  | null h => exact ⟨_, _, h, rfl, fun _ h' => .null h'⟩
  | true h => exact ⟨_, _, h, rfl, fun _ h' => .true h'⟩
  | false h => exact ⟨_, _, h, rfl, fun _ h' => .false h'⟩
  | number h hn =>
    obtain ⟨c, cs, rfl, hc⟩ := hn.exists_cons
    exact ⟨c, _, h, Value.leads_number _ hc, fun _ h' => .number h' hn⟩
  | text h hs => exact ⟨_, _, h, rfl, fun _ h' => .text h' hs⟩
  | array h hitems => exact ⟨_, _, h, rfl, fun _ h' => .array h' hitems⟩
  | object h hentries => exact ⟨_, _, h, rfl, fun _ h' => .object h' hentries⟩

theorem Spells.of_spaced {v : Value} {l m r : List Char} (h : Spells v m r)
    (hl : Spaced l m) : Spells v l r := by
  obtain ⟨c, k, hm, -, hl'⟩ := h.lead
  exact hl' l (hl.trans hm)

/-- A reader that has passed over white space finds the same value. -/
theorem Spells.skipSpace {v : Value} {l r : List Char} (h : Spells v l r) :
    ∃ c k, skipSpace l = c :: k ∧ v.leads c = .true ∧ Spells v (c :: k) r := by
  obtain ⟨c, k, hl, hc, hl'⟩ := h.lead
  exact ⟨c, k, hl.skipSpace_eq (Value.isSpace_of_leads hc), hc, hl' _ (.refl _)⟩

/-- Every part of a list takes a character, and so does the closing bracket. -/
theorem Listed.length_lt {α : Type} {close : Char} {R : α → List Char → List Char → Prop}
    {first : Bool} {xs : List α} {l r : List Char} (h : Listed close R first xs l r)
    (hR : ∀ x ∈ xs, ∀ l r, R x l r → r.length < l.length) : r.length + xs.length < l.length := by
  induction h with
  | close h =>
    have hspaced := h.length_le
    simp only [List.length_cons, List.length_nil] at hspaced ⊢
    omega
  | @first x xs l m r hx h ih =>
    have hpart := hR x List.mem_cons_self l m hx
    have hrest := ih fun y hy => hR y (List.mem_cons_of_mem x hy)
    rw [List.length_cons]
    omega
  | @next x xs l k m r comma hx h ih =>
    have hspaced := comma.length_le
    have hpart := hR x List.mem_cons_self k m hx
    have hrest := ih fun y hy => hR y (List.mem_cons_of_mem x hy)
    rw [List.length_cons] at hspaced ⊢
    omega

theorem EntryText.length_lt {R : Value → List Char → List Char → Prop}
    {e : Option String × Value} {l r : List Char} (h : EntryText R e l r)
    (hR : ∀ l r, R e.2 l r → r.length < l.length) : r.length < l.length := by
  cases h with
  | @entry key v l k m n r quote hkey colon hv =>
    have hquote := quote.length_le
    have hchars := hkey.anyChars.length_lt
    have hcolon := colon.length_le
    have hvalue := hR n r hv
    rw [List.length_cons] at hquote hcolon
    omega

theorem Spells.length_lt {v : Value} {l r : List Char} (h : Spells v l r) :
    r.length < l.length := by
  induction v generalizing l r with
  | array items ih =>
    cases h with
    | array h hitems =>
      have hspaced := h.length_le
      have hlist := hitems.length_lt fun v hv l r => ih v hv
      rw [List.length_cons] at hspaced
      omega
  | object entries ih =>
    cases h with
    | object h hentries =>
      have hspaced := h.length_le
      have hlist := hentries.length_lt fun e he l r hentry =>
        hentry.length_lt fun l r => ih e he
      rw [List.length_cons] at hspaced
      omega
  | text s =>
    cases h with
    | text h hs =>
      have hspaced := h.length_le
      have hchars := hs.anyChars.length_lt
      rw [List.length_cons] at hspaced
      omega
  | number numeral =>
    cases h with
    | number h hn =>
      obtain ⟨c, cs, rfl, -⟩ := hn.exists_cons
      have hspaced := h.length_le
      rw [List.cons_append, List.length_cons, List.length_append] at hspaced
      omega
  | null =>
    cases h with
    | null h =>
      have hspaced := h.length_le
      simp only [List.length_cons] at hspaced
      omega
  | bool b =>
    cases h with
    | true h | false h =>
      have hspaced := h.length_le
      simp only [List.length_cons] at hspaced
      omega

end ODataQuery.Json
