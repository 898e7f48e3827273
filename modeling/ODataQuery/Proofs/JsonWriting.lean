import ODataQuery.Json.Value
import ODataQuery.Proofs.JsonGrammar
import ODataQuery.Proofs.JsonReaders
import ODataQuery.Proofs.Layout
import Mathlib.Data.List.Forall2

/-! JSON values as they are written, on several lines or without white space. Every value that is
written follows the grammar: its strings are escaped character by character, only zero begins
with a zero, and the parts of an array or an object stand between commas, each on a line of its
own behind a margin where there are lines. -/
namespace ODataQuery.Json

/-! ## Scalars -/

theorem charText_escape (c : Char) (r : List Char) : CharText c (escape c ++ r) r := by
  unfold escape
  split
  -- a character without a letter of its own
  case h_8 hquote hslash _ _ _ _ _ =>
    split
    · have hcode : ((0 * 16 + 0) * 16 + c.toNat / 16) * 16 + c.toNat % 16 = c.toNat := by omega
      have hhigh : IsHexDigit (c.toNat / 16) (Nat.digitChar (c.toNat / 16)) :=
        ⟨by omega, .inl rfl⟩
      have hlow : IsHexDigit (c.toNat % 16) (Nat.digitChar (c.toNat % 16)) :=
        ⟨by omega, .inl rfl⟩
      have hzero : IsHexDigit 0 '0' := by decide
      have hdigits := HexText.digits hzero hzero hhigh hlow r
      rw [hcode] at hdigits
      exact .code hdigits
    · exact .plain ⟨hquote, hslash, Nat.not_lt.mp ‹_›⟩ r
  all_goals exact .letter (by decide) r

theorem charsText_escaped (cs r : List Char) :
    CharsText cs (cs.flatMap escape ++ '"' :: r) r := by
  induction cs with
  | nil => exact .close r
  | cons c cs ih =>
    rw [List.flatMap_cons, List.append_assoc]
    exact .cons (charText_escape c _) ih

theorem stringText_escaped (s : String) (r : List Char) :
    StringText (some s) (s.toList.flatMap escape ++ '"' :: r) r :=
  .text (charsText_escaped s.toList r)

theorem spells_quoted (s : String) (r : List Char) :
    Spells (.text (some s)) ((quoted s).toList ++ r) r := by
  rw [quoted_append]
  exact .text (.refl _) (stringText_escaped s r)

/-- Only zero is written with a zero in front. -/
theorem eq_zero_of_head_toDigits {n : Nat} (h : (Nat.toDigits 10 n).head? = some '0') : n = 0 := by
  induction n using Nat.strongRecOn with
  | ind n ih =>
    by_cases hn : n < 10
    · have key : ∀ n < 10, [Nat.digitChar n].head? = some '0' → n = 0 := by decide
      rw [Nat.toDigits_of_lt_base hn] at h
      exact key n hn h
    · rw [Nat.toDigits_of_base_le (by decide) (by omega),
        List.head?_append_of_ne_nil _ Nat.toDigits_ne_nil] at h
      have hzero := ih (n / 10) (by omega) h
      omega

theorem isDigits_toDigits (n : Nat) : IsDigits (Nat.toDigits 10 n) :=
  ⟨Nat.toDigits_ne_nil, fun c hc => Nat.isDigit_of_mem_toDigits (by decide) (by decide) hc⟩

theorem toDigits_of_head_zero {n : Nat} (h : (Nat.toDigits 10 n).head? = some '0') :
    Nat.toDigits 10 n = ['0'] := by
  rw [eq_zero_of_head_toDigits h]
  rfl

theorem isNumeral_toDigits (n : Nat) : IsNumeral (Nat.toDigits 10 n) := by
  have hparts := @IsNumeral.parts [] _ _ _ (by decide) (isDigits_toDigits n)
    toDigits_of_head_zero (.inl rfl) (.inl rfl)
  rwa [List.nil_append, List.append_nil, List.append_nil] at hparts

/-! ## Lines between brackets -/

theorem spaced_append {s : List Char} (hs : ∀ c ∈ s, isSpace c = true) (r : List Char) :
    Spaced (s ++ r) r := by
  induction s with
  | nil => exact .refl r
  | cons c s ih =>
    have hrest := ih fun d hd => hs d (List.mem_cons_of_mem c hd)
    exact .cons (hs c List.mem_cons_self) hrest

/-- The margin of a line is white space. -/
def IsMargin (margin : String) : Prop := ∀ c ∈ margin.toList, isSpace c = true

theorem isMargin_empty : IsMargin "" := by
  intro c hc
  cases hc

theorem IsMargin.indent {margin : String} (h : IsMargin margin) : IsMargin (margin ++ "  ") := by
  intro c hc
  rw [String.toList_append, List.mem_append] at hc
  rcases hc with hc | hc
  · exact h c hc
  · obtain rfl : c = ' ' := by simpa using hc
    rfl

theorem IsMargin.newline {margin : String} (h : IsMargin margin) :
    ∀ c ∈ '\n' :: margin.toList, isSpace c = true := by
  intro c hc
  rcases List.mem_cons.mp hc with rfl | hc
  · rfl
  · exact h c hc

section Block

variable {α : Type} {R : α → List Char → List Char → Prop} {margin : String} {xs : List α}
  {lines : List String} {close : Char}

/-- The line writes the part, whatever white space stands before it and whatever follows. -/
def WrittenAs (R : α → List Char → List Char → Prop) (x : α) (line : String) : Prop :=
  ∀ l r, Spaced l (line.toList ++ r) → R x l r

/-- The parts of a list behind the first one, each after a comma and a gap, and the bracket that
closes the list. -/
theorem listed_parts (close : Char) {gap last : List Char} (hgap : ∀ c ∈ gap, isSpace c = true)
    (hlast : ∀ c ∈ last, isSpace c = true) (h : List.Forall₂ (WrittenAs R) xs lines)
    (r : List Char) :
    Listed close R false xs
      (lines.flatMap (fun line => ',' :: (gap ++ line.toList)) ++ (last ++ close :: r)) r := by
  induction h with
  | nil => exact .close (spaced_append hlast _)
  | @cons x line xs lines hx _ ih =>
    rw [List.flatMap_cons, List.append_assoc, List.cons_append, List.append_assoc]
    exact .next (.refl _) (hx _ _ (spaced_append hgap _)) ih

/-- A block of lines is a list of what the lines write. -/
theorem listed_block (hm : IsMargin margin) (h : List.Forall₂ (WrittenAs R) xs lines)
    (opening closing : String) {c : Char} (hopening : opening.toList = [c])
    (hclosing : closing.toList = [close]) (r : List Char) :
    ∃ k, (block opening closing margin lines).toList ++ r = c :: k ∧
      Listed close R true xs k r := by
  cases h with
  | nil =>
    refine ⟨close :: r, ?_, .close (.refl _)⟩
    rw [block, if_pos rfl, String.toList_append, hopening, hclosing]
    rfl
  | @cons x line xs lines hx hrest =>
    -- every line stands behind its margin, and so does the bracket at the end
    have hparts := listed_parts close hm.indent.newline hm.newline hrest r
    refine ⟨_, ?_, .first (hx _ _ (spaced_append hm.indent.newline _)) hparts⟩
    rw [block, if_neg (List.cons_ne_nil _ _), List.map_cons]
    simp only [String.toList_append, toList_intercalate_cons, List.flatMap_map, hopening,
      hclosing, List.append_assoc, List.cons_append]
    rfl

/-- Parts that are separated by nothing but commas are a list of them, too. -/
theorem listed_commas (close : Char) (h : List.Forall₂ (WrittenAs R) xs lines) (r : List Char) :
    Listed close R true xs ((",".intercalate lines).toList ++ close :: r) r := by
  cases h with
  | nil => exact .close (.refl _)
  | @cons x line xs lines hx hrest =>
    have hparts := listed_parts close isMargin_empty isMargin_empty hrest r
    rw [toList_intercalate_cons, List.append_assoc]
    exact .first (hx _ _ (.refl _)) hparts

end Block

namespace Value

mutual

/-- A written value as a value of the grammar. -/
def ofJson : Json → Value
  | .null => .null
  | .bool b => .bool b
  | .number n => .number (Nat.toDigits 10 n)
  | .text s => .text (some s)
  | .array items => .array (ofJsonItems items)
  | .object entries => .object (ofJsonEntries entries)

def ofJsonItems : List Json → List Value
  | [] => []
  | item :: rest => ofJson item :: ofJsonItems rest

def ofJsonEntries : List (String × Json) → List (Option String × Value)
  | [] => []
  | (key, j) :: rest => (some key, ofJson j) :: ofJsonEntries rest

end

end Value

open Value

theorem writtenAs_bool (b : Bool) :
    WrittenAs Spells (.bool b) (if b then "true" else "false") := by
  intro l r hl
  cases b with
  | true => exact .true hl
  | false => exact .false hl

theorem writtenAs_number (n : Nat) :
    WrittenAs Spells (.number (Nat.toDigits 10 n)) (toString n) := by
  intro l r hl
  rw [Nat.toString_eq_repr, Nat.repr_eq_ofList_toDigits, String.toList_ofList] at hl
  exact .number hl (isNumeral_toDigits n)

theorem writtenAs_quoted (s : String) : WrittenAs Spells (.text (some s)) (quoted s) := by
  intro l r hl
  exact (spells_quoted s r).of_spaced hl

/-- An entry is written by its key, a colon, a gap and its value. -/
theorem writtenAs_entry (key : String) {gap : String} (hgap : IsMargin gap) {v : Value}
    {line : String} (hv : WrittenAs Spells v line) :
    WrittenAs (EntryText Spells) (some key, v) (quoted key ++ ":" ++ gap ++ line) := by
  intro l r hl
  rw [String.toList_append, String.toList_append, String.toList_append, List.append_assoc,
    List.append_assoc, List.append_assoc, quoted_append] at hl
  exact .entry hl (stringText_escaped key _) (.refl _) (hv _ _ (spaced_append hgap _))

mutual

/-- What is written on several lines follows the grammar. -/
theorem writtenAs_prettyAt (j : Json) {margin : String} (hm : IsMargin margin) :
    WrittenAs Spells (ofJson j) (j.prettyAt margin) := by
  cases j with
  | null =>
    rw [prettyAt]
    exact fun l r hl => .null hl
  | bool b =>
    rw [prettyAt]
    exact writtenAs_bool b
  | number n =>
    rw [prettyAt]
    exact writtenAs_number n
  | text s =>
    rw [prettyAt]
    exact writtenAs_quoted s
  | array items =>
    intro l r hl
    have hitems := writtenAs_prettyItems items hm.indent
    obtain ⟨k, hk, hlist⟩ := listed_block hm hitems "[" "]" rfl rfl r
    rw [prettyAt, hk] at hl
    rw [ofJson]
    exact .array hl hlist
  | object entries =>
    intro l r hl
    have hentries := writtenAs_prettyEntries entries hm.indent
    obtain ⟨k, hk, hlist⟩ := listed_block hm hentries "\x7b" "\x7d" rfl rfl r
    rw [prettyAt, hk] at hl
    rw [ofJson]
    exact .object hl hlist

theorem writtenAs_prettyItems (items : List Json) {margin : String} (hm : IsMargin margin) :
    List.Forall₂ (WrittenAs Spells) (ofJsonItems items) (prettyItems margin items) := by
  cases items with
  | nil =>
    rw [ofJsonItems, prettyItems]
    exact .nil
  | cons item items =>
    rw [ofJsonItems, prettyItems]
    exact .cons (writtenAs_prettyAt item hm) (writtenAs_prettyItems items hm)

theorem writtenAs_prettyEntries (entries : List (String × Json)) {margin : String}
    (hm : IsMargin margin) :
    List.Forall₂ (WrittenAs (EntryText Spells)) (ofJsonEntries entries)
      (prettyEntries margin entries) := by
  cases entries with
  | nil =>
    rw [ofJsonEntries, prettyEntries]
    exact .nil
  | cons e entries =>
    obtain ⟨key, j⟩ := e
    have hspace : IsMargin " " := by
      intro c hc
      obtain rfl : c = ' ' := by simpa using hc
      rfl
    have hentry := writtenAs_entry key hspace (writtenAs_prettyAt j hm)
    rw [ofJsonEntries, prettyEntries]
    refine .cons ?_ (writtenAs_prettyEntries entries hm)
    simpa [String.append_assoc] using hentry

end

mutual

/-- What is written without white space follows the grammar. -/
theorem writtenAs_compact (j : Json) : WrittenAs Spells (ofJson j) j.compact := by
  cases j with
  | null =>
    rw [compact]
    exact fun l r hl => .null hl
  | bool b =>
    rw [compact]
    exact writtenAs_bool b
  | number n =>
    rw [compact]
    exact writtenAs_number n
  | text s =>
    rw [compact]
    exact writtenAs_quoted s
  | array items =>
    intro l r hl
    have hlist := listed_commas ']' (writtenAs_compactItems items) r
    rw [compact] at hl
    rw [ofJson]
    refine .array ?_ hlist
    simpa using hl
  | object entries =>
    intro l r hl
    have hlist := listed_commas '}' (writtenAs_compactEntries entries) r
    rw [compact] at hl
    rw [ofJson]
    refine .object ?_ hlist
    simpa using hl

theorem writtenAs_compactItems (items : List Json) :
    List.Forall₂ (WrittenAs Spells) (ofJsonItems items) (compactItems items) := by
  cases items with
  | nil =>
    rw [ofJsonItems, compactItems]
    exact .nil
  | cons item items =>
    rw [ofJsonItems, compactItems]
    exact .cons (writtenAs_compact item) (writtenAs_compactItems items)

theorem writtenAs_compactEntries (entries : List (String × Json)) :
    List.Forall₂ (WrittenAs (EntryText Spells)) (ofJsonEntries entries)
      (compactEntries entries) := by
  cases entries with
  | nil =>
    rw [ofJsonEntries, compactEntries]
    exact .nil
  | cons e entries =>
    obtain ⟨key, j⟩ := e
    have hentry := writtenAs_entry key isMargin_empty (writtenAs_compact j)
    rw [String.append_empty] at hentry
    rw [ofJsonEntries, compactEntries]
    exact .cons hentry (writtenAs_compactEntries entries)

end

theorem document_of_writtenAs {v : Value} {text : String} (h : WrittenAs Spells v text) :
    v.Document text := by
  refine ⟨[], h _ [] ?_, .refl _⟩
  rw [List.append_nil]
  exact .refl _

theorem document_pretty (j : Json) : (ofJson j).Document j.pretty :=
  document_of_writtenAs (writtenAs_prettyAt j isMargin_empty)

theorem document_compact (j : Json) : (ofJson j).Document j.compact :=
  document_of_writtenAs (writtenAs_compact j)

end ODataQuery.Json
