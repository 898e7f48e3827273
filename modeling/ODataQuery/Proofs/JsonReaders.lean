import ODataQuery.Json.Record
import ODataQuery.Json.Value

/-! The readers on text that the writer makes. A string that is written with escapes is read
back to its closing quote, whatever follows it; a member or an item that is separated as the
writer does it is found, and what is left is read in the same way. -/
namespace ODataQuery.Json

section Bind

variable {α β : Type}

@[simp] theorem ok_bind (a : α) (f : α → Except Problem β) : (Except.ok a >>= f) = f a := rfl

@[simp] theorem error_bind (p : Problem) (f : α → Except Problem β) :
    (Except.error p >>= f) = .error p := rfl

theorem ite_bind {P : Prop} [Decidable P] (a : α) (p : Problem)
    (f : α → Except Problem β) :
    ((if P then .ok a else .error p) >>= f) = if P then f a else .error p := by
  split <;> rfl

@[simp] theorem pure_eq_ok (a : α) : (pure a : Except Problem α) = .ok a := rfl

end Bind

/-- The digits with which a control character is escaped stand for it. -/
theorem codeUnit?_control : ∀ n < 32,
    codeUnit? '0' '0' (Nat.digitChar (n / 16)) (Nat.digitChar (n % 16)) = some n := by
  decide

/-- The number of a character is not that of a half. -/
theorem toNat_range (c : Char) :
    c.toNat < 0xD800 ∨ 0xDFFF < c.toNat ∧ c.toNat < 0x110000 := by
  have := c.valid
  simp only [UInt32.isValidChar, Nat.isValidChar] at this
  exact this

/-- An escape by the number of a character stands for it. -/
theorem readChars_code {ch a b c d : Char} (hcode : codeUnit? a b c d = some ch.toNat)
    (cs : List Char) :
    readChars ('\\' :: 'u' :: a :: b :: c :: d :: cs) = consChar ch (readChars cs) := by
  have hrange := toNat_range ch
  have htrailing : isTrailing ch.toNat = false := by
    simp only [isTrailing, Bool.and_eq_false_iff, decide_eq_false_iff_not]
    omega
  have hleading : isLeading ch.toNat = false := by
    simp only [isLeading, Bool.and_eq_false_iff, decide_eq_false_iff_not]
    omega
  rw [readChars, hcode]
  dsimp only
  rw [htrailing, hleading, Char.ofNat_toNat]
  rfl

theorem readChars_plain {c : Char} (hquote : c ≠ '"') (hslash : c ≠ '\\')
    (hc : ¬c.toNat < 0x20) (cs : List Char) :
    readChars (c :: cs) = consChar c (readChars cs) := by
  rw [readChars, if_neg hquote, if_neg hc]
  -- all other equations of the reader begin with a backslash
  all_goals
    intros
    contradiction

/-- Every character is read back from its written form. -/
theorem readChars_escape (c : Char) (cs : List Char) :
    readChars (escape c ++ cs) = consChar c (readChars cs) := by
  unfold escape
  split
  -- a character without a letter of its own; the seven before it are read by the table
  case h_8 hquote hslash _ _ _ _ _ =>
    split
    · exact readChars_code (codeUnit?_control c.toNat ‹_›) cs
    · exact readChars_plain hquote hslash ‹_› cs
  all_goals rfl

theorem readChars_escaped (s cs : List Char) :
    readChars (s.flatMap escape ++ '"' :: cs) = .ok (s, cs) := by
  induction s with
  | nil => rw [List.flatMap_nil, List.nil_append, readChars, if_pos rfl] <;> simp
  | cons c s ih =>
    rw [List.flatMap_cons, List.append_assoc, readChars_escape, ih]
    rfl

theorem toList_quoted (s : String) :
    (quoted s).toList = '"' :: (s.toList.flatMap escape ++ ['"']) := by
  rw [quoted, String.toList_ofList]
  rfl

theorem quoted_append (s : String) (cs : List Char) :
    (quoted s).toList ++ cs = '"' :: (s.toList.flatMap escape ++ '"' :: cs) := by
  rw [toList_quoted]
  simp

theorem readText_escaped (s : String) (cs : List Char) :
    readText (s.toList.flatMap escape ++ '"' :: cs) = .ok (s, cs) := by
  simp [readText, readChars_escaped]

theorem readString_quoted (expected s : String) (cs : List Char) :
    readString expected ((quoted s).toList ++ cs) = .ok (s, cs) := by
  rw [quoted_append]
  exact readText_escaped s cs

theorem readKey_quoted (s : String) (cs : List Char) :
    readKey ((quoted s).toList ++ cs) = .ok (s, cs) := by
  rw [quoted_append]
  exact readText_escaped s cs

theorem readName_quoted {α : Type} (levels : Nat) {known : List (String × α)} {name : String}
    {a : α} (h : known.lookup name = some a) (cs : List Char) :
    readName levels known ((quoted name).toList ++ cs) = .ok (a, cs) := by
  have hfind : findName known name = .ok a := by rw [findName, h]
  have hskip (cs : List Char) : skipSpace ('"' :: cs) = '"' :: cs := rfl
  rw [quoted_append]
  unfold readName
  simp [hskip, readText_escaped, hfind]

theorem nextKey_first (key : String) (cs : List Char) :
    nextKey true ((quoted key).toList ++ cs) = .ok (some key, cs) := by
  have hstep (cs : List Char) : nextKey true ('"' :: cs) =
      (readKey ('"' :: cs) >>= fun r => pure (some r.1, r.2)) := rfl
  have hkey := readKey_quoted key cs
  rw [quoted_append] at hkey ⊢
  rw [hstep, hkey]
  rfl

theorem nextKey_comma (key : String) (cs : List Char) :
    nextKey false (',' :: ((quoted key).toList ++ cs)) = .ok (some key, cs) := by
  have hstep (cs : List Char) : nextKey false (',' :: cs) =
      (readKey cs >>= fun r => pure (some r.1, r.2)) := rfl
  rw [hstep, readKey_quoted]
  rfl

section Members

variable {σ : Type} {fields : List (Field σ)} {key : String} {first : Bool} {draft : σ}
  {cs k rest : List Char}

/-- A member whose key is that of a field goes into the draft. -/
theorem readMembers_known {field : Field σ} (hkey : nextKey first cs = .ok (some key, k))
    (hcolon : passColon k = .ok rest) (hfind : fields.find? (·.name == key) = some field)
    (hset : field.isSet draft = false) (n : Nat) :
    readMembers fields (n + 1) first draft cs =
      (do
        let (draft, cs) ← field.read draft rest
        readMembers fields n false draft cs) := by
  rw [readMembers, hkey]
  simp [hfind, hset, hcolon]

theorem readMembers_unknown (hkey : nextKey first cs = .ok (some key, k))
    (hcolon : passColon k = .ok rest) (hfind : fields.find? (·.name == key) = none) (n : Nat) :
    readMembers fields (n + 1) first draft cs =
      (do
        let cs ← skipValue rest
        readMembers fields n false draft cs) := by
  rw [readMembers, hkey]
  simp [hfind, hcolon]

theorem readMembers_field {field : Field σ} (hkey : nextKey first cs = .ok (some key, ':' :: rest))
    (hfind : fields.find? (·.name == key) = some field) (hset : field.isSet draft = false)
    (n : Nat) :
    readMembers fields (n + 1) first draft cs =
      (do
        let (draft, cs) ← field.read draft rest
        readMembers fields n false draft cs) :=
  readMembers_known hkey rfl hfind hset n

end Members

theorem readMembers_end {σ : Type} (fields : List (Field σ)) (n : Nat) (first : Bool)
    (draft : σ) (cs : List Char) :
    readMembers fields (n + 1) first draft ('}' :: cs) = .ok (draft, cs) :=
  rfl

theorem readItems_item {α : Type} {item : Reader α} {first : Bool} {cs rest : List Char}
    (hnext : nextItem first cs = .ok (true, rest)) (n : Nat) :
    readItems item (n + 1) first cs =
      (do
        let (a, cs) ← item rest
        let (as, cs) ← readItems item n false cs
        return (a :: as, cs)) := by
  rw [readItems, hnext]
  rfl

section Record

variable {σ α : Type} {r : Record σ α} {cs : List Char}

theorem readRecord_of_members {draft : σ} {a : α} {rest : List Char}
    (h : readMembers r.fields (cs.length + 1) true r.empty cs = .ok (draft, rest))
    (ha : r.finish draft = .ok a) (levels : Nat) :
    readRecord (levels + 1) r ('{' :: cs) = .ok (a, rest) := by
  change (readMembers r.fields (cs.length + 1) true r.empty cs >>= _) = _
  rw [h, ok_bind]
  simp only [ha, pure_eq_ok]

theorem readRecord_of_members_error {p : Problem}
    (h : readMembers r.fields (cs.length + 1) true r.empty cs = .error p) (levels : Nat) :
    readRecord (levels + 1) r ('{' :: cs) = .error p := by
  change (readMembers r.fields (cs.length + 1) true r.empty cs >>= _) = _
  rw [h, error_bind]

theorem readRecord_of_positions {draft : σ} {count : Nat} {a : α} {rest : List Char}
    (h : readPositions r.fields true 0 r.empty cs = .ok ((draft, count), rest))
    (ha : r.finish draft = .ok a) (levels : Nat) :
    readRecord (levels + 1) r ('[' :: cs) = .ok (a, rest) := by
  change (readPositions r.fields true 0 r.empty cs >>= _) = _
  rw [h, ok_bind]
  simp only [ha, pure_eq_ok]

theorem readRecord_of_positions_error {p : Problem}
    (h : readPositions r.fields true 0 r.empty cs = .error p) (levels : Nat) :
    readRecord (levels + 1) r ('[' :: cs) = .error p := by
  change (readPositions r.fields true 0 r.empty cs >>= _) = _
  rw [h, error_bind]

end Record

end ODataQuery.Json
