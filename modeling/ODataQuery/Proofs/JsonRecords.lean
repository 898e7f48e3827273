import ODataQuery.Json.Record
import ODataQuery.Proofs.JsonSkipping
import Mathlib.Data.List.Forall2

/-! The readers of typed data on every text of the grammar. Each of them finds what it reads
wherever the value that describes it is written, if the brackets that are open at once are not
too many for it, and refuses the text otherwise. Brackets count unless they belong to the value
of a key that names no field. -/
namespace ODataQuery.Json

/-- Whether a key is one of the names. -/
def isNamed (names : List String) : Option String → Bool
  | some key => names.contains key
  | none => false

namespace Value

variable (names : List String)

mutual

/-- The number of brackets that are open at once, without those in the values of keys that are
none of the names. -/
def levels : Value → Nat
  | array items => 1 + levelsAll items
  | object entries => 1 + levelsNamed entries
  | _ => 0

def levelsAll : List Value → Nat
  | [] => 0
  | v :: vs => max v.levels (levelsAll vs)

def levelsNamed : List (Option String × Value) → Nat
  | [] => 0
  | (key, v) :: entries =>
    if isNamed names key then max v.levels (levelsNamed entries) else levelsNamed entries

end

end Value

open Value

section Readers

variable {α β σ : Type} {names : List String} {levels : Nat}

/-- Within the given number of levels the reader finds `b` in every text of the value, or
refuses the text because the value takes more levels. Behind the value no number goes on. -/
def ReadsAs (names : List String) (levels : Nat) (reader : Reader β) (v : Value) (b : β) : Prop :=
  ∀ l r, Spells v l r → Stops r →
    reader l = if v.levels names ≤ levels then .ok (b, r) else .error .malformed

theorem ReadsAs.map {reader : Reader α} {v : Value} {a : α} (h : ReadsAs names levels reader v a)
    (f : α → β) :
    ReadsAs names levels (fun cs => do let (a, cs) ← reader cs; return (f a, cs)) v (f a) := by
  intro l r hl hr
  dsimp only
  rw [h l r hl hr, ite_bind]
  rfl

theorem nextItem_nil {first : Bool} {l r : List Char} (h : Listed ']' Spells first [] l r) :
    nextItem first l = .ok (false, r) := by
  cases h with
  | close h =>
    rw [nextItem, h.skipSpace_eq rfl]
    rfl

/-- The next item of an array is found behind the comma, if there has to be one. -/
theorem nextItem_cons {first : Bool} {v : Value} {vs : List Value} {l r : List Char}
    (h : Listed ']' Spells first (v :: vs) l r) :
    ∃ k m, nextItem first l = .ok (true, k) ∧ Spells v k m ∧ Listed ']' Spells false vs m r := by
  cases h with
  | @first _ _ _ m _ hv h =>
    obtain ⟨c, k, hl, hc, hk⟩ := hv.skipSpace
    refine ⟨c :: k, m, ?_, hk, h⟩
    have hclose : c ≠ ']' := ne_of_leads hc (by decide)
    have hcomma : c ≠ ',' := ne_of_leads hc (by decide)
    rw [nextItem, hl]
    simp [hclose, hcomma]
  | @next _ _ _ k' m _ comma hv h =>
    obtain ⟨c, k, hl, hc, hk⟩ := hv.skipSpace
    refine ⟨c :: k, m, ?_, hk, h⟩
    have hclose : c ≠ ']' := ne_of_leads hc (by decide)
    rw [nextItem, comma.skipSpace_eq rfl]
    simp [hl, hclose]

theorem nextKey_nil {first : Bool} {l r : List Char}
    (h : Listed '}' (EntryText Spells) first [] l r) : nextKey first l = .ok (none, r) := by
  cases h with
  | close h =>
    rw [nextKey, h.skipSpace_eq rfl]
    rfl

theorem readKey_of_stringText {key : String} {l k m : List Char} (quote : Spaced l ('"' :: k))
    (hkey : StringText (some key) k m) : readKey l = .ok (key, m) := by
  cases hkey with
  | text h =>
    rw [readKey, quote.skipSpace_eq rfl]
    exact readText_of_charsText h

/-- The next entry of an object is found by its key, and its value behind the colon. -/
theorem nextKey_cons {first : Bool} {key : String} {v : Value}
    {entries : List (Option String × Value)} {l r : List Char}
    (h : Listed '}' (EntryText Spells) first ((some key, v) :: entries) l r) :
    ∃ k n m, nextKey first l = .ok (some key, k) ∧ passColon k = .ok n ∧ Spells v n m ∧
      Listed '}' (EntryText Spells) false entries m r := by
  cases h with
  | first hentry h =>
    cases hentry with
    | entry quote hkey colon hv =>
      refine ⟨_, _, _, ?_, passColon_of_spaced colon, hv, h⟩
      have hread := readKey_of_stringText (.refl _) hkey
      rw [nextKey, quote.skipSpace_eq rfl]
      simp [hread]
  | next comma hentry h =>
    cases hentry with
    | entry quote hkey colon hv =>
      refine ⟨_, _, _, ?_, passColon_of_spaced colon, hv, h⟩
      have hread := readKey_of_stringText quote hkey
      rw [nextKey, comma.skipSpace_eq rfl]
      simp [hread]

/-- The items of an array are read one by one, and one that takes too many levels ends the
reading. -/
theorem readItems_listed {item : Reader β} {vs : List Value} {bs : List β}
    (h : List.Forall₂ (ReadsAs names levels item) vs bs) {first : Bool} {l r : List Char}
    (hl : Listed ']' Spells first vs l r) {n : Nat} (hn : vs.length < n) :
    readItems item n first l =
      if levelsAll names vs ≤ levels then .ok (bs, r) else .error .malformed := by
  induction h generalizing first l n with
  | nil =>
    obtain ⟨n, rfl⟩ : ∃ m, n = m + 1 := Nat.exists_eq_add_one.mpr hn
    rw [readItems, nextItem_nil hl, levelsAll, if_pos (Nat.zero_le _)]
    rfl
  | @cons v b vs bs hv _ ih =>
    rw [List.length_cons] at hn
    obtain ⟨n, rfl⟩ : ∃ m, n = m + 1 := ⟨n - 1, by omega⟩
    obtain ⟨k, m, hnext, hspells, hrest⟩ := nextItem_cons hl
    have hstops : Stops m := Listed.stops .array hrest
    rw [readItems_item hnext, hv k m hspells hstops, ite_bind]
    dsimp only
    rw [ih hrest (by omega), ite_bind, ← ite_and, levelsAll]
    simp only [Nat.max_le]
    rfl

theorem readSequence_reads {item : Reader β} {vs : List Value} {bs : List β}
    (h : List.Forall₂ (ReadsAs names levels item) vs bs) :
    ReadsAs names (levels + 1) (readSequence (levels + 1) item) (.array vs) bs := by
  intro l r hl _
  cases hl with
  | @array _ _ k _ hl hitems =>
    have hsteps : vs.length < k.length + 1 := by
      have hlength := hitems.length_lt fun v _ l r hv => hv.length_lt
      omega
    have hstart : readSequence (levels + 1) item l = readItems item (k.length + 1) true k := by
      rw [readSequence, hl.skipSpace_eq rfl]
      rfl
    rw [hstart, readItems_listed h hitems hsteps, Value.levels]
    congr 1
    simp only [eq_iff_iff]
    omega

theorem readSequence_zero (item : Reader β) (vs : List Value) (bs : List β) :
    ReadsAs names 0 (readSequence 0 item) (.array vs) bs := by
  intro l r hl _
  cases hl with
  | array hl hitems =>
    rw [readSequence, hl.skipSpace_eq rfl, Value.levels, if_neg (by omega)]
    rfl

/-- The entries of an object go into a draft one after the other: one whose key names a field
sets it, and any other one is passed over. -/
inductive Takes (names : List String) (levels : Nat) (fields : List (Field σ)) :
    σ → List (Option String × Value) → σ → Prop
  | done (draft : σ) : Takes names levels fields draft [] draft
  | field {key : String} {v : Value} {field : Field σ} {draft next last : σ}
      {entries : List (Option String × Value)}
      (hfind : fields.find? (·.name == key) = some field) (hset : field.isSet draft = false)
      (hread : ReadsAs names levels (field.read draft) v next)
      (h : Takes names levels fields next entries last) :
      Takes names levels fields draft ((some key, v) :: entries) last
  | unknown {key : String} (v : Value) {draft last : σ}
      {entries : List (Option String × Value)}
      (hfind : fields.find? (·.name == key) = none)
      (h : Takes names levels fields draft entries last) :
      Takes names levels fields draft ((some key, v) :: entries) last

theorem isNamed_eq_isSome (fields : List (Field σ)) (key : String) :
    isNamed (fields.map Field.name) (some key) = (fields.find? (·.name == key)).isSome := by
  rw [isNamed, Bool.eq_iff_iff, List.find?_isSome]
  simp

theorem isNamed_of_find? {fields : List (Field σ)} {field : Field σ} {key : String}
    (h : fields.find? (·.name == key) = some field) :
    isNamed (fields.map Field.name) (some key) = true := by
  rw [isNamed_eq_isSome, h]
  rfl

theorem not_isNamed_of_find? {fields : List (Field σ)} {key : String}
    (h : fields.find? (·.name == key) = none) :
    isNamed (fields.map Field.name) (some key) = false := by
  rw [isNamed_eq_isSome, h]
  rfl

theorem readMembers_listed {fields : List (Field σ)} {draft last : σ}
    {entries : List (Option String × Value)}
    (h : Takes (fields.map Field.name) levels fields draft entries last) {first : Bool}
    {l r : List Char} (hl : Listed '}' (EntryText Spells) first entries l r) {n : Nat}
    (hn : entries.length < n) :
    readMembers fields n first draft l =
      if levelsNamed (fields.map Field.name) entries ≤ levels then .ok (last, r)
      else .error .malformed := by
  induction h generalizing first l n with
  | done draft =>
    obtain ⟨n, rfl⟩ : ∃ m, n = m + 1 := Nat.exists_eq_add_one.mpr hn
    rw [readMembers, nextKey_nil hl, levelsNamed, if_pos (Nat.zero_le _)]
    rfl
  | @field key v field draft next last entries hfind hset hread h ih =>
    rw [List.length_cons] at hn
    obtain ⟨n, rfl⟩ : ∃ m, n = m + 1 := ⟨n - 1, by omega⟩
    obtain ⟨k, k', m, hnext, hcolon, hspells, hrest⟩ := nextKey_cons hl
    have hstops : Stops m := Listed.stops .object hrest
    rw [readMembers_known hnext hcolon hfind hset, hread k' m hspells hstops, ite_bind]
    dsimp only
    rw [ih hrest (by omega), ← ite_and, levelsNamed, if_pos (isNamed_of_find? hfind)]
    simp only [Nat.max_le]
  | @unknown key v draft last entries hfind h ih =>
    rw [List.length_cons] at hn
    obtain ⟨n, rfl⟩ : ∃ m, n = m + 1 := ⟨n - 1, by omega⟩
    obtain ⟨k, k', m, hnext, hcolon, hspells, hrest⟩ := nextKey_cons hl
    have hstops : Stops m := Listed.stops .object hrest
    rw [readMembers_unknown hnext hcolon hfind, skipValue_of_spells hspells hstops, ok_bind,
      ih hrest (by omega), levelsNamed, not_isNamed_of_find? hfind]
    rfl

/-- The entries of an object can stand in any order. If no field is set twice, and every field
fills its gap in the draft whatever other fields are missing, the entries complete the draft
in which all of their fields are missing. -/
theorem takes_of_missing {fields : List (Field σ)} {missing : List (Option String) → σ}
    {entries : List (Option String × Value)} (hkeys : ∀ e ∈ entries, e.1.isSome = true)
    (hnodup : ((entries.map Prod.fst).filter (isNamed (fields.map Field.name))).Nodup)
    (hstep : ∀ key v, (some key, v) ∈ entries → ∀ field,
      fields.find? (·.name == key) = some field → ∀ keys, some key ∉ keys →
        field.isSet (missing (some key :: keys)) = false ∧
        ReadsAs names levels (field.read (missing (some key :: keys))) v (missing keys)) :
    Takes names levels fields
      (missing ((entries.map Prod.fst).filter (isNamed (fields.map Field.name)))) entries
      (missing []) := by
  induction entries with
  | nil => exact .done _
  | cons e entries ih =>
    obtain ⟨key, v⟩ := e
    obtain ⟨key, rfl⟩ := Option.isSome_iff_exists.mp (hkeys (key, v) List.mem_cons_self)
    have hrest := ih (fun e he => hkeys e (List.mem_cons_of_mem _ he))
    have hstep' := fun key' v' hmem => hstep key' v' (List.mem_cons_of_mem (some key, v) hmem)
    rw [List.map_cons] at hnodup ⊢
    cases hfind : fields.find? (·.name == key) with
    | none =>
      have hnamed := Bool.eq_false_iff.mp (not_isNamed_of_find? hfind)
      rw [List.filter_cons_of_neg hnamed] at hnodup ⊢
      exact .unknown v hfind (hrest hnodup hstep')
    | some field =>
      rw [List.filter_cons_of_pos (isNamed_of_find? hfind)] at hnodup ⊢
      obtain ⟨hnew, hnodup⟩ := List.nodup_cons.mp hnodup
      obtain ⟨hset, hread⟩ := hstep key v List.mem_cons_self field hfind _ hnew
      exact .field hfind hset hread (hrest hnodup hstep')

/-- The items of an array go into a draft by their positions. -/
inductive TakesInOrder (names : List String) (levels : Nat) :
    List (Field σ) → σ → List Value → σ → Prop
  | done (fields : List (Field σ)) (draft : σ) : TakesInOrder names levels fields draft [] draft
  | field {field : Field σ} {fields : List (Field σ)} {v : Value} {vs : List Value}
      {draft next last : σ} (hread : ReadsAs names levels (field.read draft) v next)
      (h : TakesInOrder names levels fields next vs last) :
      TakesInOrder names levels (field :: fields) draft (v :: vs) last

theorem readPositions_listed {fields : List (Field σ)} {draft last : σ} {vs : List Value}
    (h : TakesInOrder names levels fields draft vs last) {first : Bool} {l r : List Char}
    (hl : Listed ']' Spells first vs l r) (count : Nat) :
    readPositions fields first count draft l =
      if levelsAll names vs ≤ levels then .ok ((last, count + vs.length), r)
      else .error .malformed := by
  induction h generalizing first l count with
  | done fields draft =>
    rw [levelsAll, if_pos (Nat.zero_le _)]
    cases fields with
    | nil =>
      -- no field is left, and only the bracket may follow
      cases hl with
      | close hl =>
        rw [readPositions, hl.skipSpace_eq rfl]
        rfl
    | cons field fields =>
      rw [readPositions, nextItem_nil hl]
      rfl
  | @field field fields v vs draft next last hread h ih =>
    obtain ⟨k, m, hnext, hspells, hrest⟩ := nextItem_cons hl
    have hstops : Stops m := Listed.stops .array hrest
    have hcount : count + 1 + vs.length = count + (v :: vs).length := by
      rw [List.length_cons]
      omega
    rw [readPositions, hnext, ok_bind]
    dsimp only
    rw [if_pos rfl, hread k m hspells hstops, ite_bind]
    dsimp only
    rw [ih hrest, ← ite_and, levelsAll, hcount]
    simp only [Nat.max_le]

section Record

variable {r : Record σ α} {draft : σ} {a : α}

theorem readRecord_spaced {l k : List Char} {c : Char} (h : Spaced l (c :: k))
    (hc : isSpace c = false) : readRecord levels r l = readRecord levels r (c :: k) := by
  rw [readRecord, readRecord, h.skipSpace_eq hc, (Spaced.refl (c :: k)).skipSpace_eq hc]

/-- A record is read from an object whose entries make up a draft that can be completed. -/
theorem readRecord_object {entries : List (Option String × Value)}
    (h : Takes (r.fields.map Field.name) levels r.fields r.empty entries draft)
    (hfinish : r.finish draft = .ok a) :
    ReadsAs (r.fields.map Field.name) (levels + 1) (readRecord (levels + 1) r)
      (.object entries) a := by
  intro l rest hl _
  cases hl with
  | @object _ _ k _ hl hentries =>
    have hsteps : entries.length < k.length + 1 := by
      have hlength := hentries.length_lt fun e _ l r he => he.length_lt fun l r hv => hv.length_lt
      omega
    have hmembers := readMembers_listed h hentries hsteps
    rw [readRecord_spaced hl rfl, Value.levels]
    by_cases hfits : levelsNamed (r.fields.map Field.name) entries ≤ levels
    · rw [if_pos hfits] at hmembers
      rw [if_pos (by omega), readRecord_of_members hmembers hfinish]
    · rw [if_neg hfits] at hmembers
      rw [if_neg (by omega), readRecord_of_members_error hmembers]

/-- A record is read from an array of its fields by position. -/
theorem readRecord_array {vs : List Value}
    (h : TakesInOrder names levels r.fields r.empty vs draft)
    (hfinish : r.finish draft = .ok a) :
    ReadsAs names (levels + 1) (readRecord (levels + 1) r) (.array vs) a := by
  intro l rest hl _
  cases hl with
  | @array _ _ k _ hl hitems =>
    have hpositions := readPositions_listed h hitems 0
    rw [readRecord_spaced hl rfl, Value.levels]
    by_cases hfits : levelsAll names vs ≤ levels
    · rw [if_pos hfits] at hpositions
      rw [if_pos (by omega), readRecord_of_positions hpositions hfinish]
    · rw [if_neg hfits] at hpositions
      rw [if_neg (by omega), readRecord_of_positions_error hpositions]

/-- Without a level left no record can be opened. -/
theorem readRecord_zero {v : Value} (hv : v.levels names ≠ 0) :
    ReadsAs names 0 (readRecord 0 r) v a := by
  intro l rest hl _
  rw [if_neg (by omega)]
  cases hl with
  | array hl hitems =>
    rw [readRecord, hl.skipSpace_eq rfl]
    rfl
  | object hl hentries =>
    rw [readRecord, hl.skipSpace_eq rfl]
    rfl
  | _ => exact absurd (by rw [Value.levels] <;> simp) hv

end Record

theorem readString_reads (expected s : String) :
    ReadsAs names levels (readString expected) (.text (some s)) s := by
  intro l r hl _
  cases hl with
  | text hl hs =>
    cases hs with
    | text h =>
      rw [readString, hl.skipSpace_eq rfl, Value.levels, if_pos (Nat.zero_le _)]
      · exact readText_of_charsText h
      all_goals simp

section Name

variable {known : List (String × α)} {name : String} {a : α}

theorem findName_eq_ok (h : known.lookup name = some a) : findName known name = .ok a := by
  rw [findName, h]

theorem readName_text (h : known.lookup name = some a) :
    ReadsAs names levels (readName levels known) (.text (some name)) a := by
  intro l r hl _
  cases hl with
  | text hl hs =>
    cases hs with
    | text hs =>
      unfold readName
      simp [hl.skipSpace_eq rfl, readText_of_charsText hs, findName_eq_ok h, Value.levels]

theorem readNull_of_spells (expected : String) {l r : List Char} (h : Spells .null l r) :
    readNull expected l = .ok r := by
  cases h with
  | null h =>
    rw [readNull, h.skipSpace_eq rfl]
    rfl

/-- A name may also be the only key of an object, with nothing for its value. -/
theorem readName_entry (h : known.lookup name = some a) :
    ReadsAs names levels (readName levels known) (.object [(some name, .null)]) a := by
  intro l r hl _
  have hlevels : (Value.object [(some name, .null)]).levels names = 1 := by
    simp [Value.levels, levelsNamed]
  rw [hlevels]
  cases hl with
  | object hl hentries =>
    cases hentries with
    | first hentry hrest =>
      cases hentry with
      | entry quote hkey colon hv =>
        cases hrest with
        | close hclose =>
          have hread := readKey_of_stringText quote hkey
          have hcolon := passColon_of_spaced colon
          have hnull := readNull_of_spells "unit" hv
          unfold readName
          by_cases hzero : levels = 0
          · simp [hl.skipSpace_eq rfl, hzero]
          · have hone : 1 ≤ levels := Nat.one_le_iff_ne_zero.mpr hzero
            simp [hl.skipSpace_eq rfl, hzero, hone, hread, findName_eq_ok h, hcolon, hnull,
              hclose.skipSpace_eq rfl]

end Name

/-- A text that writes nothing but the value is read as a whole. -/
theorem parse_document {reader : Reader β} {v : Value} {b : β}
    (h : ReadsAs names levels reader v b) {text : String} (htext : v.Document text) :
    parse reader text = if v.levels names ≤ levels then .ok b else .error .malformed := by
  obtain ⟨rest, hspells, hrest⟩ := htext
  rw [parse, h text.toList rest hspells (hrest.stops stops_nil), ite_bind]
  simp [hrest.skipSpace_nil]

end Readers

end ODataQuery.Json
