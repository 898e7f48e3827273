import ODataQuery.Json.Codec
import ODataQuery.Proofs.JsonRecords
import ODataQuery.Proofs.JsonWriting
import Mathlib.Data.List.Perm.Subperm

/-! All JSON texts of options. An object holds both fields, one of them or none, in any order and
with other keys between them, and a field that is left out has its default. A limit is any
64-bit word, written in decimal digits. The form without white space is one of these texts, so
options are read back as they were written. -/
namespace ODataQuery

/-- The options with those fields at their defaults that are not among the keys. -/
def Options.restrictedTo (o : Options) (keys : List (Option String)) : Options where
  literals := if keys.contains (some "literals") then o.literals else ({} : Options).literals
  maxDepth := if keys.contains (some "max_depth") then o.maxDepth else ({} : Options).maxDepth

namespace Json

open Value

/-- The keys of the fields of options. -/
def optionNames : List String := ["literals", "max_depth"]

/-- A style is described by its name, or by an object that maps its name to `null`. -/
inductive DescribesStyle : Value → LiteralStyle → Prop
  | name (s : LiteralStyle) : DescribesStyle (.text (some s.name)) s
  | entry (s : LiteralStyle) : DescribesStyle (.object [(some s.name, .null)]) s

/-- A limit is described by its decimal digits, and no limit by `null`. -/
def describedLimit : Option UInt64 → Value
  | none => .null
  | some limit => .number (Nat.toDigits 10 limit.toNat)

/-- The entries for both fields of options. -/
def optionFields (style : Value) (limit : Option UInt64) : List (Option String × Value) :=
  [(some "literals", style), (some "max_depth", describedLimit limit)]

/-- An object with these entries holds both fields of the options, one of them or none. Every
key has a text, and the fields are found among the keys in either order; what stands behind a
key that names no field is free. -/
inductive HoldsFields : List (Option String × Value) → Options → Prop
  | entries {entries : List (Option String × Value)} {style : Value} {o : Options}
      (hstyle : DescribesStyle style o.literals) (hkeys : ∀ e ∈ entries, e.1.isSome = true)
      (hfields : (entries.filter fun e => isNamed optionNames e.1).Subperm
        (optionFields style o.maxDepth)) : HoldsFields entries o

/-! ## Limits -/

/-- Digits that are followed by no more of a number are read as a whole number. -/
theorem readNumeral_digits {ds r : List Char} (hds : IsDigits ds)
    (hzero : ds.head? = some '0' → ds = ['0']) (hr : Stops r) :
    readNumeral (ds ++ r) = .ok (⟨ds, [], none⟩, r) := by
  have hdigits := readDigits_append hds fun c hc => (hr c hc).1
  have hfraction := readFraction_of_ne fun c hc => (hr c hc).2.1
  have hexponent := readExponent_of_stops hr
  have hplain : ¬(ds.head? = some '0' ∧ ds ≠ ['0']) := fun h => h.2 (hzero h.1)
  rw [readNumeral, hdigits]
  simp [hplain, hfraction, hexponent]

theorem ne_of_isDigit {c d : Char} (hd : d.isDigit = true) (hc : c.isDigit = false) : d ≠ c := by
  rintro rfl
  exact absurd hd (Bool.eq_false_iff.mp hc)

theorem exists_toDigits_cons (n : Nat) :
    ∃ d ds, Nat.toDigits 10 n = d :: ds ∧ d.isDigit = true := by
  obtain ⟨hne, hdigits⟩ := isDigits_toDigits n
  obtain ⟨d, ds, hds⟩ := List.exists_cons_of_ne_nil hne
  exact ⟨d, ds, hds, hdigits d (by simp [hds])⟩

/-- A word is read from its decimal digits as an integer, however large it is. -/
theorem readNumber_word (n : UInt64) {r : List Char} (hr : Stops r) :
    readNumber (Nat.toDigits 10 n.toNat ++ r) = .ok (.integer n.toNat, r) := by
  have hnumeral := readNumeral_digits (isDigits_toDigits n.toNat) toDigits_of_head_zero hr
  have hnumber : (Numeral.mk (Nat.toDigits 10 n.toNat) [] none).toNumber false =
      .ok (.integer n.toNat) := by
    have hvalue : natOfDigits (Nat.toDigits 10 n.toNat) = n.toNat :=
      Nat.ofDigitChars_ten_toDigits
    have hword : n.toNat < UInt64.size := n.toNat_lt
    simp [Numeral.toNumber, Numeral.isInteger, hvalue, hword]
  obtain ⟨d, ds, hds, hdigit⟩ := exists_toDigits_cons n.toNat
  have hsign : d ≠ '-' := ne_of_isDigit hdigit rfl
  rw [hds] at hnumeral hnumber ⊢
  unfold readNumber
  split
  · exact absurd (List.cons.inj ‹_›).1 hsign
  · rw [hnumeral, ok_bind]
    dsimp only
    rw [hnumber]
    rfl

/-- A limit is found wherever it is described. -/
theorem readLimit_reads {names : List String} {levels : Nat} (limit : Option UInt64) :
    ReadsAs names levels readLimit (describedLimit limit) limit := by
  intro l r hl hr
  cases limit with
  | none =>
    cases hl with
    | null hl =>
      rw [readLimit, hl.skipSpace_eq rfl, describedLimit, Value.levels, if_pos (Nat.zero_le _)]
      · rfl
      all_goals simp
  | some n =>
    rw [describedLimit] at hl ⊢
    cases hl with
    | number hl _ =>
      have hread := readNumber_word n hr
      obtain ⟨d, ds, hds, hdigit⟩ := exists_toDigits_cons n.toNat
      have hspace : isSpace d = false := isSpace_of_leads (leads_number (d :: ds) (.inr hdigit))
      have hnull : d ≠ 'n' := ne_of_isDigit hdigit rfl
      rw [hds, List.cons_append] at hl hread
      unfold readLimit
      rw [hl.skipSpace_eq hspace]
      simp [hdigit, hread, Value.levels]

/-! ## Styles -/

theorem lookup_styleNames (s : LiteralStyle) : styleNames.lookup s.name = some s := by
  cases s <;> decide

theorem readName_describesStyle {names : List String} {style : Value} {s : LiteralStyle}
    (h : DescribesStyle style s) (levels : Nat) :
    ReadsAs names levels (readName levels styleNames) style s := by
  cases h with
  | name => exact readName_text (lookup_styleNames s)
  | entry => exact readName_entry (lookup_styleNames s)

/-! ## Records -/

namespace OptionsDraft

/-- The draft of options in which the fields of the given keys are still missing. -/
def without (draft : OptionsDraft) (keys : List (Option String)) : OptionsDraft where
  literals := if keys.contains (some "literals") then none else draft.literals
  maxDepth := if keys.contains (some "max_depth") then none else draft.maxDepth

def setLiterals (draft : OptionsDraft) (s : LiteralStyle) : OptionsDraft :=
  { draft with literals := some s }

def setMaxDepth (draft : OptionsDraft) (limit : Option UInt64) : OptionsDraft :=
  { draft with maxDepth := some limit }

end OptionsDraft

/-- The draft that entries with the given keys make up. A field that is not among them stays
unset. -/
def givenDraft (o : Options) (given : List (Option String)) : OptionsDraft where
  literals := if given.contains (some "literals") then some o.literals else none
  maxDepth := if given.contains (some "max_depth") then some o.maxDepth else none

section Record

variable {o : Options} {levels : Nat} {style : Value} {entries : List (Option String × Value)}

/-- Each field of options fills its gap in the draft. -/
theorem optionsRecord_fills (hstyle : DescribesStyle style o.literals)
    {given : List (Option String)} {key : String} {v : Value}
    (hmem : (some key, v) ∈ optionFields style o.maxDepth) (hgiven : some key ∈ given)
    {field : Field OptionsDraft}
    (hfind : (optionsRecord levels).fields.find? (·.name == key) = some field)
    {keys : List (Option String)} (hnew : some key ∉ keys) :
    field.isSet ((givenDraft o given).without (some key :: keys)) = false ∧
      ReadsAs optionNames levels (field.read ((givenDraft o given).without (some key :: keys))) v
        ((givenDraft o given).without keys) := by
  simp only [optionFields, List.mem_cons, Prod.mk.injEq, Option.some.injEq, List.not_mem_nil,
    or_false] at hmem
  rcases hmem with ⟨rfl, rfl⟩ | ⟨rfl, rfl⟩
  · cases hfind
    have hfill : (givenDraft o given).without keys =
        ((givenDraft o given).without (some "literals" :: keys)).setLiterals o.literals := by
      simp [OptionsDraft.without, OptionsDraft.setLiterals, givenDraft, hnew, hgiven]
    rw [hfill]
    exact ⟨by simp [OptionsDraft.without],
      (readName_describesStyle hstyle levels).map (OptionsDraft.setLiterals _)⟩
  · cases hfind
    have hfill : (givenDraft o given).without keys =
        ((givenDraft o given).without (some "max_depth" :: keys)).setMaxDepth o.maxDepth := by
      simp [OptionsDraft.without, OptionsDraft.setMaxDepth, givenDraft, hnew, hgiven]
    rw [hfill]
    exact ⟨by simp [OptionsDraft.without],
      (readLimit_reads o.maxDepth).map (OptionsDraft.setMaxDepth _)⟩

/-- The entries set the fields they name, each of them once. -/
theorem takes_options (h : HoldsFields entries o) :
    Takes optionNames levels (optionsRecord levels).fields {} entries
      (givenDraft o (entries.map Prod.fst)) := by
  obtain @⟨style, _, hstyle, hkeys, hfields⟩ := h
  have hnodup : ((entries.map Prod.fst).filter (isNamed optionNames)).Nodup := by
    have hboth : ((optionFields style o.maxDepth).map Prod.fst).Nodup := by
      simp [optionFields]
    obtain ⟨fields, hperm, hsublist⟩ := hfields
    rw [List.filter_map]
    exact (hperm.map Prod.fst).nodup_iff.mp ((hsublist.map Prod.fst).nodup hboth)
  -- what is given is missing at first, and what is not given stays unset
  have hempty : (givenDraft o (entries.map Prod.fst)).without
      ((entries.map Prod.fst).filter (isNamed optionNames)) = {} := by
    have hsame (name : String) (hname : isNamed optionNames (some name) = true) :
        ((entries.map Prod.fst).filter (isNamed optionNames)).contains (some name) =
          (entries.map Prod.fst).contains (some name) := by
      rw [Bool.eq_iff_iff, List.contains_iff_mem, List.contains_iff_mem, List.mem_filter]
      exact and_iff_left hname
    simp only [OptionsDraft.without, givenDraft, hsame "literals" rfl, hsame "max_depth" rfl]
    congr 1 <;> split <;> rfl
  have hwhole : (givenDraft o (entries.map Prod.fst)).without [] =
      givenDraft o (entries.map Prod.fst) := by
    simp [OptionsDraft.without]
  rw [← hempty, ← hwhole]
  refine takes_of_missing hkeys hnodup ?_
  intro key v hmem field hfind keys hnew
  have hnamed : isNamed optionNames (some key) = true := isNamed_of_find? hfind
  have hfield : (some key, v) ∈ optionFields style o.maxDepth :=
    hfields.subset (List.mem_filter.mpr ⟨hmem, hnamed⟩)
  have hgiven : some key ∈ entries.map Prod.fst := List.mem_map.mpr ⟨_, hmem, rfl⟩
  exact optionsRecord_fills hstyle hfield hgiven hfind hnew

/-- What a draft leaves unset has its default in the options. -/
theorem finish_givenDraft (given : List (Option String)) :
    (optionsRecord levels).finish (givenDraft o given) = .ok (o.restrictedTo given) := by
  simp only [optionsRecord, givenDraft, Options.restrictedTo]
  congr 2 <;> split <;> rfl

end Record

theorem levelsNamed_le {names : List String} {n : Nat} {entries : List (Option String × Value)}
    (h : ∀ e ∈ entries, isNamed names e.1 = true → e.2.levels names ≤ n) :
    levelsNamed names entries ≤ n := by
  induction entries with
  | nil => exact Nat.zero_le n
  | cons e entries ih =>
    obtain ⟨key, v⟩ := e
    have hrest := ih fun e he => h e (List.mem_cons_of_mem _ he)
    rw [levelsNamed]
    split
    · exact Nat.max_le.mpr ⟨h (key, v) List.mem_cons_self ‹_›, hrest⟩
    · exact hrest

/-- Only the brackets of a style stand within those of options. -/
theorem levels_options {o : Options} {entries : List (Option String × Value)}
    (h : HoldsFields entries o) : (Value.object entries).levels optionNames ≤ 2 := by
  obtain ⟨hstyle, -, hfields⟩ := h
  have hone : levelsNamed optionNames entries ≤ 1 := by
    apply levelsNamed_le
    intro e he hnamed
    have hmem := hfields.subset (List.mem_filter.mpr ⟨he, hnamed⟩)
    simp only [optionFields, List.mem_cons, List.not_mem_nil, or_false] at hmem
    rcases hmem with rfl | rfl
    · cases hstyle <;> simp [Value.levels, levelsNamed]
    · cases o.maxDepth <;> simp [describedLimit, Value.levels]
  rw [Value.levels]
  omega

end Json

open Json

theorem ofJson_options {o : Options} {entries : List (Option String × Value)}
    (h : HoldsFields entries o) {text : String} (htext : (Value.object entries).Document text) :
    Options.ofJson text = .ok (o.restrictedTo (entries.map Prod.fst)) := by
  have hreads := readRecord_object (r := optionsRecord (maxLevels - 1))
    (takes_options h) (finish_givenDraft _)
  have hlevels := levels_options h
  have hparse := parse_document hreads htext
  rw [Options.ofJson]
  refine hparse.trans (if_pos ?_)
  exact Nat.le_trans hlevels (by decide)

/-- Options are read back from the text without white space, whatever the limit is. They are
also read from every object that holds both of their fields, one of them or none, in either
order and with other keys before, between and behind them; the fields it leaves out are at
their defaults. -/
theorem options_read_back (o : Options) :
    Options.ofJson o.toJson.compact = .ok o ∧
    ∀ {entries : List (Option String × Value)} {text : String}, HoldsFields entries o →
      (Value.object entries).Document text →
        Options.ofJson text = .ok (o.restrictedTo (entries.map Prod.fst)) := by
  refine ⟨?_, fun h htext => ofJson_options h htext⟩
  -- the written text has both fields, in the order of their names
  have htext := document_compact o.toJson
  have hvalue : Value.ofJson o.toJson =
      .object (optionFields (.text (some o.literals.name)) o.maxDepth) := by
    obtain ⟨literals, maxDepth⟩ := o
    cases maxDepth <;> rfl
  have hfields : HoldsFields (optionFields (.text (some o.literals.name)) o.maxDepth) o :=
    .entries (.name o.literals) (by simp [optionFields]) (List.Subperm.refl _)
  rw [hvalue] at htext
  have hread := ofJson_options hfields htext
  simpa [optionFields, Options.restrictedTo] using hread

theorem options_read_back_largest_limit :
    Options.ofJson "\x7b\"literals\":\"bind\",\"max_depth\":18446744073709551615\x7d" =
        .ok ⟨.bind, some 18446744073709551615⟩ ∧
      Options.ofJson "\x7b\"x\":[true],\"max_depth\" : 18446744073709551615,\"x\":null\x7d" =
        .ok ⟨.inline, some 18446744073709551615⟩ := by
  -- the limit stays a variable, so that its digits are computed only once
  obtain ⟨n, hn⟩ : ∃ n : UInt64, n = 18446744073709551615 := ⟨_, rfl⟩
  have hdigits : Nat.toDigits 10 n.toNat = "18446744073709551615".toList := by
    rw [hn]
    decide +kernel
  have hkey (s : String) (h : s.toList.all (IsPlain ·) = true) (r : List Char) :
      StringText (some s) (s.toList ++ '"' :: r) r := .text (charsText_plain h r)
  have hunknown (r : List Char) : Spells (.array [.bool true]) ("[true]".toList ++ r) r :=
    .array (.refl _) (.first (.true (.refl _)) (.close (.refl _)))
  have hlimit (r : List Char) :
      Spells (describedLimit (some n)) (" 18446744073709551615".toList ++ r) r := by
    have hspaced : Spaced (" 18446744073709551615".toList ++ r) (Nat.toDigits 10 n.toNat ++ r) := by
      rw [hdigits]
      exact .cons rfl (.refl _)
    exact .number hspaced (isNumeral_toDigits _)
  obtain ⟨hcompact, hobject⟩ := options_read_back ⟨.bind, some n⟩
  rw [← hn]
  refine ⟨?_, ?_⟩
  · have hwritten : (Options.mk .bind (some n)).toJson.compact =
        "\x7b\"literals\":\"bind\",\"max_depth\":18446744073709551615\x7d" := by
      rw [hn]
      decide +kernel
    rwa [hwritten] at hcompact
  · refine @hobject [(some "x", .array [.bool true]),
      (some "max_depth", describedLimit (some n)), (some "x", .null)] _ ?_ ⟨[], ?_, .refl _⟩
    · exact .entries (.name .bind) (by simp) (List.sublist_cons_self _ _).subperm
    · rw [String.toList_ofList]
      refine .object (.refl _) ?_
      refine .first (.entry (.refl _) (hkey "x" (by decide) _) (.refl _) (hunknown _)) ?_
      refine .next (.refl _)
        (.entry (.refl _) (hkey "max_depth" (by decide) _) (.cons rfl (.refl _)) (hlimit _)) ?_
      exact .next (.refl _)
        (.entry (.refl _) (hkey "x" (by decide) _) (.refl _) (.null (.refl _))) (.close (.refl _))

end ODataQuery
