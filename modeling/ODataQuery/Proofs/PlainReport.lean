import ODataQuery.Program.Report
import ODataQuery.Proofs.Placeholder

/-! The plain text of a compiled filter, read back. Values are printed without any escape, so
a value may look like the end of its own line; still the lines can be told apart if nothing
printed breaks a line, and a line is taken apart at the last bracket it opens. -/
namespace ODataQuery

/-- A text is split at the last place where the character stands. -/
theorem split_at_last {c : Char} {x y u v : List Char} (hu : c ∉ u) (hv : c ∉ v)
    (h : x ++ c :: u = y ++ c :: v) : x = y ∧ u = v := by
  -- if one split were further to the right, the character would stand behind the other
  have key {x y u v : List Char} (hu : c ∉ u) (as : List Char) (hy : y = x ++ as)
      (has : c :: u = as ++ c :: v) : x = y ∧ u = v := by
    cases as with
    | nil =>
      cases has
      exact ⟨(hy.trans (List.append_nil x)).symm, rfl⟩
    | cons a as =>
      obtain ⟨-, rfl⟩ := List.cons.inj has
      exact absurd (by simp) hu
  rcases List.append_eq_append_iff.mp h with ⟨as, hy, has⟩ | ⟨as, hx, has⟩
  · exact key hu as hy has
  · obtain ⟨hyx, hvu⟩ := key hv as hx has
    exact ⟨hyx.symm, hvu.symm⟩

/-- The name of a kind neither opens a bracket nor ends a line. -/
theorem Kind.name_plain (k : Kind) : '(' ∉ k.name.toList ∧ '\n' ∉ k.name.toList := by
  have key : ∀ k ∈ known, '(' ∉ k.name.toList ∧ '\n' ∉ k.name.toList := by decide +kernel
  exact key k (mem_known k)

/-- The line that lists a parameter. -/
def Param.line (number : Nat) (p : Param) : String :=
  placeholder number ++ " = " ++ p.value ++ " (" ++ p.kind.name ++ ")"

theorem paramLines_cons (number : Nat) (p : Param) (ps : List Param) :
    paramLines number (p :: ps) = p.line number :: paramLines (number + 1) ps := rfl

theorem length_paramLines (number : Nat) (ps : List Param) :
    (paramLines number ps).length = ps.length := by
  induction ps generalizing number with
  | nil => rfl
  | cons p ps ih => rw [paramLines_cons, List.length_cons, List.length_cons, ih]

theorem Param.toList_line (number : Nat) (p : Param) :
    (p.line number).toList = ((placeholder number).toList ++ [' ', '=', ' ']) ++
      ((p.value.toList ++ [' ']) ++ '(' :: (p.kind.name.toList ++ [')'])) := by
  simp [line]

/-- Two lines of the same number list the same parameter, whatever the values look like. -/
theorem Param.line_injective {number : Nat} {p q : Param} (h : p.line number = q.line number) :
    p = q := by
  have hchars := congrArg String.toList h
  rw [toList_line, toList_line, List.append_cancel_left_eq] at hchars
  -- the kind stands behind the last opening bracket of its line
  have hlast (k : Kind) : '(' ∉ k.name.toList ++ [')'] := by
    simp [k.name_plain.1]
  obtain ⟨hvalue, hkind⟩ := split_at_last (hlast p.kind) (hlast q.kind) hchars
  have hkind : p.kind = q.kind :=
    Kind.name_injective (String.toList_inj.mp (List.append_cancel_right hkind))
  have hvalue : p.value = q.value :=
    String.toList_inj.mp (List.append_cancel_right hvalue)
  obtain ⟨kind, value⟩ := p
  obtain ⟨kind', value'⟩ := q
  cases hkind
  cases hvalue
  rfl

theorem paramLines_injective {number : Nat} {ps qs : List Param}
    (h : paramLines number ps = paramLines number qs) : ps = qs := by
  induction ps generalizing number qs with
  | nil =>
    cases qs with
    | nil => rfl
    | cons q qs => cases h
  | cons p ps ih =>
    cases qs with
    | nil => cases h
    | cons q qs =>
      rw [paramLines_cons, paramLines_cons] at h
      obtain ⟨hline, hrest⟩ := List.cons.inj h
      rw [Param.line_injective hline, ih hrest]

namespace Compiled

/-- Neither the fragment nor a value breaks a line. -/
structure SingleLine (c : Compiled) : Prop where
  fragment : '\n' ∉ c.fragment.toList
  value : ∀ p ∈ c.params, '\n' ∉ p.value.toList

/-- The lines of the plain text. -/
def lines (c : Compiled) : List (List Char) :=
  (c.fragment :: paramLines 1 c.params).map String.toList

theorem toList_plainText (c : Compiled) : c.plainText.toList = ['\n'].intercalate c.lines :=
  String.toList_intercalate

end Compiled

theorem Param.noBreak_line {number : Nat} {p : Param} (hp : '\n' ∉ p.value.toList) :
    '\n' ∉ (p.line number).toList := by
  have hdigits : '\n' ∉ Nat.toDigits 10 number := by
    intro hmem
    have := Nat.isDigit_of_mem_toDigits (by decide) (by decide) hmem
    cases this
  simp [toList_line, toList_placeholder, hdigits, hp, p.kind.name_plain.2]

theorem noBreak_paramLines {ps : List Param} (h : ∀ p ∈ ps, '\n' ∉ p.value.toList)
    (number : Nat) : ∀ l ∈ paramLines number ps, '\n' ∉ l.toList := by
  induction ps generalizing number with
  | nil =>
    intro l hl
    cases hl
  | cons p ps ih =>
    rw [paramLines_cons]
    intro l hl
    rcases List.mem_cons.mp hl with rfl | hl
    · exact Param.noBreak_line (h p List.mem_cons_self)
    · exact ih (fun q hq => h q (List.mem_cons_of_mem p hq)) (number + 1) l hl

namespace Compiled

theorem SingleLine.noBreak_lines {c : Compiled} (hc : c.SingleLine) :
    ∀ l ∈ c.lines, '\n' ∉ l := by
  intro l hl
  obtain ⟨line, hline, rfl⟩ := List.mem_map.mp hl
  rcases List.mem_cons.mp hline with rfl | hline
  · exact hc.fragment
  · exact noBreak_paramLines hc.value 1 line hline

/-- The lines are found again by splitting the text at its line feeds. -/
theorem SingleLine.splitOn_plainText {c : Compiled} (hc : c.SingleLine) :
    c.plainText.toList.splitOn '\n' = c.lines := by
  rw [toList_plainText]
  exact List.splitOn_intercalate '\n' hc.noBreak_lines (List.cons_ne_nil _ _)

theorem lines_injective {a b : Compiled} (h : a.lines = b.lines) : a = b := by
  have hlines : a.fragment :: paramLines 1 a.params = b.fragment :: paramLines 1 b.params :=
    List.map_injective_iff.mpr (fun _ _ h => String.toList_inj.mp h) h
  obtain ⟨hfragment, hparams⟩ := List.cons.inj hlines
  have hparams := paramLines_injective hparams
  obtain ⟨fragment, params⟩ := a
  obtain ⟨fragment', params'⟩ := b
  cases hfragment
  cases hparams
  rfl

end Compiled

/-- Lines without a line feed are joined by one less than there are lines. -/
theorem count_intercalate {c : Char} {l : List Char} {ls : List (List Char)}
    (h : ∀ x ∈ l :: ls, c ∉ x) : ([c].intercalate (l :: ls)).count c = ls.length := by
  induction ls generalizing l with
  | nil =>
    rw [List.intercalate_singleton]
    exact List.count_eq_zero.mpr (h l List.mem_cons_self)
  | cons m ls ih =>
    have hl : l.count c = 0 := List.count_eq_zero.mpr (h l List.mem_cons_self)
    have hrest := ih fun x hx => h x (List.mem_cons_of_mem l hx)
    rw [List.intercalate_cons_cons, List.count_append, List.count_append, hl, hrest]
    simp [Nat.add_comm]

/-- Two filters without line feeds in their data are printed as the same plain text only if
they are the same, and the text has one line feed for each parameter. -/
theorem plain_report_unambiguous {a b : Compiled} (ha : a.SingleLine) (hb : b.SingleLine) :
    (a.report .plain = b.report .plain → a = b) ∧
      (a.report .plain).toList.count '\n' = a.params.length := by
  constructor
  · intro h
    apply Compiled.lines_injective
    have hsplit : a.plainText.toList.splitOn '\n' = b.plainText.toList.splitOn '\n' :=
      congrArg (fun text : String => text.toList.splitOn '\n') h
    rwa [ha.splitOn_plainText, hb.splitOn_plainText] at hsplit
  · have hcount : (['\n'].intercalate a.lines).count '\n' = (paramLines 1 a.params).length :=
      (count_intercalate ha.noBreak_lines).trans (List.length_map _)
    rw [Compiled.report, Compiled.toList_plainText, hcount, length_paramLines]

theorem plain_report_unambiguous_line_in_value :
    (⟨"@p1", [⟨.literal .number, "1 (string)"⟩]⟩ : Compiled).SingleLine ∧
      (⟨"@p1", [⟨.literal .string, "1"⟩]⟩ : Compiled).SingleLine ∧
      (⟨"@p1", [⟨.literal .number, "1 (string)"⟩]⟩ : Compiled).report .plain ≠
        (⟨"@p1", [⟨.literal .string, "1"⟩]⟩ : Compiled).report .plain ∧
      ((⟨"@p1", [⟨.literal .number, "1 (string)"⟩]⟩ : Compiled).report .plain).toList.count
        '\n' = 1 := by
  have ha : (⟨"@p1", [⟨.literal .number, "1 (string)"⟩]⟩ : Compiled).SingleLine :=
    ⟨by decide +kernel, by decide +kernel⟩
  have hb : (⟨"@p1", [⟨.literal .string, "1"⟩]⟩ : Compiled).SingleLine :=
    ⟨by decide +kernel, by decide +kernel⟩
  obtain ⟨hsame, hcount⟩ := plain_report_unambiguous ha hb
  exact ⟨ha, hb, fun h => absurd (hsame h) (by decide), hcount⟩

end ODataQuery
