import ODataQuery.Proofs.JsonSkipping

/-! A JSON text writes one value only. Where a value ends is settled by the reader that passes
over it, since it is the same reader for every value. Inside the value, its first character
tells of which kind it is, and its parts are found one after the other. -/
namespace ODataQuery.Json

theorem StringText.unique {s s' : Option String} {l r r' : List Char} (h : StringText s l r)
    (h' : StringText s' l r') : s = s' ∧ r = r' := by
  have hskip := (skipText_of_anyChars h.anyChars).symm.trans (skipText_of_anyChars h'.anyChars)
  obtain rfl : r = r' := Except.ok.inj hskip
  refine ⟨?_, rfl⟩
  cases h with
  | text hs =>
    cases h' with
    | text hs' =>
      have hread := (readText_of_charsText hs).symm.trans (readText_of_charsText hs')
      cases hread
      rfl
    | broken _ hnone => exact absurd hs (hnone _)
  | broken _ hnone =>
    cases h' with
    | text hs' => exact absurd hs' (hnone _)
    | broken => rfl

/-- Nothing else than `x` can be read where `x` is written, if a number that ends there does
not go on. -/
def Determined {α : Type} (R : α → List Char → List Char → Prop) (x : α) : Prop :=
  ∀ y l r r', R x l r → R y l r' → Stops r → Stops r' → x = y ∧ r = r'

/-- The parts of a list are determined if each of them is and none begins with the closing
bracket. -/
theorem Listed.unique (bracket : Bracket) {α : Type} {R : α → List Char → List Char → Prop}
    (hlead : ∀ x l r, R x l r → ∃ c k, Spaced l (c :: k) ∧ isSpace c = false ∧
      c ≠ bracket.closing)
    {xs ys : List α} {first : Bool} {l r r' : List Char} (hR : ∀ x ∈ xs, Determined R x)
    (h : Listed bracket.closing R first xs l r) (h' : Listed bracket.closing R first ys l r') :
    xs = ys ∧ r = r' := by
  have hspace : isSpace bracket.closing = false := by cases bracket <;> rfl
  have hcomma : ',' ≠ bracket.closing := by cases bracket <;> decide
  induction h generalizing ys with
  | close hclose =>
    cases h' with
    | close hclose' => exact ⟨rfl, (hclose.unique hclose' hspace hspace).2⟩
    | first hy h' =>
      -- a part would begin where the list is closed
      obtain ⟨c, k, hl, hc, hne⟩ := hlead _ _ _ hy
      exact absurd (hl.unique hclose hc hspace).1 hne
    | next comma => exact absurd (comma.unique hclose rfl hspace).1 hcomma
  | @first x xs l m r hx h ih =>
    cases h' with
    | close hclose =>
      obtain ⟨c, k, hl, hc, hne⟩ := hlead _ _ _ hx
      exact absurd (hl.unique hclose hc hspace).1 hne
    | first hy h' =>
      obtain ⟨rfl, rfl⟩ := hR x List.mem_cons_self _ _ _ _ hx hy (stops bracket h)
        (stops bracket h')
      obtain ⟨rfl, rfl⟩ := ih (fun y hy => hR y (List.mem_cons_of_mem x hy)) h'
      exact ⟨rfl, rfl⟩
  | @next x xs l k m r comma hx h ih =>
    cases h' with
    | close hclose => exact absurd (comma.unique hclose rfl hspace).1 hcomma
    | next comma' hy h' =>
      obtain ⟨-, rfl⟩ := comma.unique comma' rfl rfl
      obtain ⟨rfl, rfl⟩ := hR x List.mem_cons_self _ _ _ _ hx hy (stops bracket h)
        (stops bracket h')
      obtain ⟨rfl, rfl⟩ := ih (fun y hy => hR y (List.mem_cons_of_mem x hy)) h'
      exact ⟨rfl, rfl⟩

theorem EntryText.determined {e : Option String × Value} (h : Determined Spells e.2) :
    Determined (EntryText Spells) e := by
  intro f l r r' he hf hr hr'
  cases he with
  | entry quote hkey colon hv =>
    cases hf with
    | entry quote' hkey' colon' hv' =>
      obtain ⟨-, rfl⟩ := quote.unique quote' rfl rfl
      obtain ⟨rfl, rfl⟩ := hkey.unique hkey'
      obtain ⟨-, rfl⟩ := colon.unique colon' rfl rfl
      obtain ⟨rfl, rfl⟩ := h _ _ _ _ hv hv' hr hr'
      exact ⟨rfl, rfl⟩

/-- Two values of one kind. The constants `null`, `true` and `false` are kinds of their own. -/
inductive SameKind : Value → Value → Prop
  | null : SameKind .null .null
  | bool (b : Bool) : SameKind (.bool b) (.bool b)
  | number (n n' : List Char) : SameKind (.number n) (.number n')
  | text (s s' : Option String) : SameKind (.text s) (.text s')
  | array (vs ws : List Value) : SameKind (.array vs) (.array ws)
  | object (es fs : List (Option String × Value)) : SameKind (.object es) (.object fs)

theorem sameKind_of_leads {v w : Value} {c : Char} (hv : v.leads c = true)
    (hw : w.leads c = true) : SameKind v w := by
  -- a boolean begins with a letter of its own, so its two values are told apart here
  rcases v with _ | (_ | _) | _ | _ | _ | _ <;> rcases w with _ | (_ | _) | _ | _ | _ | _ <;>
    first
    | constructor
    | simp_all [Value.leads]

theorem Spells.sameKind {v w : Value} {l r r' : List Char} (h : Spells v l r)
    (h' : Spells w l r') : SameKind v w := by
  obtain ⟨c, k, hl, hc, -⟩ := h.lead
  obtain ⟨c', k', hl', hc', -⟩ := h'.lead
  obtain ⟨rfl, -⟩ := hl.unique hl' (Value.isSpace_of_leads hc) (Value.isSpace_of_leads hc')
  exact sameKind_of_leads hc hc'

theorem Spells.lead_ne_closing (bracket : Bracket) {v : Value} {l r : List Char}
    (h : Spells v l r) : ∃ c k, Spaced l (c :: k) ∧ isSpace c = .false ∧ c ≠ bracket.closing := by
  obtain ⟨c, k, hl, hc, -⟩ := h.lead
  refine ⟨c, k, hl, Value.isSpace_of_leads hc, Value.ne_of_leads hc ?_⟩
  cases bracket <;> decide

theorem EntryText.lead_ne_closing {R : Value → List Char → List Char → Prop}
    {e : Option String × Value} {l r : List Char} (h : EntryText R e l r) :
    ∃ c k, Spaced l (c :: k) ∧ isSpace c = false ∧ c ≠ '}' := by
  cases h with
  | entry quote => exact ⟨_, _, quote, rfl, by decide⟩

/-- Since the rest behind a value is settled, only values with the same rest are compared. -/
theorem determined_of_sameKind {v : Value}
    (h : ∀ w l r, SameKind v w → Spells v l r → Spells w l r → v = w) : Determined Spells v := by
  intro w l r r' hv hw hr hr'
  have hskip := (skipValue_of_spells hv hr).symm.trans (skipValue_of_spells hw hr')
  obtain rfl : r = r' := Except.ok.inj hskip
  exact ⟨h w l r (hv.sameKind hw) hv hw, rfl⟩

theorem IsNumeral.eq_of_append {n n' l r : List Char} (hn : IsNumeral n) (hn' : IsNumeral n')
    (h : Spaced l (n ++ r)) (h' : Spaced l (n' ++ r)) : n = n' := by
  obtain ⟨c, cs, rfl, hc⟩ := hn.exists_cons
  obtain ⟨c', cs', rfl, hc'⟩ := hn'.exists_cons
  have hspace := Value.isSpace_of_leads (Value.leads_number [] hc)
  have hspace' := Value.isSpace_of_leads (Value.leads_number [] hc')
  obtain ⟨rfl, hcs⟩ := h.unique h' hspace hspace'
  rw [List.append_cancel_right hcs]

theorem Spells.determined (v : Value) : Determined Spells v := by
  induction v with
  | null =>
    refine determined_of_sameKind fun w l r hkind _ _ => ?_
    cases hkind
    rfl
  | bool b =>
    refine determined_of_sameKind fun w l r hkind _ _ => ?_
    cases hkind
    rfl
  | number numeral =>
    refine determined_of_sameKind fun w l r hkind h h' => ?_
    cases hkind
    cases h with
    | number h hn =>
      cases h' with
      | number h' hn' => rw [hn.eq_of_append hn' h h']
  | text s =>
    refine determined_of_sameKind fun w l r hkind h h' => ?_
    cases hkind
    cases h with
    | text h hs =>
      cases h' with
      | text h' hs' =>
        obtain ⟨-, rfl⟩ := h.unique h' rfl rfl
        rw [(hs.unique hs').1]
  | array items ih =>
    refine determined_of_sameKind fun w l r hkind h h' => ?_
    cases hkind
    cases h with
    | array h hitems =>
      cases h' with
      | array h' hitems' =>
        obtain ⟨-, rfl⟩ := h.unique h' rfl rfl
        have hlist := hitems.unique .array (fun _ _ _ hv => hv.lead_ne_closing .array) ih hitems'
        rw [hlist.1]
  | object entries ih =>
    refine determined_of_sameKind fun w l r hkind h h' => ?_
    cases hkind
    cases h with
    | object h hentries =>
      cases h' with
      | object h' hentries' =>
        obtain ⟨-, rfl⟩ := h.unique h' rfl rfl
        have hlist := hentries.unique .object (fun _ _ _ he => he.lead_ne_closing)
          (fun e he => EntryText.determined (ih e he)) hentries'
        rw [hlist.1]

theorem Value.Document.unique {v w : Value} {text : String} (hv : v.Document text)
    (hw : w.Document text) : v = w := by
  obtain ⟨r, hspells, hr⟩ := hv
  obtain ⟨r', hspells', hr'⟩ := hw
  have hnil : Stops [] := fun c hc => absurd hc (Option.not_mem_none c)
  exact (Spells.determined v w _ r r' hspells hspells' (hr.stops hnil) (hr'.stops hnil)).1

end ODataQuery.Json
