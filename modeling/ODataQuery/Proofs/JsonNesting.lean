import ODataQuery.Proofs.JsonTrees

/-! How deep a tree can be that is read from any JSON text. Whatever spelling a text chooses
for its nodes, a child is only read after two more brackets have been opened, so the levels
that may be taken bound the depth of what is read. -/
namespace ODataQuery

open FilterTree

namespace Json

section Yields

variable {α β γ : Type} {P : α → Prop} {Q : β → Prop}

/-- Whatever value is read has the property. -/
def Yields (x : Except Problem (α × List Char)) (P : α → Prop) : Prop :=
  ∀ a cs, x = .ok (a, cs) → P a

theorem yields_ok {a : α} (h : P a) (cs : List Char) : Yields (.ok (a, cs)) P := by
  rintro b ds ⟨⟩
  exact h

theorem yields_error (p : Problem) (P : α → Prop) : Yields (.error p) P := by
  rintro b ds ⟨⟩

theorem Yields.bind {x : Except Problem (α × List Char)}
    {f : α × List Char → Except Problem (β × List Char)} (hx : Yields x P)
    (hf : ∀ a cs, P a → Yields (f (a, cs)) Q) : Yields (x >>= f) Q := by
  cases x with
  | error p => exact yields_error p Q
  | ok r => exact hf r.1 r.2 (hx r.1 r.2 rfl)

/-- Nothing has to be known of the first part. -/
theorem yields_bind {x : Except Problem γ} {f : γ → Except Problem (β × List Char)}
    (hf : ∀ c, Yields (f c) Q) : Yields (x >>= f) Q := by
  cases x with
  | error p => exact yields_error p Q
  | ok c => exact hf c

end Yields

theorem readItems_yields {α : Type} {item : Reader α} {P : α → Prop}
    (h : ∀ cs, Yields (item cs) P) (n : Nat) (first : Bool) (cs : List Char) :
    Yields (readItems item n first cs) fun as => ∀ a ∈ as, P a := by
  induction n generalizing first cs with
  | zero => exact yields_error _ _
  | succ n ih =>
    rw [readItems]
    refine yields_bind ?_
    rintro ⟨more, cs⟩
    cases more with
    | false => exact yields_ok (fun a ha => absurd ha List.not_mem_nil) cs
    | true =>
      refine (h cs).bind ?_
      intro a cs ha
      refine (ih false cs).bind ?_
      intro as cs has
      exact yields_ok (List.forall_mem_cons.mpr ⟨ha, has⟩) cs

theorem readSequence_yields {α : Type} {item : Reader α} {P : α → Prop}
    (h : ∀ cs, Yields (item cs) P) (levels : Nat) (cs : List Char) :
    Yields (readSequence levels item cs) fun as => ∀ a ∈ as, P a := by
  unfold readSequence
  split
  · split
    · exact yields_error _ _
    · exact readItems_yields h _ true _
  · exact yields_error _ _

section Record

variable {σ α : Type} {I : σ → Prop}

/-- The field keeps what holds of the draft. -/
def Field.Keeps (I : σ → Prop) (field : Field σ) : Prop :=
  ∀ draft cs, I draft → Yields (field.read draft cs) I

theorem readMembers_yields {fields : List (Field σ)} (h : ∀ field ∈ fields, field.Keeps I)
    (n : Nat) (first : Bool) {draft : σ} (hdraft : I draft) (cs : List Char) :
    Yields (readMembers fields n first draft cs) I := by
  induction n generalizing first draft cs with
  | zero => exact yields_error _ _
  | succ n ih =>
    rw [readMembers]
    refine yields_bind ?_
    rintro ⟨key, cs⟩
    cases key with
    | none => exact yields_ok hdraft cs
    | some key =>
      dsimp only
      split
      · rename_i field hfind
        have hfield := h field (List.mem_of_find?_eq_some hfind)
        split
        · exact yields_error _ _
        · refine yields_bind ?_
          intro cs
          refine (hfield draft cs hdraft).bind ?_
          intro next cs hnext
          exact ih false hnext cs
      · -- the value of an unknown key leaves the draft as it is
        refine yields_bind ?_
        intro cs
        refine yields_bind ?_
        intro cs
        exact ih false hdraft cs

theorem readPositions_yields {fields : List (Field σ)} (h : ∀ field ∈ fields, field.Keeps I)
    (first : Bool) (count : Nat) {draft : σ} (hdraft : I draft) (cs : List Char) :
    Yields (readPositions fields first count draft cs) fun (draft, _) => I draft := by
  induction fields generalizing first count draft cs with
  | nil =>
    unfold readPositions
    split
    · exact yields_error _ _
    · refine yields_ok ?_ _
      exact hdraft
    · exact yields_error _ _
  | cons field fields ih =>
    rw [readPositions]
    refine yields_bind ?_
    rintro ⟨more, cs⟩
    cases more with
    | false =>
      refine yields_ok ?_ cs
      exact hdraft
    | true =>
      refine (h field List.mem_cons_self draft cs hdraft).bind ?_
      intro next cs hnext
      exact ih (fun f hf => h f (List.mem_cons_of_mem field hf)) false (count + 1) hnext cs

/-- A record that is read has taken a level, and comes from a draft of which everything holds
that its fields keep. -/
theorem readRecord_yields {r : Record σ α} (hempty : I r.empty)
    (h : ∀ field ∈ r.fields, field.Keeps I) (levels : Nat) (cs : List Char) :
    Yields (readRecord levels r cs) fun a =>
      levels ≠ 0 ∧ ∃ draft, I draft ∧ r.finish draft = .ok a := by
  unfold readRecord
  split
  -- an object, then an array of the fields in their order
  · split
    · exact yields_error _ _
    · rename_i hlevels
      refine (readMembers_yields h _ true hempty _).bind ?_
      intro draft cs hdraft
      dsimp only
      split
      · rename_i a ha
        exact yields_ok ⟨hlevels, draft, hdraft, ha⟩ cs
      · exact yields_error _ _
  · split
    · exact yields_error _ _
    · rename_i hlevels
      refine (readPositions_yields h true 0 hempty _).bind ?_
      rintro ⟨draft, count⟩ cs hdraft
      dsimp only
      split
      · rename_i a ha
        exact yields_ok ⟨hlevels, draft, hdraft, ha⟩ cs
      · exact yields_error _ _
  · exact yields_error _ _

end Record

/-- The children that have been read so far have the property. -/
def NodeDraft.ChildrenAre (P : FilterTree → Prop) (draft : NodeDraft) : Prop :=
  ∀ ts, draft.children = some ts → ∀ t ∈ ts, P t

theorem childrenAre_empty (P : FilterTree → Prop) : NodeDraft.ChildrenAre P {} := by
  rintro ts ⟨⟩

theorem nodeRecord_keeps {child : Reader FilterTree} {P : FilterTree → Prop}
    (h : ∀ cs, Yields (child cs) P) (levels : Nat) :
    ∀ field ∈ (nodeRecord levels child).fields, field.Keeps (NodeDraft.ChildrenAre P) := by
  intro field hfield draft cs hdraft
  simp only [nodeRecord, List.mem_cons, List.not_mem_nil, or_false] at hfield
  rcases hfield with rfl | rfl | rfl
  -- the kind and the value leave the children alone
  · refine yields_bind ?_
    rintro ⟨k, cs⟩
    refine yields_ok ?_ cs
    exact hdraft
  · refine yields_bind ?_
    rintro ⟨s, cs⟩
    refine yields_ok ?_ cs
    exact hdraft
  · refine (readSequence_yields h levels cs).bind ?_
    intro ts cs hts
    refine yields_ok ?_ cs
    rintro us ⟨⟩
    exact hts

/-- A draft is completed to a node whose children are those of the draft, if it has any. -/
theorem depth_of_finish {levels n : Nat} {child : Reader FilterTree} {draft : NodeDraft}
    {t : FilterTree} (hdraft : draft.ChildrenAre fun t => t.depth ≤ n)
    (h : (nodeRecord levels child).finish draft = .ok t) : t.depth ≤ 1 + n := by
  obtain ⟨kind, text, children⟩ := draft
  cases kind with
  | none => cases h
  | some k =>
    cases text with
    | none => cases h
    | some s =>
      cases h
      rw [depth_node]
      apply Nat.add_le_add_left
      cases children with
      | none =>
        rw [Option.getD_none, depthAll]
        exact Nat.zero_le n
      | some ts => exact depthAll_le.mpr (hdraft ts rfl)

/-- A tree that is read within a number of levels has at most half as many nodes on a path,
rounded up. -/
theorem readTree_yields (levels : Nat) (cs : List Char) :
    Yields (readTree levels cs) fun t => t.depth ≤ (levels + 1) / 2 := by
  induction levels using Nat.strongRecOn generalizing cs with
  | ind levels ih =>
    cases levels with
    | zero =>
      -- no bracket may be opened, so nothing is read
      rw [readTree]
      intro t rest ht
      have hnone := yields_error .malformed fun (t : FilterTree) => t.depth ≤ 0
      have hkeeps := nodeRecord_keeps (fun _ => hnone) 0
      obtain ⟨hlevels, -⟩ := readRecord_yields (childrenAre_empty _) hkeeps 0 cs t rest ht
      exact absurd rfl hlevels
    | succ levels =>
      rw [readTree_succ]
      -- a child stands two levels further down, hence the strong induction
      have hchild : ∀ cs, Yields (readChild levels cs) fun t => t.depth ≤ levels / 2 := by
        intro cs
        cases levels with
        | zero => exact yields_error _ _
        | succ l => exact ih l (by omega) cs
      have hkeeps := nodeRecord_keeps hchild levels
      intro t rest ht
      obtain ⟨-, draft, hdraft, hfinish⟩ :=
        readRecord_yields (childrenAre_empty _) hkeeps (levels + 1) cs t rest ht
      have hdepth := depth_of_finish hdraft hfinish
      omega

theorem exists_of_parse_ok {α : Type} {reader : Reader α} {text : String} {a : α}
    (h : parse reader text = .ok a) : ∃ rest, reader text.toList = .ok (a, rest) := by
  rw [parse] at h
  cases hread : reader text.toList with
  | error p =>
    rw [hread] at h
    cases h
  | ok r =>
    obtain ⟨b, rest⟩ := r
    rw [hread, ok_bind] at h
    dsimp only at h
    split at h
    · cases h
      exact ⟨rest, rfl⟩
    · cases h

end Json

/-- Every tree that is read from a text has at most 64 nodes on a path. -/
theorem depth_of_ofJson {text : String} {t : FilterTree} (h : FilterTree.ofJson text = .ok t) :
    t.depth ≤ 64 := by
  obtain ⟨rest, hread⟩ := Json.exists_of_parse_ok h
  exact Json.readTree_yields Json.maxLevels text.toList t rest hread

end ODataQuery
