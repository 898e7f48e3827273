import ODataQuery.Json.Codec
import ODataQuery.Proofs.JsonReaders
import ODataQuery.Proofs.DepthLimit
import ODataQuery.Proofs.Layout

/-! Filter trees written as JSON and read again. A node takes one bracket and the list of its
children another, so a path of `n` nodes takes `2 * n - 1` brackets that are open at once. The
reader gives back every tree for which this is not too much, and refuses every other one where
the bracket too many is opened. -/
namespace ODataQuery

namespace Json

theorem compactItems_eq_map (items : List Json) : compactItems items = items.map compact := by
  induction items with
  | nil => rw [compactItems, List.map_nil]
  | cons item items ih => rw [compactItems, ih, List.map_cons]

theorem compact_text (s : String) : (Json.text s).compact = quoted s := by rw [compact]

theorem compact_object (entries : List (String × Json)) :
    (Json.object entries).compact =
      "\x7b" ++ ",".intercalate (compactEntries entries) ++ "\x7d" := by
  rw [compact]

theorem toList_compact_array (item : Json) (items : List Json) :
    (Json.array (item :: items)).compact.toList =
      '[' :: (item.compact.toList ++
        (items.flatMap (fun item => ',' :: item.compact.toList) ++ [']'])) := by
  rw [compact, compactItems_eq_map, List.map_cons, String.toList_append, String.toList_append,
    toList_intercalate_cons, List.flatMap_map]
  simp

end Json

open Json

namespace FilterTree

theorem toJsonAll_eq_map (ts : List FilterTree) : toJsonAll ts = ts.map toJson := by
  induction ts with
  | nil => rw [toJsonAll, List.map_nil]
  | cons t ts ih => rw [toJsonAll, ih, List.map_cons]

/-- The characters of a tree written without white space. -/
def written (t : FilterTree) : List Char := t.toJson.compact.toList

/-- The members that every node is written with, followed by the given text. -/
def writtenHead (k : Kind) (s : String) (cs : List Char) : List Char :=
  (quoted "kind").toList ++ ':' :: ((quoted k.name).toList ++ ',' ::
    ((quoted "value").toList ++ ':' :: ((quoted s).toList ++ cs)))

/-- The children behind the first one, each after a comma. -/
def writtenTail (ts : List FilterTree) : List Char := ts.flatMap fun t => ',' :: t.written

theorem written_leaf (k : Kind) (s : String) :
    (node k s []).written = '{' :: writtenHead k s ['}'] := by
  rw [written, toJson, compact_object]
  simp [compactEntries, Kind.toJson, compact_text, writtenHead]

theorem written_branch (k : Kind) (s : String) (t : FilterTree) (ts : List FilterTree) :
    (node k s (t :: ts)).written =
      '{' :: writtenHead k s (',' :: ((quoted "children").toList ++ ':' ::
        '[' :: (t.written ++ (writtenTail ts ++ [']', '}'])))) := by
  have hitems : (Json.array (toJson t :: toJsonAll ts)).compact.toList =
      '[' :: (t.written ++ (writtenTail ts ++ [']'])) := by
    rw [toList_compact_array, toJsonAll_eq_map, List.flatMap_map]
    rfl
  rw [written, toJson, compact_object]
  simp [compactEntries, Kind.toJson, compact_text, writtenHead, hitems]

theorem exists_written (t : FilterTree) : ∃ cs, t.written = '{' :: cs := by
  obtain ⟨k, s, ts⟩ := t
  cases ts with
  | nil => exact ⟨_, written_leaf k s⟩
  | cons t ts => exact ⟨_, written_branch k s t ts⟩

theorem length_writtenHead (k : Kind) (s : String) (cs : List Char) :
    cs.length + 3 ≤ (writtenHead k s cs).length := by
  simp only [writtenHead, List.length_append, List.length_cons]
  omega

theorem length_le_writtenTail (ts : List FilterTree) : ts.length ≤ (writtenTail ts).length := by
  induction ts with
  | nil => exact Nat.le_refl _
  | cons t ts ih =>
    have hcons : (writtenTail (t :: ts)).length =
        t.written.length + 1 + (writtenTail ts).length := by
      rw [writtenTail, List.flatMap_cons, List.length_append, List.length_cons]
      rfl
    rw [hcons, List.length_cons]
    omega

end FilterTree

open FilterTree

namespace Json

theorem lookup_kindNames (k : Kind) : kindNames.lookup k.name = some k := by
  have key : ∀ k ∈ Kind.known, kindNames.lookup k.name = some k := by decide +kernel
  exact key k (Kind.mem_known k)

theorem readMembers_writtenHead (levels : Nat) (child : Reader FilterTree) (k : Kind)
    (s : String) (n : Nat) (cs : List Char) :
    readMembers (nodeRecord levels child).fields (n + 2) true (nodeRecord levels child).empty
        (writtenHead k s cs) =
      readMembers (nodeRecord levels child).fields n false ⟨some k, some s, none⟩ cs := by
  -- two of the steps are used up, one for each member
  rw [writtenHead, readMembers_field (nextKey_first "kind" _) rfl rfl]
  simp only [readName_quoted levels (lookup_kindNames k), ok_bind, pure_eq_ok]
  rw [readMembers_field (nextKey_comma "value" _) rfl rfl]
  simp only [readString_quoted, ok_bind, pure_eq_ok]
  rfl

theorem nextItem_first (t : FilterTree) (cs : List Char) :
    nextItem true (t.written ++ cs) = .ok (true, t.written ++ cs) := by
  obtain ⟨ds, hds⟩ := exists_written t
  rw [hds]
  rfl

theorem nextItem_comma (t : FilterTree) (cs : List Char) :
    nextItem false (',' :: (t.written ++ cs)) = .ok (true, t.written ++ cs) := by
  obtain ⟨ds, hds⟩ := exists_written t
  rw [hds]
  rfl

/-- The reader gives the written tree back if it fits, and refuses it otherwise; it does not
look at what follows. -/
def Judges (item : Reader FilterTree) (fits : FilterTree → Prop) [DecidablePred fits]
    (t : FilterTree) : Prop :=
  ∀ cs, item (t.written ++ cs) = if fits t then .ok (t, cs) else .error .malformed

section Items

variable {item : Reader FilterTree} {fits : FilterTree → Prop} [DecidablePred fits]

/-- A tree that does not fit ends the array; behind one that fits the rest decides. -/
theorem readItems_judged {t : FilterTree} {ts : List FilterTree} {first : Bool} {n : Nat}
    {text rest cs : List Char} {P : Prop} [Decidable P] (ht : Judges item fits t)
    (hnext : nextItem first text = .ok (true, t.written ++ rest))
    (hrest : readItems item n false rest = if P then .ok (ts, cs) else .error .malformed) :
    readItems item (n + 1) first text =
      if fits t ∧ P then .ok (t :: ts, cs) else .error .malformed := by
  rw [readItems_item hnext, ht rest, ite_bind]
  dsimp only
  rw [hrest, ite_bind, ite_and]
  rfl

theorem readItems_writtenTail {ts : List FilterTree} (h : ∀ t ∈ ts, Judges item fits t)
    (cs : List Char) {n : Nat} (hn : ts.length < n) :
    readItems item n false (writtenTail ts ++ ']' :: cs) =
      if ∀ t ∈ ts, fits t then .ok (ts, cs) else .error .malformed := by
  induction ts generalizing n with
  | nil =>
    obtain ⟨n, rfl⟩ : ∃ m, n = m + 1 := Nat.exists_eq_add_one.mpr hn
    rw [if_pos fun t ht => absurd ht List.not_mem_nil]
    rfl
  | cons t ts ih =>
    rw [List.length_cons] at hn
    obtain ⟨n, rfl⟩ : ∃ m, n = m + 1 := ⟨n - 1, by omega⟩
    have hrest : readItems item n false (writtenTail ts ++ ']' :: cs) =
        if ∀ t ∈ ts, fits t then .ok (ts, cs) else .error .malformed :=
      ih (fun u hu => h u (List.mem_cons_of_mem t hu)) (by omega)
    have htext : writtenTail (t :: ts) ++ ']' :: cs =
        ',' :: (t.written ++ (writtenTail ts ++ ']' :: cs)) := by
      simp [writtenTail]
    simp only [List.forall_mem_cons]
    exact readItems_judged (h t List.mem_cons_self) (htext ▸ nextItem_comma t _) hrest

/-- An array of written trees is read back if all of them fit. -/
theorem readSequence_written {t : FilterTree} {ts : List FilterTree}
    (h : ∀ u ∈ t :: ts, Judges item fits u) (levels : Nat) (cs : List Char) :
    readSequence (levels + 1) item
        ('[' :: (t.written ++ (writtenTail ts ++ ']' :: cs))) =
      if ∀ u ∈ t :: ts, fits u then .ok (t :: ts, cs) else .error .malformed := by
  -- the steps are counted by the characters of the text, which are more than the items
  have hsteps : ts.length < (t.written ++ (writtenTail ts ++ ']' :: cs)).length := by
    have hlength := length_le_writtenTail ts
    simp only [List.length_append, List.length_cons]
    omega
  have hrest := readItems_writtenTail (fun u hu => h u (List.mem_cons_of_mem t hu)) cs hsteps
  simp only [List.forall_mem_cons]
  exact readItems_judged (h t List.mem_cons_self) (nextItem_first t _) hrest

end Items

theorem readRecord_leaf (levels l : Nat) (child : Reader FilterTree) (k : Kind) (s : String)
    (cs : List Char) :
    readRecord (levels + 1) (nodeRecord l child) ((node k s []).written ++ cs) =
      .ok (node k s [], cs) := by
  have htext : (node k s []).written ++ cs = '{' :: writtenHead k s ('}' :: cs) := by
    rw [written_leaf]
    simp [writtenHead]
  obtain ⟨n, hn⟩ : ∃ n, (writtenHead k s ('}' :: cs)).length + 1 = n + 3 := by
    have hlength := length_writtenHead k s ('}' :: cs)
    exact ⟨(writtenHead k s ('}' :: cs)).length - 2, by omega⟩
  have hmembers : readMembers (nodeRecord l child).fields
      ((writtenHead k s ('}' :: cs)).length + 1) true (nodeRecord l child).empty
      (writtenHead k s ('}' :: cs)) = .ok (⟨some k, some s, none⟩, cs) := by
    rw [hn, readMembers_writtenHead, readMembers_end]
  rw [htext]
  exact readRecord_of_members hmembers rfl levels

/-- A node with children is read back if its children are, and is refused with them. -/
theorem readRecord_branch {l : Nat} {child : Reader FilterTree} {t : FilterTree}
    {ts : List FilterTree} {cs : List Char} {P : Prop} [Decidable P]
    (h : readSequence l child ('[' :: (t.written ++ (writtenTail ts ++ ']' :: '}' :: cs))) =
      if P then .ok (t :: ts, '}' :: cs) else .error .malformed)
    (levels : Nat) (k : Kind) (s : String) :
    readRecord (levels + 1) (nodeRecord l child) ((node k s (t :: ts)).written ++ cs) =
      if P then .ok (node k s (t :: ts), cs) else .error .malformed := by
  have htext : (node k s (t :: ts)).written ++ cs =
      '{' :: writtenHead k s (',' :: ((quoted "children").toList ++ ':' ::
        '[' :: (t.written ++ (writtenTail ts ++ ']' :: '}' :: cs)))) := by
    rw [written_branch]
    simp [writtenHead]
  rw [htext]
  generalize hrest : ',' :: ((quoted "children").toList ++ ':' ::
    '[' :: (t.written ++ (writtenTail ts ++ ']' :: '}' :: cs))) = rest
  obtain ⟨n, hn⟩ : ∃ n, (writtenHead k s rest).length + 1 = n + 4 := by
    have hlength := length_writtenHead k s rest
    exact ⟨(writtenHead k s rest).length - 3, by omega⟩
  have hmembers : readMembers (nodeRecord l child).fields ((writtenHead k s rest).length + 1)
      true (nodeRecord l child).empty (writtenHead k s rest) =
        if P then .ok (⟨some k, some s, some (t :: ts)⟩, cs) else .error .malformed := by
    rw [hn, readMembers_writtenHead, ← hrest,
      readMembers_field (nextKey_comma "children" _) rfl rfl]
    dsimp only
    rw [h, ite_bind, pure_eq_ok, ite_bind]
    rfl
  by_cases hP : P
  · rw [if_pos hP] at hmembers ⊢
    exact readRecord_of_members hmembers rfl levels
  · rw [if_neg hP] at hmembers ⊢
    exact readRecord_of_members_error hmembers levels

/-- Reads a child of a node; the list of the children takes a level before it. -/
def readChild : Nat → Reader FilterTree
  | 0 => fun _ => .error .malformed
  | levels + 1 => readTree levels

/-- A tree is a record that takes a level; one level less is left for its members. -/
theorem readTree_succ (levels : Nat) :
    readTree (levels + 1) =
      readRecord (levels + 1) (nodeRecord levels (readChild levels)) := by
  cases levels <;> rw [readTree, readChild]

/-- Within a number of levels, a written tree is read back exactly if its nodes fit there with
the lists between them. -/
theorem readTree_written (t : FilterTree) (levels : Nat) :
    Judges (readTree levels) (fun t => t.depth ≤ (levels + 1) / 2) t := by
  induction t generalizing levels with
  | node k s ts ih =>
    intro cs
    cases levels with
    | zero =>
      -- the first bracket is one too many
      have hdeep : ¬(node k s ts).depth ≤ (0 + 1) / 2 := by
        rw [depth_node]
        omega
      obtain ⟨ds, hds⟩ := exists_written (node k s ts)
      rw [if_neg hdeep, hds]
      rfl
    | succ levels =>
      rw [readTree_succ]
      cases ts with
      | nil =>
        have hfits : (node k s []).depth ≤ (levels + 1 + 1) / 2 := by
          rw [depth_node, depthAll]
          omega
        rw [readRecord_leaf, if_pos hfits]
      | cons t ts =>
        apply readRecord_branch
        cases levels with
        | zero =>
          -- the node takes the only level, so its list of children cannot be opened
          have hdeep : ¬(node k s (t :: ts)).depth ≤ (0 + 1 + 1) / 2 := by
            have hchild := depth_pos t
            rw [depth_node, depthAll]
            omega
          rw [if_neg hdeep]
          rfl
        | succ levels =>
          -- the node and its list take a level each, and half of two is one
          have hchildren : (node k s (t :: ts)).depth ≤ (levels + 1 + 1 + 1) / 2 ↔
              ∀ u ∈ t :: ts, u.depth ≤ (levels + 1) / 2 := by
            rw [depth_node, ← depthAll_le]
            omega
          simp only [hchildren]
          exact readSequence_written (fun u hu => ih u hu levels) _ _

end Json

theorem ofJson_written (t : FilterTree) :
    FilterTree.ofJson t.toJson.compact =
      if t.depth ≤ 64 then .ok t else .error .malformed := by
  have hread := readTree_written t maxLevels []
  have hlevels : (maxLevels + 1) / 2 = 64 := rfl
  rw [List.append_nil, written, hlevels] at hread
  rw [FilterTree.ofJson, parse, hread, ite_bind]
  rfl

/-- A tree that is written and read again comes back exactly if no path has more than 64
nodes. Any deeper tree is refused, as a text that is nested too deeply. -/
theorem ofJson_compact_toJson (t : FilterTree) :
    (FilterTree.ofJson t.toJson.compact = .ok t ↔ t.depth ≤ 64) ∧
      (65 ≤ t.depth → FilterTree.ofJson t.toJson.compact = .error .malformed) := by
  have hread := ofJson_written t
  by_cases ht : t.depth ≤ 64
  · rw [if_pos ht] at hread
    exact ⟨⟨fun _ => ht, fun _ => hread⟩, fun hdeep => by omega⟩
  · rw [if_neg ht] at hread
    refine ⟨⟨fun hback => ?_, fun h => absurd h ht⟩, fun _ => hread⟩
    rw [hread] at hback
    cases hback

theorem ofJson_compact_toJson_wrapped :
    (Nat.repeat (fun t => FilterTree.list [t]) 64 (string "\"\\\n")).depth = 65 ∧
      FilterTree.ofJson
          (Nat.repeat (fun t => FilterTree.list [t]) 64 (string "\"\\\n")).toJson.compact =
        .error .malformed ∧
      FilterTree.ofJson
          (Nat.repeat (fun t => FilterTree.list [t]) 63 (string "\"\\\n")).toJson.compact =
        .ok (Nat.repeat (fun t => FilterTree.list [t]) 63 (string "\"\\\n")) := by
  have hdeep : (Nat.repeat (fun t => FilterTree.list [t]) 64 (string "\"\\\n")).depth = 65 := by
    decide +kernel
  have hfits : (Nat.repeat (fun t => FilterTree.list [t]) 63 (string "\"\\\n")).depth ≤ 64 := by
    decide +kernel
  exact ⟨hdeep, (ofJson_compact_toJson _).2 (Nat.le_of_eq hdeep.symm),
    (ofJson_compact_toJson _).1.mpr hfits⟩

end ODataQuery
