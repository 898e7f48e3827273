import ODataQuery.Proofs.JsonRecords
import ODataQuery.Proofs.JsonTrees

/-! All JSON texts of a filter tree. A text writes a JSON value, and the value describes the
tree: a node is an object with its fields in any order and other keys between them, or an array
of its fields. The reader gives the tree back from every one of these texts, as long as the
brackets that count are not nested too deeply. -/
namespace ODataQuery

namespace Json

/-- The keys of the fields of a node. -/
def nodeNames : List String := ["kind", "value", "children"]

/-- A kind is described by its name, or by an object that maps its name to `null`. -/
inductive DescribesKind : Value → Kind → Prop
  | name (k : Kind) : DescribesKind (.text (some k.name)) k
  | entry (k : Kind) : DescribesKind (.object [(some k.name, .null)]) k

/-- The entries for the fields of a node; those for its children may be left out. -/
def nodeFields (kind : Value) (s : String) (children : Option (List Value)) :
    List (Option String × Value) :=
  (some "kind", kind) :: (some "value", .text (some s)) ::
    children.toList.map fun vs => (some "children", .array vs)

/-- The value describes the tree. Where the children are left out the node has none. Every key
of an object has a text, and the fields are found among the keys in any order; what stands
behind a key that names no field is free. -/
inductive Describes : Value → FilterTree → Prop
  | object {entries : List (Option String × Value)} {kind : Value}
      {children : Option (List Value)} {k : Kind} {s : String} {ts : List FilterTree}
      (hkind : DescribesKind kind k) (hchildren : List.Forall₂ Describes (children.getD []) ts)
      (hkeys : ∀ e ∈ entries, e.1.isSome = true)
      (hfields : (entries.filter fun e => isNamed nodeNames e.1).Perm
        (nodeFields kind s children)) :
      Describes (.object entries) (.node k s ts)
  | array {kind : Value} {children : Option (List Value)} {k : Kind} {s : String}
      {ts : List FilterTree} (hkind : DescribesKind kind k)
      (hchildren : List.Forall₂ Describes (children.getD []) ts) :
      Describes (.array (kind :: .text (some s) :: children.toList.map .array)) (.node k s ts)

theorem readName_describes {kind : Value} {k : Kind} (h : DescribesKind kind k) (levels : Nat) :
    ReadsAs nodeNames levels (readName levels kindNames) kind k := by
  cases h with
  | name => exact readName_text (lookup_kindNames k)
  | entry => exact readName_entry (lookup_kindNames k)

namespace NodeDraft

/-- The draft of a node in which the fields of the given keys are still missing. -/
def without (draft : NodeDraft) (keys : List (Option String)) : NodeDraft where
  kind := if some "kind" ∈ keys then none else draft.kind
  text := if some "value" ∈ keys then none else draft.text
  children := if some "children" ∈ keys then none else draft.children

def setKind (draft : NodeDraft) (k : Kind) : NodeDraft := { draft with kind := some k }

def setText (draft : NodeDraft) (s : String) : NodeDraft := { draft with text := some s }

def setChildren (draft : NodeDraft) (ts : List FilterTree) : NodeDraft :=
  { draft with children := some ts }

end NodeDraft

section Node

variable {levels : Nat} {child : Reader FilterTree} {kind : Value} {k : Kind} {s : String}
  {children : Option (List Value)} {ts : List FilterTree}

/-- The draft of a whole node. Its children stay unset where they are left out. -/
def wholeDraft (k : Kind) (s : String) (children : Option (List Value))
    (ts : List FilterTree) : NodeDraft :=
  ⟨some k, some s, children.map fun _ => ts⟩

/-- Each field of a node fills its gap in the draft. -/
theorem nodeRecord_fills
    (hkind : ReadsAs nodeNames levels (readName levels kindNames) kind k)
    (hchildren : ∀ vs ∈ children,
      ReadsAs nodeNames levels (readSequence levels child) (.array vs) ts)
    {key : String} {v : Value} (hmem : (some key, v) ∈ nodeFields kind s children)
    {field : Field NodeDraft}
    (hfind : (nodeRecord levels child).fields.find? (·.name == key) = some field)
    {keys : List (Option String)} (hnew : some key ∉ keys) :
    field.isSet ((wholeDraft k s children ts).without (some key :: keys)) = false ∧
      ReadsAs nodeNames levels
        (field.read ((wholeDraft k s children ts).without (some key :: keys))) v
        ((wholeDraft k s children ts).without keys) := by
  simp only [nodeFields, List.mem_cons, Prod.mk.injEq, Option.some.injEq, List.mem_map,
    Option.mem_toList] at hmem
  -- the key settles which field is found, and setting it undoes that it was missing
  rcases hmem with ⟨rfl, rfl⟩ | ⟨rfl, rfl⟩ | ⟨vs, hvs, rfl, rfl⟩
  · cases hfind
    have hfill : (wholeDraft k s children ts).without keys =
        ((wholeDraft k s children ts).without (some "kind" :: keys)).setKind k := by
      simp [NodeDraft.without, NodeDraft.setKind, wholeDraft, hnew]
    rw [hfill]
    exact ⟨by simp [NodeDraft.without], hkind.map (NodeDraft.setKind _)⟩
  · cases hfind
    have hfill : (wholeDraft k s children ts).without keys =
        ((wholeDraft k s children ts).without (some "value" :: keys)).setText s := by
      simp [NodeDraft.without, NodeDraft.setText, wholeDraft, hnew]
    rw [hfill]
    exact ⟨by simp [NodeDraft.without], (readString_reads "a string" s).map (NodeDraft.setText _)⟩
  · cases hfind
    have hfill : (wholeDraft k s children ts).without keys =
        ((wholeDraft k s children ts).without (some "children" :: keys)).setChildren ts := by
      simp [NodeDraft.without, NodeDraft.setChildren, wholeDraft, hnew, Option.mem_def.mp hvs]
    rw [hfill]
    exact ⟨by simp [NodeDraft.without], (hchildren vs hvs).map (NodeDraft.setChildren _)⟩

/-- The named keys of an object that describes a node, in some order. -/
theorem namedKeys_perm {entries : List (Option String × Value)}
    (hfields : (entries.filter fun e => isNamed nodeNames e.1).Perm
      (nodeFields kind s children)) :
    ((entries.map Prod.fst).filter (isNamed nodeNames)).Perm
      (some "kind" :: some "value" :: children.toList.map fun _ => some "children") := by
  have hkeys := hfields.map Prod.fst
  rw [List.filter_map]
  simpa [nodeFields, Function.comp_def] using hkeys

theorem takes_node (hkind : ReadsAs nodeNames levels (readName levels kindNames) kind k)
    (hchildren : ∀ vs ∈ children,
      ReadsAs nodeNames levels (readSequence levels child) (.array vs) ts)
    {entries : List (Option String × Value)} (hkeys : ∀ e ∈ entries, e.1.isSome = true)
    (hfields : (entries.filter fun e => isNamed nodeNames e.1).Perm
      (nodeFields kind s children)) :
    Takes nodeNames levels (nodeRecord levels child).fields {} entries
      (wholeDraft k s children ts) := by
  have hperm := namedKeys_perm hfields
  have hnodup : ((entries.map Prod.fst).filter (isNamed nodeNames)).Nodup := by
    rw [hperm.nodup_iff]
    cases children with
    | none => decide
    | some vs =>
      have hthree : [some "kind", some "value", some "children"].Nodup := by decide
      exact hthree
  -- all three fields are missing at first
  have hempty : (wholeDraft k s children ts).without
      ((entries.map Prod.fst).filter (isNamed nodeNames)) = {} := by
    simp only [NodeDraft.without, hperm.mem_iff]
    cases children <;> simp [wholeDraft]
  rw [← hempty]
  refine takes_of_missing hkeys hnodup ?_
  intro key v hmem field hfind keys hnew
  have hnamed : isNamed nodeNames (some key) = true := isNamed_of_find? hfind
  have hfield : (some key, v) ∈ nodeFields kind s children :=
    hfields.mem_iff.mp (List.mem_filter.mpr ⟨hmem, hnamed⟩)
  exact nodeRecord_fills hkind hchildren hfield hfind hnew

theorem takesInOrder_node
    (hkind : ReadsAs nodeNames levels (readName levels kindNames) kind k)
    (hchildren : ∀ vs ∈ children,
      ReadsAs nodeNames levels (readSequence levels child) (.array vs) ts) :
    TakesInOrder nodeNames levels (nodeRecord levels child).fields {}
      (kind :: .text (some s) :: children.toList.map .array) (wholeDraft k s children ts) := by
  refine .field (hkind.map (NodeDraft.setKind {})) ?_
  refine .field ((readString_reads "a string" s).map (NodeDraft.setText _)) ?_
  cases children with
  | none => exact .done _ _
  | some vs => exact .field ((hchildren vs rfl).map (NodeDraft.setChildren _)) (.done _ _)

theorem finish_wholeDraft (h : children = none → ts = []) :
    (nodeRecord levels child).finish (wholeDraft k s children ts) = .ok (.node k s ts) := by
  cases children with
  | none =>
    rw [h rfl]
    rfl
  | some vs => rfl

end Node

/-- Children that are left out are an empty list. -/
theorem eq_nil_of_describes {children : Option (List Value)} {ts : List FilterTree}
    (h : List.Forall₂ Describes (children.getD []) ts) (hnone : children = none) : ts = [] := by
  rw [hnone] at h
  exact List.forall₂_nil_left_iff.mp h

theorem describes_of_mem {children : Option (List Value)} {vs : List Value}
    {ts : List FilterTree} (h : List.Forall₂ Describes (children.getD []) ts)
    (hvs : vs ∈ children) : List.Forall₂ Describes vs ts := by
  rw [Option.mem_def.mp hvs] at h
  exact h

/-- A value that describes a tree is read as this tree, if its levels are enough. -/
theorem readTree_describes {v : Value} {t : FilterTree} (h : Describes v t) (levels : Nat) :
    ReadsAs nodeNames levels (readTree levels) v t := by
  induction t generalizing v levels with
  | node k s ts ih =>
    -- the list of the children takes a level before each of them
    have hitems : ∀ (vs : List Value), List.Forall₂ Describes vs ts → ∀ levels,
        ReadsAs nodeNames levels (readSequence levels (readChild levels)) (.array vs) ts := by
      intro vs hvs levels
      cases levels with
      | zero => exact readSequence_zero _ vs ts
      | succ levels =>
        have hboth := (List.forall₂_and_left ts vs).mpr ⟨ih, hvs.flip⟩
        exact readSequence_reads (hboth.flip.imp fun v t h => h.1 h.2 levels)
    cases levels with
    | zero =>
      -- a node is written with brackets in both forms
      rw [readTree]
      refine readRecord_zero ?_
      cases h <;> simp [Value.levels]
    | succ levels =>
      rw [readTree_succ]
      cases h with
      | object hkind hchildren hkeys hfields =>
        have htakes := takes_node (readName_describes hkind levels)
          (fun vs hvs => hitems vs (describes_of_mem hchildren hvs) levels)
          hkeys hfields
        exact readRecord_object htakes (finish_wholeDraft (eq_nil_of_describes hchildren))
      | array hkind hchildren =>
        have htakes := takesInOrder_node (s := s) (readName_describes hkind levels)
          (fun vs hvs => hitems vs (describes_of_mem hchildren hvs) levels)
        exact readRecord_array htakes (finish_wholeDraft (eq_nil_of_describes hchildren))

end Json

open Json

theorem ofJson_describes {v : Value} {t : FilterTree} (hv : Describes v t) {text : String}
    (htext : v.Document text) :
    FilterTree.ofJson text =
      if v.levels nodeNames ≤ 127 then .ok t else .error .malformed :=
  parse_document (readTree_describes hv maxLevels) htext

/-- Every JSON text of a value that describes a tree is read as this tree, in whatever order
and form the nodes are written and whatever else stands between their fields, if no more than
127 of the brackets that count are open at once. Otherwise it is refused. -/
theorem ofJson_spelled {v : Value} {t : FilterTree} (hv : Describes v t) {text : String}
    (htext : v.Document text) :
    (v.levels nodeNames ≤ 127 → FilterTree.ofJson text = .ok t) ∧
      (128 ≤ v.levels nodeNames → FilterTree.ofJson text = .error .malformed) := by
  have hread := ofJson_describes hv htext
  refine ⟨fun hfits => ?_, fun hdeep => ?_⟩
  · rw [hread, if_pos hfits]
  · rw [hread, if_neg (by omega)]

theorem ofJson_spelled_mixed :
    FilterTree.ofJson (" \x7b\"x\":[-1,true],\"children\":[\n[\"list\" ,\"\\t\"]]," ++
        "\"\\u006bind\":\x7b\"list\":null\x7d ,\"value\":\"\"\x7d\n") =
      .ok (.node .list "" [.node .list "\t" []]) := by
  have hplain (s : String) (h : s.toList.all (IsPlain ·) = true) (r : List Char) :
      StringText (some s) (s.toList ++ '"' :: r) r := .text (charsText_plain h r)
  have hlist (r : List Char) := hplain "list" (by decide) r
  have htab (r : List Char) : StringText (some "\t") ("\\t\"".toList ++ r) r :=
    .text (.cons (.letter (by decide) _) (.close r))
  have hkind (r : List Char) : StringText (some "kind") ("\\u006bind\"".toList ++ r) r := by
    have hk : HexText 'k'.toNat ("006bind\"".toList ++ r) ("ind\"".toList ++ r) :=
      @HexText.digits 0 0 6 11 _ _ _ _ (by decide) (by decide) (by decide) (by decide) _
    exact .text (.cons (.code hk) (charsText_plain (by decide) r))
  have hunknown (r : List Char) :
      Spells (.array [.number ['-', '1'], .bool true]) ("[-1,true]".toList ++ r) r := by
    have hone : IsDigits ['1'] := by simp [IsDigits]
    have hminus : IsNumeral ['-', '1'] :=
      @IsNumeral.parts ['-'] ['1'] [] [] (by decide) hone (by decide) (.inl rfl) (.inl rfl)
    exact .array (.refl _)
      (.first (.number (.refl _) hminus) (.next (.refl _) (.true (.refl _)) (.close (.refl _))))
  have hchildren (r : List Char) :
      Spells (.array [.array [.text (some "list"), .text (some "\t")]])
        ("[\n[\"list\" ,\"\\t\"]]".toList ++ r) r := by
    refine .array (.refl _) (.first (.array (.cons rfl (.refl _)) ?_) (.close (.refl _)))
    exact .first (.text (.refl _) (hlist _))
      (.next (.cons rfl (.refl _)) (.text (.refl _) (htab _)) (.close (.refl _)))
  have hname (r : List Char) :
      Spells (.object [(some "list", .null)]) ("\x7b\"list\":null\x7d".toList ++ r) r :=
    .object (.refl _)
      (.first (.entry (.refl _) (hlist _) (.refl _) (.null (.refl _))) (.close (.refl _)))
  refine (ofJson_spelled (v := .object [
    (some "x", .array [.number ['-', '1'], .bool true]),
    (some "children", .array [.array [.text (some "list"), .text (some "\t")]]),
    (some "kind", .object [(some "list", .null)]),
    (some "value", .text (some ""))]) ?value ⟨['\n'], ?text, .cons rfl (.refl _)⟩).1 ?levels
  case value =>
    have hchild : Describes (.array [.text (some "list"), .text (some "\t")])
        (.node .list "\t" []) := @Describes.array _ none _ _ _ (.name .list) .nil
    refine @Describes.object _ _ (some _) _ _ _ (.entry .list) (.cons hchild .nil) ?_ ?_
    · decide
    · exact @List.perm_append_comm _ [_] [_, _]
  case text =>
    rw [String.toList_append, String.toList_ofList, String.toList_ofList]
    refine .object (.cons rfl (.refl _)) ?_
    refine .first (.entry (.refl _) (hplain "x" (by decide) _) (.refl _) (hunknown _)) ?_
    refine .next (.refl _)
      (.entry (.refl _) (hplain "children" (by decide) _) (.refl _) (hchildren _)) ?_
    refine .next (.refl _) (.entry (.refl _) (hkind _) (.refl _) (hname _)) ?_
    have hempty (r : List Char) : Spells (.text (some "")) ('"' :: '"' :: r) r :=
      .text (.refl _) (.text (.close r))
    exact .next (.cons rfl (.refl _))
      (.entry (.refl _) (hplain "value" (by decide) _) (.refl _) (hempty _)) (.close (.refl _))
  case levels => decide

end ODataQuery
