import ODataQuery.Proofs.Occurrences

/-! The order in which bound parameters first appear. Numbers are handed out while the operands
are rendered, and places come from the layouts; the two orders agree since every layout but
that of `substringof` mentions its slots for the first time in ascending order. -/
namespace ODataQuery

section EraseDups

variable {α β : Type} [BEq α] [LawfulBEq α]

theorem removeAll_eq_nil {xs ys : List α} (h : ∀ x ∈ xs, x ∈ ys) : xs.removeAll ys = [] := by
  apply List.filter_eq_nil_iff.mpr
  intro x hx
  simpa using h x hx

theorem removeAll_eq_self {xs ys : List α} (h : ∀ x ∈ xs, x ∉ ys) : xs.removeAll ys = xs := by
  apply List.filter_eq_self.mpr
  intro x hx
  simpa using h x hx

/-- Two stretches that have nothing in common do not hide each other's members. -/
theorem eraseDups_append_of_disjoint {xs ys : List α} (h : ∀ y ∈ ys, y ∉ xs) :
    (xs ++ ys).eraseDups = xs.eraseDups ++ ys.eraseDups := by
  rw [List.eraseDups_append, removeAll_eq_self h]

theorem eraseDups_of_nodup {xs : List α} (h : xs.Nodup) : xs.eraseDups = xs := by
  induction xs with
  | nil => rfl
  | cons x xs ih =>
    obtain ⟨hx, hxs⟩ := List.nodup_cons.mp h
    have hdisjoint : ∀ y ∈ xs, y ∉ [x] := by
      intro y hy hmem
      exact hx (List.mem_singleton.mp hmem ▸ hy)
    calc (x :: xs).eraseDups
        = [x].eraseDups ++ xs.eraseDups := eraseDups_append_of_disjoint hdisjoint
      _ = x :: xs := by
          rw [ih hxs]
          rfl

theorem flatMap_filter_of_nil (is : List α) {f : α → List β} {i : α} (h : f i = []) :
    (is.filter fun j => !j == i).flatMap f = is.flatMap f := by
  induction is with
  | nil => rfl
  | cons j is ih =>
    by_cases hj : j = i
    · simp [hj, h, ih]
    · simp [hj, ih]

/-- A stretch that is repeated shows nothing for the first time, so only the first mention of
each index counts. -/
theorem eraseDups_flatMap [BEq β] [LawfulBEq β] (is : List α) (f : α → List β) :
    (is.flatMap f).eraseDups = (is.eraseDups.flatMap f).eraseDups := by
  match is with
  | [] => rfl
  | i :: is =>
    -- behind the stretch of `i` every other one is looked at without what `i` has shown
    let g : α → List β := fun j => (f j).removeAll (f i)
    have hg (js : List α) : (js.flatMap f).removeAll (f i) = js.flatMap g :=
      List.filter_flatMap
    have hi : g i = [] := removeAll_eq_nil fun _ hx => hx
    have ih := eraseDups_flatMap (is.filter fun j => !j == i) g
    rw [List.eraseDups_cons, List.flatMap_cons, List.flatMap_cons, List.eraseDups_append,
      List.eraseDups_append, hg, hg, ← ih, flatMap_filter_of_nil is hi]
termination_by is.length
decreasing_by exact Nat.lt_succ_of_le (List.length_filter_le _ _)

end EraseDups

def Token.number? : Token → Option Nat
  | char _ => none
  | placeholder number => some number

/-- The numbers of the placeholders of a text, from left to right. -/
def placeholderNumbers (x : List Char) : List Nat := (tokens x).filterMap Token.number?

theorem placeholderNumbers_of_no_sign {x : List Char} (hx : '@' ∉ x) :
    placeholderNumbers x = [] := by
  rw [placeholderNumbers, tokens_of_no_sign hx, List.filterMap_map]
  exact List.filterMap_eq_nil_iff.mpr fun _ _ => rfl

theorem placeholderNumbers_placeholder (n : Nat) :
    placeholderNumbers (placeholder n).toList = [n] := by
  rw [placeholderNumbers, tokens_placeholder]
  rfl

theorem Layout.filterMap_number?_tokensWith (us : Layout) (operand : Nat → List Token) :
    (us.tokensWith operand).filterMap Token.number? =
      us.slots.flatMap fun i => (operand i).filterMap Token.number? := by
  induction us with
  | nil => rfl
  | cons u us ih =>
    cases u with
    | char c => exact ih
    | slot i => rw [tokensWith, List.filterMap_append, ih]; rfl

/-- A layout shows the numbers of its operands in the order of its slots. -/
theorem Layout.placeholderNumbers_spell {us : Layout} {n : Nat} (hus : us.Fits n)
    {operand : Nat → List Char} (ho : ∀ i, i < n → Sealed (operand i)) :
    placeholderNumbers (us.spell operand) =
      us.slots.flatMap fun i => placeholderNumbers (operand i) := by
  rw [placeholderNumbers, tokens_spell hus ho, filterMap_number?_tokensWith]
  rfl

/-- Every operator but `substringof` mentions its operands for the first time in ascending
order, also if it mentions one again. -/
theorem Operator.first_slots_table :
    ∀ op ∈ known, ∀ n ∈ [2, 3], ∀ t ∈ op.template? n, op ≠ .substringOf →
      t.layout.slots.eraseDups = List.range t.arity := by
  decide +kernel

open FilterTree

/-- No operator that is reached is `substringof`, whatever its spelling. -/
def FilterTree.SwapFree (t : FilterTree) : Prop :=
  ∀ n ∈ t.reached, n.kind.isOperator = true → Operator.ofName? n.text ≠ some .substringOf

theorem FilterTree.SwapFree.child {k : Kind} {s : String} {ts : List FilterTree}
    (h : (node k s ts).SwapFree) (hk : k.nests = true) {t : FilterTree} (ht : t ∈ ts) :
    t.SwapFree :=
  fun n hn => h n (mem_reached_of_child hk ht hn)

theorem eraseDups_slots {k : Kind} {s : String} {ts : List FilterTree} {us : Layout}
    (h : layout? k s ts.length = some us) (hswap : (node k s ts).SwapFree) :
    us.slots.eraseDups = List.range ts.length := by
  cases k with
  | list =>
    cases h
    rw [Layout.slots_ofList, eraseDups_of_nodup List.nodup_range]
  | operator k =>
    obtain ⟨op, t, hop, ht, harity, rfl⟩ := layout?_operator.mp h
    have hne : op ≠ .substringOf := by
      rintro rfl
      exact hswap _ (self_mem_reached _) rfl hop
    rw [Operator.of_template?_table Operator.first_slots_table ht hne, harity]
  | _ => cases h

/-- With bound literals a text shows the parameters of its own literals for the first time in
the order of their numbers. -/
def ShowsInOrder (limit : Option UInt64) (t : FilterTree) : Prop :=
  ∀ depth bound x, (render ⟨.bind, limit⟩ depth bound t).result = .ok x →
    (placeholderNumbers x.toList).eraseDups =
      List.range' (bound + 1) (render ⟨.bind, limit⟩ depth bound t).params.length

theorem eraseDups_of_renderAll {limit : Option UInt64} {ts : List FilterTree}
    (h : ∀ t ∈ ts, ShowsInOrder limit t) {depth bound : Nat} {xs : List String}
    (hxs : (renderAll ⟨.bind, limit⟩ depth bound ts).result = .ok xs) :
    (xs.flatMap fun x => placeholderNumbers x.toList).eraseDups =
      List.range' (bound + 1) (renderAll ⟨.bind, limit⟩ depth bound ts).params.length := by
  induction ts generalizing bound xs with
  | nil =>
    cases hxs
    rfl
  | cons t ts ih =>
    obtain ⟨x, ys, rfl, hx, hys, hparams⟩ := renderAll_cons_eq_ok hxs
    have hfirst := h t List.mem_cons_self depth bound x hx
    have hrest := ih (fun u hu => h u (List.mem_cons_of_mem t hu)) hys
    generalize hn : (render ⟨.bind, limit⟩ depth bound t).params.length = n
      at hfirst hrest hparams
    -- what the rest shows is numbered behind the parameters of the first tree
    have hdisjoint : ∀ i ∈ ys.flatMap fun y => placeholderNumbers y.toList,
        i ∉ placeholderNumbers x.toList := by
      intro i hi hmem
      rw [← List.mem_eraseDups, hrest, List.mem_range'_1] at hi
      rw [← List.mem_eraseDups, hfirst, List.mem_range'_1] at hmem
      omega
    calc ((x :: ys).flatMap fun x => placeholderNumbers x.toList).eraseDups
        = List.range' (bound + 1) n ++ List.range' (bound + n + 1) _ := by
          rw [List.flatMap_cons, eraseDups_append_of_disjoint hdisjoint, hfirst, hrest]
      _ = List.range' (bound + 1) (n + _) := by
          rw [Nat.add_right_comm, List.range'_append_1]
      _ = _ := by rw [hparams, List.length_append, hn]

theorem showsInOrder {limit : Option UInt64} {t : FilterTree} (ht : t.SignFree)
    (hswap : t.SwapFree) : ShowsInOrder limit t := by
  induction t with
  | node kind text children ih =>
    intro depth bound x hx
    cases renderedAs_of_render_ok hx with
    | @literal k _ _ _ hplaced =>
      have hlen := length_params_of_render_bind hx
      have hcopies : (node (.literal k) text children).copies = [1] := rfl
      rw [hlen, hcopies, hplaced, placedText, placeholderNumbers_placeholder]
      rfl
    | property =>
      have hlen := length_params_of_render_bind hx
      have hcopies : (node .property text children).copies = [] := rfl
      have hsign : '@' ∉ text.toList := ht _ (self_mem_reached _) rfl
      rw [hlen, hcopies, placeholderNumbers_of_no_sign hsign]
      rfl
    | @branch _ _ _ _ us xs hus hxs hspell =>
      have hk := nests_of_layout? hus
      have hchildren : ∀ t ∈ children, ShowsInOrder limit t := fun t hmem =>
        ih t hmem (ht.child hk hmem) (hswap.child hk hmem)
      have hsealed := sealed_operands (fun t hmem => ht.child hk hmem) hxs
      obtain ⟨-, -, -, -, -, hparams⟩ := layout_of_render_ok hk hx
      have hlen : children.length = (xs.map String.toList).length := by
        rw [List.length_map, length_of_renderAll_ok hxs]
      calc (placeholderNumbers x.toList).eraseDups
          = (us.slots.flatMap fun i =>
              placeholderNumbers (operandOf (xs.map String.toList) i)).eraseDups := by
            rw [hspell, Layout.placeholderNumbers_spell (fits_layout? hus) hsealed]
        -- a second mention of an operand is behind its first one and can be left out
        _ = ((List.range children.length).flatMap fun i =>
              placeholderNumbers (operandOf (xs.map String.toList) i)).eraseDups := by
            rw [eraseDups_flatMap, eraseDups_slots hus hswap]
        _ = (((List.range children.length).map (operandOf (xs.map String.toList))).flatMap
              placeholderNumbers).eraseDups := by
            rw [List.flatMap_map]
        _ = (xs.flatMap fun x => placeholderNumbers x.toList).eraseDups := by
            rw [hlen, map_operandOf_range, List.flatMap_map]
        _ = List.range' (bound + 1) (render ⟨.bind, limit⟩ depth bound
              (node kind text children)).params.length := by
            rw [eraseDups_of_renderAll hchildren hxs, hparams]

/-- The placeholders of a bound fragment, each taken where it first appears, are numbered in
ascending order without a gap, unless a `substringof` exchanges its operands. -/
theorem first_placeholders_compile_bind {limit : Option UInt64} {t : FilterTree} {c : Compiled}
    (ht : t.SignFree) (hswap : t.SwapFree) (hc : compile ⟨.bind, limit⟩ t = .ok c) :
    (placeholderNumbers c.fragment.toList).eraseDups = List.range' 1 c.params.length := by
  obtain ⟨x, hx, rfl⟩ := render_of_compile_ok hc
  exact showsInOrder ht hswap 1 0 x hx

theorem first_placeholders_compile_bind_repeated :
    (comparison "in" (function "Substring" [string "@p9", number "1"])
        (list [number "2", number "3"])).SignFree ∧
      (comparison "in" (function "Substring" [string "@p9", number "1"])
        (list [number "2", number "3"])).SwapFree ∧
      ∃ c, compile ⟨.bind, some 3⟩ (comparison "in" (function "Substring" [string "@p9",
          number "1"]) (list [number "2", number "3"])) = .ok c ∧
        c.fragment = "\x7b \x7b $substrCP: [ @p1, @p2, \x7b $strLenCP: @p1 \x7d ] \x7d: " ++
          "\x7b $in: [@p3, @p4] \x7d \x7d" ∧
        (placeholderNumbers c.fragment.toList).eraseDups = [1, 2, 3, 4] := by
  have ht : (comparison "in" (function "Substring" [string "@p9", number "1"])
      (list [number "2", number "3"])).SignFree := by
    unfold SignFree
    decide +kernel
  have hswap : (comparison "in" (function "Substring" [string "@p9", number "1"])
      (list [number "2", number "3"])).SwapFree := by
    unfold SwapFree
    decide +kernel
  have hc : compile ⟨.bind, some 3⟩ (comparison "in" (function "Substring" [string "@p9",
      number "1"]) (list [number "2", number "3"])) = .ok _ := rfl
  exact ⟨ht, hswap, _, hc, by decide +kernel, first_placeholders_compile_bind ht hswap hc⟩

example : (compile ⟨.bind, none⟩ (function "substringof" [string "a", string "b"])).map
    Compiled.fragment = .ok "\x7b $gte: [ \x7b $indexOfCP: [ @p2, @p1 ] \x7d, 0 ] \x7d" := by
  decide +kernel

end ODataQuery
