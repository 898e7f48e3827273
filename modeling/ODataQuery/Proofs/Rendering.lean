import ODataQuery.Compile.Render
import ODataQuery.Proofs.Tree

/-! Rendering seen from one node: within the depth limit a node is either settled by
itself or waits for the texts of its operands. Every run of the renderer is built from
this step and from the left-to-right pass over the operands. -/
namespace ODataQuery

namespace Rendering

variable {α β : Type}

@[simp] theorem result_map (f : α → β) (r : Rendering α) : (r.map f).result = r.result.map f :=
  rfl

@[simp] theorem params_map (f : α → β) (r : Rendering α) : (r.map f).params = r.params := rfl

@[simp] theorem result_note (r : Rendering α) (e : Event) : (r.note e).result = r.result := rfl

@[simp] theorem params_note (r : Rendering α) (e : Event) : (r.note e).params = r.params := rfl

theorem andThen_of_ok {r : Rendering α} {a : α} (h : r.result = .ok a) (f : α → Rendering β) :
    (r.andThen f).result = (f a).result ∧ (r.andThen f).params = r.params ++ (f a).params := by
  simp [andThen, h]

theorem andThen_of_error {r : Rendering α} {e : Rejection} (h : r.result = .error e)
    (f : α → Rendering β) :
    (r.andThen f).result = .error e ∧ (r.andThen f).params = r.params := by
  simp [andThen, h]

theorem ok_of_andThen_ok {r : Rendering α} {f : α → Rendering β} {b : β}
    (h : (r.andThen f).result = .ok b) : ∃ a, r.result = .ok a ∧ (f a).result = .ok b := by
  cases hr : r.result with
  | ok a => exact ⟨a, rfl, by rw [← (andThen_of_ok hr f).1, h]⟩
  | error e =>
    rw [(andThen_of_error hr f).1] at h
    cases h

theorem params_andThen_eq_nil {r : Rendering α} {f : α → Rendering β} (h : r.params = [])
    (hf : ∀ a, (f a).params = []) : (r.andThen f).params = [] := by
  cases hr : r.result with
  | ok a => rw [(andThen_of_ok hr f).2, h, hf, List.nil_append]
  | error e => rw [(andThen_of_error hr f).2, h]

/-- Two renderings with the same result which, if it is a text, have bound parameters that
stand in the relation `Q`. -/
structure Alike (Q : List Param → List Param → Prop) (r r' : Rendering α) : Prop where
  result : r.result = r'.result
  params : ∀ a, r.result = .ok a → Q r.params r'.params

variable {P Q R : List Param → List Param → Prop}

theorem Alike.of_error {r r' : Rendering α} {e : Rejection} (h : r.result = .error e)
    (h' : r'.result = .error e) : Alike Q r r' := by
  refine ⟨h.trans h'.symm, ?_⟩
  intro a ha
  rw [h] at ha
  cases ha

theorem Alike.map {r r' : Rendering α} (h : Alike Q r r') (f : α → β) :
    Alike Q (r.map f) (r'.map f) := by
  refine ⟨by rw [result_map, result_map, h.result], ?_⟩
  intro b hb
  cases hr : r.result with
  | ok a => exact h.params a hr
  | error e =>
    rw [result_map, hr] at hb
    cases hb

theorem Alike.andThen {r r' : Rendering α} {f f' : α → Rendering β} (h : Alike P r r')
    (hf : ∀ a, r.result = .ok a → Alike Q (f a) (f' a))
    (hR : ∀ p p' q q', P p p' → Q q q' → R (p ++ q) (p' ++ q')) :
    Alike R (r.andThen f) (r'.andThen f') := by
  cases hr : r.result with
  | error e => exact .of_error (andThen_of_error hr f).1 (andThen_of_error (h.result ▸ hr) f').1
  | ok a =>
    obtain ⟨hres, hpar⟩ := andThen_of_ok hr f
    obtain ⟨hres', hpar'⟩ := andThen_of_ok (h.result ▸ hr) f'
    have hnext := hf a hr
    refine ⟨by rw [hres, hres', hnext.result], ?_⟩
    intro b hb
    rw [hpar, hpar']
    exact hR _ _ _ _ (h.params a hr) (hnext.params b (hres ▸ hb))

end Rendering

/-- Whether a text begins and ends with the same quote, which are two characters. -/
def enclosed (cs : List Char) : Bool :=
  2 ≤ cs.length && cs.head? = cs.getLast? && (cs.head? = some '\'' || cs.head? = some '"')

/-- The text that a literal stands for: a string without the pair of quotes around it, if
there is one, and any other literal as written. -/
def literalText (k : LiteralKind) (written : String) : String :=
  if k = .string && enclosed written.toList then String.ofList written.toList.tail.dropLast
  else written

theorem unquote?_eq (token : String) :
    unquote? token =
      if enclosed token.toList then some (String.ofList token.toList.tail.dropLast)
      else none := by
  unfold unquote?
  cases token.toList with
  | nil => rfl
  | cons q rest =>
    cases rest with
    | nil => simp [enclosed] -- one quote is not a pair
    | cons c rest =>
      have hlast : (q :: c :: rest).getLast? = (c :: rest).getLast? :=
        List.getLast?_cons_cons
      simp only [enclosed, hlast, List.head?_cons, List.tail_cons, List.length_cons]
      congr 1
      grind

/-- A literal is placed with the text it stands for; only the events tell whether the
quotes of a string were missing. -/
theorem renderLiteral_eq (o : Options) (bound : Nat) (k : LiteralKind) (written : String) :
    (renderLiteral o bound k written).result =
        (placeLiteral o bound k (literalText k written)).result ∧
      (renderLiteral o bound k written).params =
        (placeLiteral o bound k (literalText k written)).params := by
  by_cases hk : k = .string
  · subst hk
    simp only [renderLiteral, unquote?_eq]
    by_cases he : enclosed written.toList = true
    · simp [literalText, he]
    · simp [literalText, he]
  · have hplain : renderLiteral o bound k written = placeLiteral o bound k written := by
      cases k <;> first | exact absurd rfl hk | rfl
    simp [hplain, literalText, hk]

/-- What a node that is not too deep asks for. -/
inductive Visit
  -- the children are not looked at
  | settled (r : Rendering String)
  -- the children are rendered first, and their texts put together
  | operands (assemble : List String → Rendering String)

/-- The step of the renderer at a node with `n` children. -/
def visit (o : Options) (bound : Nat) (kind : Kind) (text : String) (n : Nat) : Visit :=
  match kind with
  | .literal k => .settled (renderLiteral o bound k text)
  | .property => .settled (.done text)
  | .list => .operands fun texts => .done (listText texts)
  | .operator _ =>
    match Operator.ofName? text with
    | none => .settled (.reject (.unknownOperator text))
    | some op =>
      match op.template? n with
      | none => .settled ((Rendering.reject (.unimplemented op)).note (.unimplemented op))
      | some t => .operands (applyTemplate op t)
  | .unsupported k => .settled (.reject (.unsupportedKind k))

theorem render_of_exceeded {o : Options} {depth : Nat} {limit : UInt64}
    (h : o.exceeded? depth = some limit) (bound : Nat) (t : FilterTree) :
    render o depth bound t = .reject (.tooDeep limit) := by
  cases t
  simp only [render, h]

/-- Rendering is one step at the root and, if it asks for them, a pass over the
children. -/
theorem render_eq_visit {o : Options} {depth : Nat} (h : o.exceeded? depth = none)
    (bound : Nat) (kind : Kind) (text : String) (ts : List FilterTree) :
    render o depth bound (.node kind text ts) =
      match visit o bound kind text ts.length with
      | .settled r => r
      | .operands f => (renderAll o (depth + 1) bound ts).andThen f := by
  cases kind with
  | literal k => simp only [render, h, visit]
  | property => simp only [render, h, visit]
  | unsupported k => simp only [render, h, visit]
  | list =>
    -- a list changes the result of the pass and does not go on from it
    simp only [render, h, visit, Rendering.map, Rendering.andThen, Rendering.done]
    cases (renderAll o (depth + 1) bound ts).result <;> simp [Except.map]
  | operator k =>
    simp only [render, h, visit]
    cases Operator.ofName? text with
    | none => rfl
    | some op =>
      dsimp only
      cases op.template? ts.length <;> rfl

/-- Trees that are rendered the same one by one are so one after the other. -/
theorem renderAll_congr {o o' : Options} {depth depth' : Nat} {ts ts' : List FilterTree}
    (h : List.Forall₂ (fun t t' => ∀ bound, render o depth bound t = render o' depth' bound t')
      ts ts') (bound : Nat) : renderAll o depth bound ts = renderAll o' depth' bound ts' := by
  induction h generalizing bound with
  | nil => rw [renderAll, renderAll]
  | @cons t t' ts ts' hfirst _ ih =>
    -- the first tree leaves the same number of parameters, from which the rest goes on
    rw [renderAll, renderAll, hfirst]
    simp only [ih]

/-- Two nodes at which the same step is taken are rendered the same, if their operands are in
case it asks for them. -/
theorem render_congr {o o' : Options} {depth depth' bound : Nat} {k k' : Kind} {s s' : String}
    {ts ts' : List FilterTree} (hd : o.exceeded? depth = o'.exceeded? depth')
    (hv : visit o bound k s ts.length = visit o' bound k' s' ts'.length)
    (hall : ∀ f, visit o bound k s ts.length = .operands f →
      renderAll o (depth + 1) bound ts = renderAll o' (depth' + 1) bound ts') :
    render o depth bound (.node k s ts) = render o' depth' bound (.node k' s' ts') := by
  cases he : o.exceeded? depth with
  | some limit => rw [render_of_exceeded he, render_of_exceeded (hd ▸ he)]
  | none =>
    rw [render_eq_visit he, render_eq_visit (hd ▸ he), ← hv]
    cases hstep : visit o bound k s ts.length with
    | settled r => rfl
    | operands f =>
      dsimp only
      rw [hall f hstep]

/-- At a list or an operator the step does not depend on the options nor on the
parameters. -/
theorem visit_of_nests {k : Kind} (hk : k.nests = true) (o o' : Options) (bound bound' : Nat)
    (s : String) (n : Nat) : visit o bound k s n = visit o' bound' k s n := by
  cases k <;> first | rfl | cases hk

section Operators

variable (o : Options) (bound : Nat) (k : OperatorKind) {s : String} {op : Operator} {n : Nat}

theorem visit_unknown (n : Nat) (h : Operator.ofName? s = none) :
    visit o bound (.operator k) s n = .settled (.reject (.unknownOperator s)) := by
  simp only [visit, h]

theorem visit_unimplemented (h : Operator.ofName? s = some op) (ht : op.template? n = none) :
    visit o bound (.operator k) s n =
      .settled ((Rendering.reject (.unimplemented op)).note (.unimplemented op)) := by
  simp only [visit, h, ht]

theorem visit_operator {t : Template} (h : Operator.ofName? s = some op)
    (ht : op.template? n = some t) :
    visit o bound (.operator k) s n = .operands (applyTemplate op t) := by
  simp only [visit, h, ht]

end Operators

/-- A list or an operator is rejected on sight, or asks for its operands; by itself it
binds nothing. -/
theorem visit_cases {k : Kind} (hk : k.nests = true) (o : Options) (bound : Nat) (s : String)
    (n : Nat) :
    (∃ r e, visit o bound k s n = .settled r ∧ r.result = .error e ∧ r.params = []) ∨
      ∃ f, visit o bound k s n = .operands f ∧ ∀ texts, (f texts).params = [] := by
  cases k with
  | list => exact .inr ⟨_, rfl, fun _ => rfl⟩
  | operator k =>
    cases hop : Operator.ofName? s with
    | none => exact .inl ⟨_, _, visit_unknown o bound k n hop, rfl, rfl⟩
    | some op =>
      cases ht : op.template? n with
      | none => exact .inl ⟨_, _, visit_unimplemented o bound k hop ht, rfl, rfl⟩
      | some t =>
        refine .inr ⟨_, visit_operator o bound k hop ht, ?_⟩
        intro texts
        simp only [applyTemplate]
        split <;> rfl
  | _ => cases hk

theorem nests_of_operands {o : Options} {bound : Nat} {k : Kind} {s : String} {n : Nat}
    {f : List String → Rendering String} (h : visit o bound k s n = .operands f) :
    k.nests = true := by
  cases k <;> first | rfl | cases h

/-- Below a node that is neither a list nor an operator nothing is looked at. -/
theorem render_congr_of_not_nests {o : Options} {bound : Nat} {k : Kind} {s s' : String}
    {ts ts' : List FilterTree} (hk : k.nests = false)
    (hv : visit o bound k s ts.length = visit o bound k s' ts'.length) (depth : Nat) :
    render o depth bound (.node k s ts) = render o depth bound (.node k s' ts') := by
  apply render_congr rfl hv
  intro f hf
  rw [nests_of_operands hf] at hk
  cases hk

theorem renderAll_cons_alike {P Q R : List Param → List Param → Prop} {o o' : Options}
    {depth bound bound' : Nat} {t t' : FilterTree} {ts ts' : List FilterTree}
    (h : (render o depth bound t).Alike P (render o' depth bound' t'))
    (hrest : ∀ x, (render o depth bound t).result = .ok x →
      (renderAll o depth (bound + (render o depth bound t).params.length) ts).Alike Q
        (renderAll o' depth (bound' + (render o' depth bound' t').params.length) ts'))
    (hR : ∀ p p' q q', P p p' → Q q q' → R (p ++ q) (p' ++ q')) :
    (renderAll o depth bound (t :: ts)).Alike R (renderAll o' depth bound' (t' :: ts')) := by
  rw [renderAll, renderAll]
  exact h.andThen (fun x hx => (hrest x hx).map (x :: ·)) hR

/-- Two lists or operators of the same token are rendered alike if their operands are. -/
theorem render_alike_of_nests {Q : List Param → List Param → Prop} {o o' : Options}
    {depth bound bound' : Nat} {k : Kind} {s : String} {ts ts' : List FilterTree}
    (hk : k.nests = true) (hd : o.exceeded? depth = o'.exceeded? depth)
    (hn : ts.length = ts'.length)
    (h : (renderAll o (depth + 1) bound ts).Alike Q (renderAll o' (depth + 1) bound' ts')) :
    (render o depth bound (.node k s ts)).Alike Q (render o' depth bound' (.node k s ts')) := by
  cases he : o.exceeded? depth with
  | some limit =>
    rw [render_of_exceeded he, render_of_exceeded (hd ▸ he)]
    exact .of_error rfl rfl
  | none =>
    rw [render_eq_visit he, render_eq_visit (hd ▸ he), ← hn,
      visit_of_nests hk o' o bound' bound]
    obtain ⟨r, e, hv, hr, -⟩ | ⟨f, hv, hnil⟩ := visit_cases hk o bound s ts.length
    · rw [hv]
      exact .of_error hr hr
    · rw [hv]
      have hf (texts : List String) :
          (f texts).Alike (fun q q' => q = [] ∧ q' = []) (f texts) :=
        ⟨rfl, fun _ _ => ⟨hnil texts, hnil texts⟩⟩
      -- the node binds nothing, so the parameters are those of its operands
      apply h.andThen (fun texts _ => hf texts)
      rintro p p' q q' hp ⟨rfl, rfl⟩
      simpa only [List.append_nil] using hp

theorem renderAll_cons_of_ok {o : Options} {depth bound : Nat} {t : FilterTree} {x : String}
    (h : (render o depth bound t).result = .ok x) (ts : List FilterTree) :
    (renderAll o depth bound (t :: ts)).result =
        (renderAll o depth (bound + (render o depth bound t).params.length) ts).result.map
          (x :: ·) ∧
      (renderAll o depth bound (t :: ts)).params =
        (render o depth bound t).params ++
          (renderAll o depth (bound + (render o depth bound t).params.length) ts).params := by
  rw [renderAll]
  exact Rendering.andThen_of_ok h _

theorem renderAll_cons_of_error {o : Options} {depth bound : Nat} {t : FilterTree}
    {e : Rejection} (h : (render o depth bound t).result = .error e) (ts : List FilterTree) :
    (renderAll o depth bound (t :: ts)).result = .error e ∧
      (renderAll o depth bound (t :: ts)).params = (render o depth bound t).params := by
  rw [renderAll]
  exact Rendering.andThen_of_error h _

theorem renderAll_cons_eq_ok {o : Options} {depth bound : Nat} {t : FilterTree}
    {ts : List FilterTree} {xs : List String}
    (h : (renderAll o depth bound (t :: ts)).result = .ok xs) :
    ∃ x ys, xs = x :: ys ∧ (render o depth bound t).result = .ok x ∧
      (renderAll o depth (bound + (render o depth bound t).params.length) ts).result = .ok ys ∧
      (renderAll o depth bound (t :: ts)).params =
        (render o depth bound t).params ++
          (renderAll o depth (bound + (render o depth bound t).params.length) ts).params := by
  rw [renderAll] at h ⊢
  obtain ⟨x, hx, hmap⟩ := Rendering.ok_of_andThen_ok h
  cases hrest :
      (renderAll o depth (bound + (render o depth bound t).params.length) ts).result with
  | error e =>
    rw [Rendering.result_map, hrest] at hmap
    cases hmap
  | ok ys =>
    rw [Rendering.result_map, hrest] at hmap
    cases hmap
    exact ⟨x, ys, rfl, hx, rfl, (Rendering.andThen_of_ok hx _).2⟩

theorem length_of_renderAll_ok {o : Options} {depth bound : Nat} {ts : List FilterTree}
    {xs : List String} (h : (renderAll o depth bound ts).result = .ok xs) :
    xs.length = ts.length := by
  induction ts generalizing bound xs with
  | nil =>
    cases h
    rfl
  | cons t ts ih =>
    obtain ⟨x, ys, rfl, -, hys, -⟩ := renderAll_cons_eq_ok h
    rw [List.length_cons, List.length_cons, ih hys]

/-- If all trees of a list are rendered, each of them is, and its text is among theirs. -/
theorem render_ok_of_renderAll_ok {o : Options} {depth bound : Nat} {ts : List FilterTree}
    {xs : List String} (h : (renderAll o depth bound ts).result = .ok xs) {t : FilterTree}
    (ht : t ∈ ts) : ∃ bound', ∃ x ∈ xs, (render o depth bound' t).result = .ok x := by
  induction ts generalizing bound xs with
  | nil => exact absurd ht List.not_mem_nil
  | cons u us ih =>
    obtain ⟨x, ys, rfl, hx, hys, -⟩ := renderAll_cons_eq_ok h
    rcases List.mem_cons.mp ht with rfl | ht
    · exact ⟨bound, x, List.mem_cons_self, hx⟩
    · obtain ⟨bound', y, hmem, hy⟩ := ih hys ht
      exact ⟨bound', y, List.mem_cons_of_mem x hmem, hy⟩

/-- A list or an operator that is rendered has its operands rendered before it, and these
bind what it binds. -/
theorem operands_of_render_ok {o : Options} {depth bound : Nat} {k : Kind} {s x : String}
    {ts : List FilterTree} (hk : k.nests = true)
    (h : (render o depth bound (.node k s ts)).result = .ok x) :
    ∃ f xs, visit o bound k s ts.length = .operands f ∧
      (renderAll o (depth + 1) bound ts).result = .ok xs ∧ (f xs).result = .ok x ∧
      (render o depth bound (.node k s ts)).params =
        (renderAll o (depth + 1) bound ts).params := by
  cases he : o.exceeded? depth with
  | some limit =>
    rw [render_of_exceeded he] at h
    cases h
  | none =>
    rw [render_eq_visit he] at h ⊢
    obtain ⟨r, e, hv, hr, -⟩ | ⟨f, hv, hnil⟩ := visit_cases hk o bound s ts.length
    · simp only [hv, hr] at h
      cases h
    · simp only [hv] at h ⊢
      obtain ⟨xs, hxs, hx⟩ := Rendering.ok_of_andThen_ok h
      refine ⟨f, xs, rfl, hxs, hx, ?_⟩
      rw [(Rendering.andThen_of_ok hxs f).2, hnil, List.append_nil]

theorem render_of_compile_ok {o : Options} {t : FilterTree} {c : Compiled}
    (h : compile o t = .ok c) :
    ∃ x, (render o 1 0 t).result = .ok x ∧ ⟨x, (render o 1 0 t).params⟩ = c := by
  simp only [compile] at h
  cases hr : (render o 1 0 t).result with
  | error e =>
    rw [hr] at h
    cases h
  | ok x =>
    rw [hr] at h
    cases h
    exact ⟨x, rfl, rfl⟩

theorem compile_of_render_ok {o : Options} {t : FilterTree} {x : String}
    (h : (render o 1 0 t).result = .ok x) :
    compile o t = .ok ⟨x, (render o 1 0 t).params⟩ := by
  simp only [compile, h]
  rfl

theorem compile_eq_error_iff_render {o : Options} {t : FilterTree} {e : Rejection} :
    compile o t = .error e ↔ (render o 1 0 t).result = .error e := by
  rw [compile]
  cases (render o 1 0 t).result <;> simp [Except.map]

end ODataQuery
