import ODataQuery.Proofs.Rendering

/-! What a traversal of a filter meets, written down in full: literals and reasons for a
rejection, in the order in which a rendering comes to them. A rendering follows this list up
to the first problem. So its rejection is that problem, and the literals it has bound, also
when it is rejected, are those before it. -/
namespace ODataQuery

/-- A literal, or a reason to reject the filter. -/
inductive Encounter
  | literal (p : Param)
  | problem (e : Rejection)
  deriving DecidableEq, Repr

namespace Encounter

def problem? : Encounter → Option Rejection
  | literal _ => none
  | problem e => some e

def literalsBefore : List Encounter → List Param
  | literal p :: rest => p :: literalsBefore rest
  | _ => [] -- the end, or the first problem

/-- The parameters that are bound when the first problem ends a rendering. -/
def boundBefore (style : LiteralStyle) (es : List Encounter) : List Param :=
  match style with
  | .inline => []
  | .bind => literalsBefore es

theorem boundBefore_append_of_none (style : LiteralStyle) {es : List Encounter}
    (h : es.findSome? problem? = none) (es' : List Encounter) :
    boundBefore style (es ++ es') = boundBefore style es ++ boundBefore style es' := by
  cases style with
  | inline => rfl
  | bind =>
    simp only [boundBefore]
    induction es with
    | nil => rfl
    | cons e es ih =>
      cases e with
      | literal p => simpa [literalsBefore] using ih h
      | problem e => cases h

theorem boundBefore_append_of_some (style : LiteralStyle) {es : List Encounter} {e : Rejection}
    (h : es.findSome? problem? = some e) (es' : List Encounter) :
    boundBefore style (es ++ es') = boundBefore style es := by
  cases style with
  | inline => rfl
  | bind =>
    simp only [boundBefore]
    induction es with
    | nil => cases h
    | cons e es ih =>
      cases e with
      | literal p => simpa [literalsBefore] using ih h
      | problem e => rfl

end Encounter

open Encounter

mutual

/-- What is met in the tree at the given depth. Nothing is met below a node that is too
deep, that has no template or that does not nest; the number of operands is looked at behind
them. -/
def encounters (limit : Option UInt64) (depth : Nat) : FilterTree → List Encounter
  | .node kind text children =>
    match limit.filter (·.toNat < depth) with
    | some l => [.problem (.tooDeep l)]
    | none =>
      match kind with
      | .literal k => [.literal ⟨.literal k, literalText k text⟩]
      | .property => []
      | .unsupported k => [.problem (.unsupportedKind k)]
      | .list => encountersAll limit (depth + 1) children
      | .operator _ =>
        match Operator.ofName? text with
        | none => [.problem (.unknownOperator text)]
        | some op =>
          match op.template? children.length with
          | none => [.problem (.unimplemented op)]
          | some t =>
            encountersAll limit (depth + 1) children ++
              if t.arity = children.length then []
              else [.problem (.wrongArity op t.arity children.length)]

def encountersAll (limit : Option UInt64) (depth : Nat) : List FilterTree → List Encounter
  | [] => []
  | t :: ts => encounters limit depth t ++ encountersAll limit depth ts

end

namespace Rendering

variable {α β : Type}

def rejection? (r : Rendering α) : Option Rejection :=
  match r.result with
  | .ok _ => none
  | .error e => some e

/-- The rendering is rejected for the first problem of the list, and has bound the literals
before it. -/
structure Follows (style : LiteralStyle) (es : List Encounter) (r : Rendering α) : Prop where
  rejection : r.rejection? = es.findSome? problem?
  params : r.params = boundBefore style es

theorem follows_done (style : LiteralStyle) (a : α) : (done a).Follows style [] := by
  refine ⟨rfl, ?_⟩
  cases style <;> rfl

theorem follows_reject (style : LiteralStyle) (e : Rejection) :
    (reject e : Rendering α).Follows style [.problem e] := by
  refine ⟨rfl, ?_⟩
  cases style <;> rfl

theorem Follows.note {style : LiteralStyle} {es : List Encounter} {r : Rendering α}
    (h : r.Follows style es) (e : Event) : (r.note e).Follows style es :=
  ⟨h.rejection, h.params⟩

theorem Follows.map {style : LiteralStyle} {es : List Encounter} {r : Rendering α}
    (h : r.Follows style es) (f : α → β) : (r.map f).Follows style es := by
  refine ⟨?_, h.params⟩
  rw [← h.rejection]
  simp only [rejection?, result_map]
  cases r.result <;> rfl

theorem Follows.andThen {style : LiteralStyle} {es es' : List Encounter} {r : Rendering α}
    {f : α → Rendering β} (h : r.Follows style es)
    (hf : ∀ a, r.result = .ok a → (f a).Follows style es') :
    (r.andThen f).Follows style (es ++ es') := by
  have hrejection := h.rejection
  cases hr : r.result with
  | error e =>
    -- the problem that ends `r` hides everything behind it
    obtain ⟨hres, hpar⟩ := andThen_of_error hr f
    have hfirst : es.findSome? problem? = some e := by
      rw [← hrejection, rejection?, hr]
    constructor
    · rw [rejection?, hres, List.findSome?_append, hfirst, Option.some_or]
    · rw [hpar, h.params, boundBefore_append_of_some style hfirst]
  | ok a =>
    obtain ⟨hres, hpar⟩ := andThen_of_ok hr f
    have hnext := hf a hr
    have hnone : es.findSome? problem? = none := by
      rw [← hrejection, rejection?, hr]
    constructor
    · rw [List.findSome?_append, hnone, Option.none_or, ← hnext.rejection, rejection?, hres]
      rfl
    · rw [hpar, h.params, hnext.params, boundBefore_append_of_none style hnone]

end Rendering

open Rendering

theorem renderLiteral_follows (o : Options) (bound : Nat) (k : LiteralKind) (s : String) :
    (renderLiteral o bound k s).Follows o.literals [.literal ⟨.literal k, literalText k s⟩] := by
  obtain ⟨hres, hpar⟩ := renderLiteral_eq o bound k s
  constructor
  · rw [rejection?, hres, placeLiteral]
    cases o.literals <;> rfl
  · rw [hpar, placeLiteral]
    cases o.literals <;> rfl

theorem applyTemplate_follows (style : LiteralStyle) (op : Operator) (t : Template)
    (texts : List String) :
    (applyTemplate op t texts).Follows style
      (if t.arity = texts.length then []
        else [.problem (.wrongArity op t.arity texts.length)]) := by
  by_cases h : t.arity = texts.length
  · simp only [applyTemplate, Template.instantiate?, h, if_true]
    exact (follows_done style _).note _
  · simp only [applyTemplate, Template.instantiate?, h, Ne.symm h, if_false]
    exact follows_reject style _

theorem renderAll_follows {o : Options} {ts : List FilterTree} {depth : Nat}
    (h : ∀ t ∈ ts, ∀ bound,
      (render o depth bound t).Follows o.literals (encounters o.maxDepth depth t)) (bound : Nat) :
    (renderAll o depth bound ts).Follows o.literals (encountersAll o.maxDepth depth ts) := by
  induction ts generalizing bound with
  | nil =>
    rw [renderAll, encountersAll]
    exact follows_done _ _
  | cons t ts ih =>
    rw [renderAll, encountersAll]
    apply (h t List.mem_cons_self bound).andThen
    intro x _
    exact (ih (fun u hu => h u (List.mem_cons_of_mem t hu)) _).map _

/-- A rendering follows what the traversal of its tree meets, however many parameters were
bound before. -/
theorem render_follows (o : Options) (depth bound : Nat) (t : FilterTree) :
    (render o depth bound t).Follows o.literals (encounters o.maxDepth depth t) := by
  induction t generalizing depth bound with
  | node kind text children ih =>
    have hall := renderAll_follows (fun u hu b => ih u hu (depth + 1) b) bound
    have hdepth : o.maxDepth.filter (·.toNat < depth) = o.exceeded? depth := rfl
    unfold encounters
    rw [hdepth]
    cases he : o.exceeded? depth with
    | some limit =>
      rw [render_of_exceeded he]
      exact follows_reject _ _
    | none =>
      rw [render_eq_visit he]
      cases kind with
      | literal k => exact renderLiteral_follows o bound k text
      | property => exact follows_done _ _
      | unsupported k => exact follows_reject _ _
      | list =>
        have h := hall.andThen (f := fun texts => done (listText texts))
          fun texts _ => follows_done _ _
        rw [List.append_nil] at h
        exact h
      | operator k =>
        simp only [visit]
        cases Operator.ofName? text with
        | none => exact follows_reject _ _
        | some op =>
          dsimp only
          cases op.template? children.length with
          | none => exact (follows_reject _ _).note _
          | some t =>
            apply hall.andThen
            intro texts htexts
            -- there are as many texts as children, so the arity is compared with both
            rw [← length_of_renderAll_ok htexts]
            exact applyTemplate_follows o.literals op t texts

end ODataQuery
