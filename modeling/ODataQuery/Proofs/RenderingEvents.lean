import ODataQuery.Proofs.Labelling
import ODataQuery.Proofs.Layout

/-! The events of a rendering. Any rendering first goes through steps, each a string without
quotes or an operator that has its text, and a rejection for want of a template ends with a
warning. A rendering that succeeds has one step for each operator that it reaches, behind the
steps of its operands, and one for each string that lacks its quotes. -/
namespace ODataQuery

/-- Whether an event belongs to the course of a rendering, not to its end. -/
def Event.isStep : Event → Bool
  | .unquoted _ | .rendered _ _ => true
  | .unimplemented _ | .compiled _ _ | .rejected _ => false

/-- The warning that goes with a rejection, if there is one. -/
def Rejection.warnings : Rejection → List Event
  | .unimplemented op => [.unimplemented op]
  | _ => []

namespace Rendering

variable {α β : Type}

theorem events_andThen_of_ok {r : Rendering α} {a : α} (h : r.result = .ok a)
    (f : α → Rendering β) : (r.andThen f).events = r.events ++ (f a).events := by
  simp [andThen, h]

theorem events_andThen_of_error {r : Rendering α} {e : Rejection} (h : r.result = .error e)
    (f : α → Rendering β) : (r.andThen f).events = r.events := by
  simp [andThen, h]

/-- The events behind the steps of a rendering. -/
def closing (r : Rendering α) : List Event :=
  match r.result with
  | .ok _ => []
  | .error e => e.warnings

theorem closing_of_ok {r : Rendering α} {a : α} (h : r.result = .ok a) : r.closing = [] := by
  rw [closing, h]

theorem closing_of_error {r : Rendering α} {e : Rejection} (h : r.result = .error e) :
    r.closing = e.warnings := by
  rw [closing, h]

theorem mem_closing {r : Rendering α} {e : Event} (h : e ∈ r.closing) :
    ∃ op, e = .unimplemented op ∧ r.result = .error (.unimplemented op) := by
  rw [closing] at h
  split at h
  · exact absurd h List.not_mem_nil
  · rename_i reason hr
    cases reason with
    | unimplemented op => exact ⟨op, List.mem_singleton.mp h, hr⟩
    | _ => exact absurd h List.not_mem_nil

/-- The events are steps, and behind them the warning that goes with the rejection. -/
def Logged (r : Rendering α) : Prop :=
  ∃ steps, r.events = steps ++ r.closing ∧ ∀ e ∈ steps, e.isStep = true

theorem logged_of_events {r : Rendering α} (h : r.events = r.closing) : r.Logged :=
  ⟨[], h, fun _ he => absurd he List.not_mem_nil⟩

theorem Logged.map {r : Rendering α} (h : r.Logged) (f : α → β) : (r.map f).Logged := by
  obtain ⟨steps, hevents, hsteps⟩ := h
  have hclosing : (r.map f).closing = r.closing := by
    simp only [closing, result_map]
    cases r.result <;> rfl
  exact ⟨steps, by rw [hclosing, ← hevents]; rfl, hsteps⟩

/-- A step may follow as long as there is no rejection. -/
theorem Logged.note {r : Rendering α} {a : α} (h : r.Logged) (hr : r.result = .ok a)
    {e : Event} (he : e.isStep = true) : (r.note e).Logged := by
  obtain ⟨steps, hevents, hsteps⟩ := h
  rw [closing_of_ok hr, List.append_nil] at hevents
  refine ⟨steps ++ [e], ?_, ?_⟩
  · rw [closing_of_ok (r := r.note e) hr, List.append_nil, ← hevents]
    rfl
  · exact List.forall_mem_append.mpr ⟨hsteps, List.forall_mem_singleton.mpr he⟩

theorem Logged.andThen {r : Rendering α} {f : α → Rendering β} (h : r.Logged)
    (hf : ∀ a, (f a).Logged) : (r.andThen f).Logged := by
  obtain ⟨steps, hevents, hsteps⟩ := h
  cases hr : r.result with
  | error e =>
    refine ⟨steps, ?_, hsteps⟩
    rw [events_andThen_of_error hr, hevents, closing_of_error hr,
      closing_of_error (andThen_of_error hr f).1]
  | ok a =>
    obtain ⟨steps', hevents', hsteps'⟩ := hf a
    -- the first part ends without a warning, so the steps of both go together
    have hclosing : (r.andThen f).closing = (f a).closing := by
      rw [closing, closing, (andThen_of_ok hr f).1]
    refine ⟨steps ++ steps', ?_, List.forall_mem_append.mpr ⟨hsteps, hsteps'⟩⟩
    rw [events_andThen_of_ok hr, hevents, hevents', closing_of_ok hr, hclosing,
      List.append_nil, List.append_assoc]

end Rendering

open Rendering

theorem events_placeLiteral (o : Options) (bound : Nat) (k : LiteralKind) (x : String) :
    (placeLiteral o bound k x).events = [] := by
  rw [placeLiteral]
  cases o.literals <;> rfl

theorem result_placeLiteral (o : Options) (bound : Nat) (k : LiteralKind) (x : String) :
    ∃ y, (placeLiteral o bound k x).result = .ok y := by
  rw [placeLiteral]
  cases o.literals <;> exact ⟨_, rfl⟩

theorem placeLiteral_logged (o : Options) (bound : Nat) (k : LiteralKind) (x : String) :
    (placeLiteral o bound k x).Logged := by
  obtain ⟨y, hy⟩ := result_placeLiteral o bound k x
  apply logged_of_events
  rw [events_placeLiteral, closing_of_ok hy]

theorem renderLiteral_logged (o : Options) (bound : Nat) (k : LiteralKind) (s : String) :
    (renderLiteral o bound k s).Logged := by
  have hplaced (x : String) := placeLiteral_logged o bound k x
  unfold renderLiteral
  split
  · split
    · exact hplaced _
    · obtain ⟨y, hy⟩ := result_placeLiteral o bound .string s
      exact (hplaced s).note hy rfl
  · exact hplaced s

theorem applyTemplate_logged (op : Operator) (t : Template) (texts : List String) :
    (applyTemplate op t texts).Logged := by
  rw [applyTemplate]
  split
  · rename_i x _
    exact (logged_of_events (r := done x) rfl).note rfl rfl
  · exact logged_of_events rfl

/-- A template that is filled is reported with the text it gives. -/
theorem events_applyTemplate {op : Operator} {t : Template} {texts : List String} {x : String}
    (h : (applyTemplate op t texts).result = .ok x) :
    (applyTemplate op t texts).events = [.rendered op x] := by
  rw [applyTemplate] at h ⊢
  split at h
  · cases h
    rfl
  · cases h

theorem visit_logged (o : Options) (bound : Nat) (kind : Kind) (s : String) (n : Nat) :
    (∃ r, visit o bound kind s n = .settled r ∧ r.Logged) ∨
      ∃ f, visit o bound kind s n = .operands f ∧ ∀ texts, (f texts).Logged := by
  cases kind with
  | literal k => exact .inl ⟨_, rfl, renderLiteral_logged o bound k s⟩
  | property => exact .inl ⟨_, rfl, logged_of_events rfl⟩
  | unsupported k => exact .inl ⟨_, rfl, logged_of_events rfl⟩
  | list => exact .inr ⟨_, rfl, fun _ => logged_of_events rfl⟩
  | operator k =>
    cases hop : Operator.ofName? s with
    | none => exact .inl ⟨_, visit_unknown o bound k n hop, logged_of_events rfl⟩
    | some op =>
      cases ht : op.template? n with
      | none => exact .inl ⟨_, visit_unimplemented o bound k hop ht, logged_of_events rfl⟩
      | some t => exact .inr ⟨_, visit_operator o bound k hop ht, applyTemplate_logged op t⟩

theorem renderAll_logged {o : Options} {depth : Nat} {ts : List FilterTree}
    (h : ∀ t ∈ ts, ∀ bound, (render o depth bound t).Logged) (bound : Nat) :
    (renderAll o depth bound ts).Logged := by
  induction ts generalizing bound with
  | nil => exact logged_of_events rfl
  | cons t ts ih =>
    rw [renderAll]
    apply (h t List.mem_cons_self bound).andThen
    intro x
    exact (ih (fun u hu => h u (List.mem_cons_of_mem t hu)) _).map (x :: ·)

/-- Only the end of a rendering can be anything but a step. -/
theorem render_logged (o : Options) (depth bound : Nat) (t : FilterTree) :
    (render o depth bound t).Logged := by
  induction t generalizing depth bound with
  | node kind text children ih =>
    cases he : o.exceeded? depth with
    | some limit =>
      rw [render_of_exceeded he]
      exact logged_of_events rfl
    | none =>
      rw [render_eq_visit he]
      obtain ⟨r, hv, hr⟩ | ⟨f, hv, hf⟩ := visit_logged o bound kind text children.length
      · rw [hv]
        exact hr
      · rw [hv]
        exact (renderAll_logged (fun t ht b => ih t ht (depth + 1) b) bound).andThen hf

namespace FilterTree

mutual

/-- The operators that are reached from the root, each behind those in its operands and the
operands from left to right. -/
def operators : FilterTree → List FilterTree
  | node (.operator k) s ts => operatorsAll ts ++ [node (.operator k) s ts]
  | node .list _ ts => operatorsAll ts
  | node (.literal _) _ _ | node .property _ _ | node (.unsupported _) _ _ => []

def operatorsAll : List FilterTree → List FilterTree
  | [] => []
  | t :: ts => t.operators ++ operatorsAll ts

end

/-- Whether the node is a string that is not enclosed in a pair of equal quotes. -/
def lacksQuotes (t : FilterTree) : Bool :=
  t.kind = .literal .string && !enclosed t.text.toList

/-- The strings without quotes that are reached from the root, from left to right. -/
def unquoted (t : FilterTree) : List FilterTree := t.reached.filter lacksQuotes

theorem unquoted_of_nests {k : Kind} (hk : k.nests = true) (s : String)
    (ts : List FilterTree) : (node k s ts).unquoted = ts.flatMap unquoted := by
  have hroot : lacksQuotes (node k s ts) = false := by
    cases k <;> first | rfl | cases hk
  rw [unquoted, reached_of_nests hk, List.filter_cons_of_neg (by rw [hroot]; exact nofun),
    List.filter_flatMap]
  rfl

theorem unquoted_of_not_nests {k : Kind} (hk : k.nests = false) (s : String)
    (ts : List FilterTree) :
    (node k s ts).unquoted =
      if (node k s ts).lacksQuotes then [node k s ts] else [] := by
  rw [unquoted, reached, hk, List.filter_cons]
  rfl

theorem operators_of_nests {k : Kind} (hk : k.nests = true) (s : String)
    (ts : List FilterTree) :
    (node k s ts).operators = operatorsAll ts ++ if k.isOperator then [node k s ts] else [] := by
  cases k with
  | list => exact (List.append_nil _).symm
  | operator k => rw [operators]; rfl
  | _ => cases hk

theorem operators_of_not_nests {k : Kind} (hk : k.nests = false) (s : String)
    (ts : List FilterTree) : (node k s ts).operators = [] := by
  cases k <;> first | rfl | cases hk

end FilterTree

open FilterTree

/-- The event tells of an operator with the text it has been rendered to, somewhere in a
filter. -/
def RenderedBy (o : Options) (n : FilterTree) (e : Event) : Prop :=
  ∃ op text depth bound, Operator.ofName? n.text = some op ∧ e = .rendered op text ∧
    (render o depth bound n).result = .ok text

namespace Rendering

variable {α β : Type} {o : Options} {ops us ops' us' : List FilterTree}

/-- The events tell of these operators and warn of these strings, in their order. -/
structure Reports (o : Options) (ops us : List FilterTree) (r : Rendering α) : Prop where
  traces : List.Forall₂ (RenderedBy o) ops (r.events.filter (·.level = .trace))
  warnings : r.events.filter (·.level = .warn) = us.map fun n => .unquoted n.text

theorem reports_nothing {r : Rendering α} (h : r.events = []) : r.Reports o [] [] := by
  constructor
  · rw [h]
    exact .nil
  · rw [h]
    rfl

theorem Reports.map {r : Rendering α} (h : r.Reports o ops us) (f : α → β) :
    (r.map f).Reports o ops us :=
  ⟨h.traces, h.warnings⟩

theorem Reports.andThen {r : Rendering α} {f : α → Rendering β} {a : α}
    (h : r.Reports o ops us) (hr : r.result = .ok a) (hf : (f a).Reports o ops' us') :
    (r.andThen f).Reports o (ops ++ ops') (us ++ us') := by
  have hevents := events_andThen_of_ok hr f
  constructor
  · rw [hevents, List.filter_append]
    exact List.rel_append h.traces hf.traces
  · rw [hevents, List.filter_append, h.warnings, hf.warnings, List.map_append]

end Rendering

theorem renderLiteral_reports (o : Options) (bound : Nat) (k : LiteralKind) (s : String)
    (ts : List FilterTree) :
    (renderLiteral o bound k s).Reports o [] (node (.literal k) s ts).unquoted := by
  rw [unquoted_of_not_nests rfl]
  by_cases hk : k = .string
  · subst hk
    simp only [renderLiteral, unquote?_eq]
    by_cases he : enclosed s.toList = true
    · have hquotes : (node (.literal .string) s ts).lacksQuotes = false := by
        simp [lacksQuotes, text, he]
      rw [if_pos he, hquotes]
      exact reports_nothing (events_placeLiteral o bound .string _)
    · have hquotes : (node (.literal .string) s ts).lacksQuotes = true := by
        simp [lacksQuotes, kind, text, he]
      have hevents : ((placeLiteral o bound .string s).note (.unquoted s)).events =
          [.unquoted s] := by
        rw [note, events_placeLiteral]
        rfl
      rw [if_neg he, hquotes]
      constructor
      · rw [hevents]
        exact .nil
      · rw [hevents]
        rfl
  · have hplain : renderLiteral o bound k s = placeLiteral o bound k s := by
      cases k <;> first | exact absurd rfl hk | rfl
    have hquotes : (node (.literal k) s ts).lacksQuotes = false := by
      simp [lacksQuotes, kind, hk]
    rw [hplain, hquotes]
    exact reports_nothing (events_placeLiteral o bound k s)

/-- Behind its operands, a list adds nothing to the log and an operator the text it gets. -/
theorem assemble_reports {o : Options} {depth bound : Nat} {k : Kind} {s x : String}
    {ts : List FilterTree} {xs : List String} {f : List String → Rendering String}
    (hv : visit o bound k s ts.length = .operands f) (hx : (f xs).result = .ok x)
    (hnode : (render o depth bound (node k s ts)).result = .ok x) :
    (f xs).Reports o (if k.isOperator then [node k s ts] else []) [] := by
  cases k with
  | list =>
    cases hv
    exact reports_nothing rfl
  | operator k =>
    cases hop : Operator.ofName? s with
    | none =>
      rw [visit_unknown o bound k _ hop] at hv
      cases hv
    | some op =>
      cases ht : op.template? ts.length with
      | none =>
        rw [visit_unimplemented o bound k hop ht] at hv
        cases hv
      | some t =>
        rw [visit_operator o bound k hop ht] at hv
        cases hv
        have hevents := events_applyTemplate hx
        constructor
        · rw [hevents]
          exact .cons ⟨op, x, depth, bound, hop, rfl, hnode⟩ .nil
        · rw [hevents]
          rfl
  | _ => cases hv

theorem renderAll_reports {o : Options} {depth : Nat} {ts : List FilterTree}
    (h : ∀ t ∈ ts, ∀ bound x, (render o depth bound t).result = .ok x →
      (render o depth bound t).Reports o t.operators t.unquoted) {bound : Nat}
    {xs : List String} (hxs : (renderAll o depth bound ts).result = .ok xs) :
    (renderAll o depth bound ts).Reports o (operatorsAll ts) (ts.flatMap unquoted) := by
  induction ts generalizing bound xs with
  | nil => exact reports_nothing rfl
  | cons t ts ih =>
    obtain ⟨x, ys, rfl, hx, hys, -⟩ := renderAll_cons_eq_ok hxs
    have hfirst := h t List.mem_cons_self bound x hx
    have hrest := ih (fun u hu => h u (List.mem_cons_of_mem t hu)) hys
    rw [renderAll, operatorsAll, List.flatMap_cons]
    exact hfirst.andThen hx (hrest.map _)

/-- A rendering that succeeds tells of every operator it has reached and warns of every
string without quotes. -/
theorem render_reports {o : Options} {t : FilterTree} {depth bound : Nat} {x : String}
    (h : (render o depth bound t).result = .ok x) :
    (render o depth bound t).Reports o t.operators t.unquoted := by
  induction t generalizing depth bound x with
  | node kind text children ih =>
    cases he : o.exceeded? depth with
    | some limit =>
      rw [render_of_exceeded he] at h
      cases h
    | none =>
      have hvisit := render_eq_visit he bound kind text children
      cases hk : kind.nests with
      | true =>
        obtain ⟨f, xs, hv, hxs, hx, -⟩ := operands_of_render_ok hk h
        have hall := renderAll_reports (fun t ht b y hy => ih t ht hy) hxs
        have hown := assemble_reports hv hx h
        rw [hv] at hvisit
        rw [hvisit, operators_of_nests hk, unquoted_of_nests hk]
        have hboth := hall.andThen hxs hown
        rwa [List.append_nil] at hboth
      | false =>
        rw [operators_of_not_nests hk]
        cases kind with
        | literal k =>
          rw [hvisit]
          exact renderLiteral_reports o bound k text children
        | property =>
          rw [hvisit, unquoted_of_not_nests hk]
          exact reports_nothing rfl
        | unsupported k =>
          rw [hvisit] at h
          cases h
        | list => cases hk
        | operator k => cases hk

end ODataQuery
