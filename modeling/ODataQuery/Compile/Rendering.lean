import ODataQuery.Filter.Tree
import ODataQuery.Fragment.OperatorTemplate
import ODataQuery.Log

/-! What goes into a compilation beside the filter, and what comes out of rendering a part of
it. A caller chooses the options. Rendering yields a text or a rejection, and beside it the
parameters bound and the events met on the way, which a rejection does not take back. -/
namespace ODataQuery

/-- Where literals go: into the fragment, or into a list of parameters that the fragment
refers to. -/
inductive LiteralStyle
  | inline | bind
  deriving DecidableEq, Repr

/-- Compile options. The depth limit is a 64-bit word and counts the root as 1. -/
structure Options where
  literals : LiteralStyle := .inline
  maxDepth : Option UInt64 := none
  deriving DecidableEq, Repr

def LiteralStyle.name : LiteralStyle → String
  | inline => "inline"
  | bind => "bind"

def LiteralStyle.known : List LiteralStyle := [inline, bind]

namespace Options

def binding : Options := { literals := .bind }

def limitedTo (o : Options) (limit : UInt64) : Options := { o with maxDepth := some limit }

/-- The limit that a node at the given depth exceeds, if it does. -/
def exceeded? (o : Options) (depth : Nat) : Option UInt64 :=
  o.maxDepth.filter fun limit => limit.toNat < depth

end Options

inductive Rejection
  /-- No operator has the written name. -/
  | unknownOperator (written : String)
  /-- The operator is known and has no template. -/
  | unimplemented (op : Operator)
  /-- Nodes of this kind have no compile rule. -/
  | unsupportedKind (kind : UnsupportedKind)
  /-- The operator takes another number of operands. -/
  | wrongArity (op : Operator) (expected found : Nat)
  /-- The filter is nested more deeply than the options allow. -/
  | tooDeep (limit : UInt64)
  deriving DecidableEq, Repr

namespace Rejection

def message : Rejection → String
  | unknownOperator written => "Unknown operator: " ++ written
  | unimplemented op => op.name ++ " is not implemented"
  | unsupportedKind kind => "Unsupported node kind: " ++ kind.name
  | wrongArity op expected found =>
    "Arity mismatch for " ++ op.name ++ ": expected " ++ toString expected ++
      " argument(s), found " ++ toString found
  | tooDeep limit => "Filter nesting exceeds the depth limit of " ++ toString limit.toNat

/-- Whether the sender of the filter can mend it. Every rejection is about the filter. -/
def blamesSender : Rejection → Bool
  | unknownOperator _ | unimplemented _ | unsupportedKind _ => true
  | wrongArity _ _ _ | tooDeep _ => true

end Rejection

/-- A literal pulled out of a fragment, with the quotes of a string removed. -/
structure Param where
  kind : Kind
  value : String
  deriving DecidableEq, Repr

inductive Event
  /-- A string literal has no enclosing quotes. -/
  | unquoted (text : String)
  /-- An operator without a template is used. -/
  | unimplemented (op : Operator)
  /-- An operator node has been turned into text. -/
  | rendered (op : Operator) (text : String)
  | compiled (params : Nat) (text : String)
  | rejected (reason : Rejection)
  deriving DecidableEq, Repr

namespace Event

def level : Event → Level
  | unquoted _ | unimplemented _ => .warn
  | rendered _ _ => .trace
  | compiled _ _ | rejected _ => .debug

def message : Event → String
  | unquoted text => "String literal without enclosing quotes: " ++ text
  | unimplemented op => "Filter uses unimplemented operator: " ++ op.name
  | rendered op text => "Rendered " ++ op.name ++ " -> " ++ text
  | compiled params text =>
    "Compiled filter (" ++ toString params ++ " bound parameter(s)): " ++ text
  | rejected reason => "Filter compilation failed: " ++ reason.message

def logLine (e : Event) : LogLine := ⟨e.level, e.message⟩

end Event

/-- The result of rendering, with the parameters and events it adds. -/
structure Rendering (α : Type) where
  result : Except Rejection α
  params : List Param := []
  events : List Event := []

namespace Rendering

variable {α β : Type}

def done (a : α) : Rendering α := { result := .ok a }

def reject (r : Rejection) : Rendering α := { result := .error r }

/-- Adds an event after those met so far. -/
def note (r : Rendering α) (e : Event) : Rendering α := { r with events := r.events ++ [e] }

def map (f : α → β) (r : Rendering α) : Rendering β :=
  { result := r.result.map f, params := r.params, events := r.events }

/-- Goes on with a result; a rejection ends the rendering. -/
def andThen (r : Rendering α) (f : α → Rendering β) : Rendering β :=
  match r.result with
  | .ok a =>
    { result := (f a).result, params := r.params ++ (f a).params,
      events := r.events ++ (f a).events }
  | .error e => { result := .error e, params := r.params, events := r.events }

end Rendering

end ODataQuery
