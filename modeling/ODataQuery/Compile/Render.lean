import ODataQuery.Compile.Rendering

/-! Rendering a filter tree as query text. The children of a node are rendered in order
and their texts put into the template of its operator; the first rejection ends the
rendering. A bound literal becomes a placeholder numbered after the parameters before
it. In a session several filters share one numbering. -/
namespace ODataQuery

/-- The text between two equal quotes, single or double, that enclose a token. -/
def unquote? (token : String) : Option String :=
  match token.toList with
  | [] => none
  | q :: rest =>
    if (q = '\'' ∨ q = '"') ∧ rest.getLast? = some q then some (String.ofList rest.dropLast)
    else none

/-- The placeholder of the parameter with the given number, counted from 1. -/
def placeholder (number : Nat) : String := "@p" ++ toString number

/-- Puts the text of a literal into the fragment or binds it after `bound` parameters. -/
def placeLiteral (o : Options) (bound : Nat) (k : LiteralKind) (text : String) :
    Rendering String :=
  match o.literals with
  | .inline => .done text
  | .bind => { result := .ok (placeholder (bound + 1)), params := [⟨.literal k, text⟩] }

def renderLiteral (o : Options) (bound : Nat) (k : LiteralKind) (text : String) :
    Rendering String :=
  match k with
  | .string =>
    match unquote? text with
    | some content => placeLiteral o bound k content
    | none => (placeLiteral o bound k text).note (.unquoted text)
  | _ => placeLiteral o bound k text

def applyTemplate (op : Operator) (t : Template) (texts : List String) : Rendering String :=
  match t.instantiate? texts with
  | some text => (Rendering.done text).note (.rendered op text)
  | none => .reject (.wrongArity op t.arity texts.length)

def listText (texts : List String) : String := "[" ++ ", ".intercalate texts ++ "]"

mutual

/-- Renders the tree at the given depth, after `bound` parameters have been bound. -/
def render (o : Options) (depth bound : Nat) : FilterTree → Rendering String
  | .node kind text children =>
    match o.exceeded? depth with
    | some limit => .reject (.tooDeep limit)
    | none =>
      match kind with
      | .literal k => renderLiteral o bound k text
      | .property => .done text
      | .list => (renderAll o (depth + 1) bound children).map listText
      | .operator _ =>
        match Operator.ofName? text with
        | none => .reject (.unknownOperator text)
        | some op =>
          match op.template? children.length with
          | none => (Rendering.reject (.unimplemented op)).note (.unimplemented op)
          | some t => (renderAll o (depth + 1) bound children).andThen (applyTemplate op t)
      | .unsupported k => .reject (.unsupportedKind k)

def renderAll (o : Options) (depth bound : Nat) : List FilterTree → Rendering (List String)
  | [] => .done []
  | t :: ts =>
    let first := render o depth bound t
    first.andThen fun text =>
      (renderAll o depth (bound + first.params.length) ts).map (text :: ·)

end

/-- A compiled filter: the query text and the values of its placeholders in order. -/
structure Compiled where
  fragment : String
  params : List Param
  deriving DecidableEq, Repr

def compile (o : Options) (t : FilterTree) : Except Rejection Compiled :=
  let r := render o 1 0 t
  r.result.map fun text => ⟨text, r.params⟩

/-- The events of compiling a filter: those of rendering it, then the outcome. -/
def compileEvents (o : Options) (t : FilterTree) : List Event :=
  let r := render o 1 0 t
  let outcome :=
    match r.result with
    | .ok text => .compiled r.params.length text
    | .error reason => .rejected reason
  r.events ++ [outcome]

/-- The state of rendering one filter after another: the parameters bound so far. -/
structure Session where
  options : Options
  params : List Param := []

/-- Renders one more filter. The parameters bound before a rejection stay bound. -/
def Session.render (s : Session) (t : FilterTree) : Except Rejection String × Session :=
  let r := ODataQuery.render s.options 1 s.params.length t
  (r.result, { s with params := s.params ++ r.params })

end ODataQuery
