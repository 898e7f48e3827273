import ODataQuery.Filter.Kind

/-! Filter trees as a parser hands them over. A node has a kind, the text of its token
and its children; the text is kept as written, so a string literal keeps its quotes. -/
namespace ODataQuery

inductive FilterTree
  | node (kind : Kind) (text : String) (children : List FilterTree)

namespace FilterTree

def kind : FilterTree → Kind
  | node k _ _ => k

def text : FilterTree → String
  | node _ s _ => s

def children : FilterTree → List FilterTree
  | node _ _ ts => ts

def leaf (k : Kind) (s : String) : FilterTree := node k s []

def property (name : String) : FilterTree := leaf .property name

/-- The string literal with the given content; the quotes are added here. -/
def string (content : String) : FilterTree :=
  leaf (.literal .string) ("'" ++ content ++ "'")

def number (digits : String) : FilterTree := leaf (.literal .number) digits

def boolean (b : Bool) : FilterTree :=
  leaf (.literal .boolean) (if b then "true" else "false")

def list (items : List FilterTree) : FilterTree := node .list "(" items

def comparison (op : String) (left right : FilterTree) : FilterTree :=
  node (.operator .comparison) op [left, right]

def logical (op : String) (operands : List FilterTree) : FilterTree :=
  node (.operator .logical) op operands

def function (name : String) (arguments : List FilterTree) : FilterTree :=
  node (.operator .function) name arguments

def isLeaf (t : FilterTree) : Bool := t.children.isEmpty

mutual

/-- The number of nodes on the longest path from the root; a leaf has depth 1. -/
def depth : FilterTree → Nat
  | node _ _ ts => 1 + depthAll ts

/-- The depth of the deepest tree of a list, 0 if there is none. -/
def depthAll : List FilterTree → Nat
  | [] => 0
  | t :: ts => max t.depth (depthAll ts)

end

mutual

def decEq : (a b : FilterTree) → Decidable (a = b)
  | node k s ts, node k' s' ts' =>
    if hk : k = k' then
      if hs : s = s' then
        match decEqAll ts ts' with
        | isTrue h => isTrue (by rw [hk, hs, h])
        | isFalse h => isFalse (by intro e; injection e; contradiction)
      else isFalse (by intro e; injection e; contradiction)
    else isFalse (by intro e; injection e; contradiction)

def decEqAll : (as bs : List FilterTree) → Decidable (as = bs)
  | [], [] => isTrue rfl
  | [], _ :: _ => isFalse (by simp)
  | _ :: _, [] => isFalse (by simp)
  | a :: as, b :: bs =>
    match decEq a b, decEqAll as bs with
    | isTrue h, isTrue hs => isTrue (by rw [h, hs])
    | isFalse h, _ => isFalse (by intro e; injection e; contradiction)
    | _, isFalse hs => isFalse (by intro e; injection e; contradiction)

end

instance : DecidableEq FilterTree := decEq

end FilterTree
end ODataQuery
