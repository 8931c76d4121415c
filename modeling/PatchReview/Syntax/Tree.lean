import PatchReview.Encoding.Utf8

/-!
# Syntax trees

A node has a kind, a byte range of the source and children in order. `preorder` lists the nodes of a tree by
recursion; `walk` lists those of a stack of trees with an explicit stack.
-/

namespace PatchReview.Syntax

inductive Tree where
  | node (kind : String) (start stop : Nat) (children : List Tree)
  deriving Inhabited

/-- A line and a column in bytes, both from 0. -/
structure Point where
  line : Nat
  column : Nat

def pointOf (source : Bytes) (offset : Nat) : Point :=
  let before := source.take offset
  ⟨before.count 10, (before.reverse.takeWhile (· != 10)).length⟩

def slice (source : Bytes) (start stop : Nat) : Bytes := (source.take stop).drop start

namespace Tree

def kind : Tree → String
  | node k _ _ _ => k

def start : Tree → Nat
  | node _ s _ _ => s

def stop : Tree → Nat
  | node _ _ e _ => e

def children : Tree → List Tree
  | node _ _ _ cs => cs

mutual

def size : Tree → Nat
  | node _ _ _ cs => sizes cs + 1

def sizes : List Tree → Nat
  | [] => 0
  | t :: ts => size t + sizes ts

end

mutual

/-- The nodes of a tree, each before its children. -/
def preorder : Tree → List Tree
  | t@(node _ _ _ cs) => t :: preorders cs

def preorders : List Tree → List Tree
  | [] => []
  | t :: ts => preorder t ++ preorders ts

end

theorem sizes_append (as bs : List Tree) : sizes (as ++ bs) = sizes as + sizes bs := by
  induction as with
  | nil => simp [sizes]
  | cons t ts ih => simp [sizes, ih]; omega

/-- The nodes met by a loop that takes the top of a stack and puts its children there. -/
def walk : List Tree → List Tree
  | [] => []
  | t :: stack => t :: walk (t.children ++ stack)
termination_by stack => sizes stack
decreasing_by
  cases t
  simp [sizes, sizes_append, size, children]

/-- The text of a node: its bytes read as UTF-8 without faulty pieces. -/
def text (source : Bytes) (t : Tree) : String := Utf8.decodeDropping (slice source t.start t.stop)

/-- The first node with exactly this byte range that such a loop meets. It leaves out what stands below a node whose
range does not hold this one. -/
def firstAt? (start stop : Int) : List Tree → Option Tree
  | [] => none
  | t :: stack =>
    if t.start = start ∧ t.stop = stop then some t
    else if t.start ≤ start ∧ stop ≤ t.stop then firstAt? start stop (t.children ++ stack)
    else firstAt? start stop stack
termination_by stack => sizes stack
decreasing_by
  all_goals
    cases t
    grind [sizes, sizes_append, size, children]

def atRange? (t : Tree) (start stop : Int) : Option Tree := firstAt? start stop [t]

end Tree

end PatchReview.Syntax
