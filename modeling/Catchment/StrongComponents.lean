/-!
# Strongly connected components

A depth-first walk that numbers the nodes as it meets them and keeps the unfinished ones on a
stack. A node from which nothing earlier on the stack is reached ends a component: the nodes above
it on the stack and the node itself, in the order they are popped. Components come in reverse
topological order.
-/
namespace Catchment

structure Walk (α : Type) where
  /-- The nodes met so far, latest first. -/
  met : List α
  /-- The unfinished nodes, latest first. -/
  stack : List α
  /-- The finished components, latest first. -/
  found : List (List α)

namespace Walk

variable {α : Type} [DecidableEq α]

def start : Walk α := ⟨[], [], []⟩

/-- The number of nodes met before this one. -/
def number? (w : Walk α) (v : α) : Option Nat := w.met.reverse.idxOf? v

def enter (w : Walk α) (v : α) : Walk α := { w with met := v :: w.met, stack := v :: w.stack }

/-- Pops the stack down to a node, as one component. -/
def close (w : Walk α) (v : α) : Walk α :=
  { w with
    stack := (w.stack.dropWhile (· ≠ v)).drop 1
    found := (w.stack.takeWhile (· ≠ v) ++ [v]) :: w.found }

/-- Walks from a node; also gives the least number on the stack that it reaches. -/
def visit (next : α → List α) : Nat → α → Walk α → Nat × Walk α
  | 0, _, w => (w.met.length, w)
  | fuel + 1, v, w =>
    let own := w.met.length
    let (low, w) := (next v).foldl (fun (low, w) u =>
      match w.number? u with
      | none =>
        let (reached, w) := visit next fuel u w
        (min low reached, w)
      | some n => if w.stack.contains u then (min low n, w) else (low, w)) (own, w.enter v)
    (low, if low = own then w.close v else w)

end Walk

/-- The components of the nodes reached from a list, for at most `size` nodes. -/
def strongComponents {α : Type} [DecidableEq α] (size : Nat) (nodes : List α)
    (next : α → List α) : List (List α) :=
  let walk := nodes.foldl (fun w v =>
    match w.number? v with
    | none => (Walk.visit next size v w).2
    | some _ => w) Walk.start
  walk.found.reverse

end Catchment
