import CallerFirst.Tree

/-!
# Walking over a tree

A visitor sees every node on the way in and on the way out. On the way in it says whether the
children are visited; the way out is seen in any case.
-/

namespace CallerFirst

mutual
def Node.size : Node → Nat
  | .unit _ _ types => 1 + sizeAll types
  | .type _ _ members => 1 + sizeAll members
  | .method _ _ body => 1 + sizeAll body
  | .initializer _ _ body => 1 + sizeAll body
  | .field _ _ _ _ initializers => 1 + sizeAll initializers
  | .enumConstant _ _ arguments body => 1 + sizeAll arguments + sizeOption body
  | .annotationMember _ _ _ => 1
  | .anonymousClass _ members => 1 + sizeAll members
  | .call _ _ _ arguments => 1 + sizeAll arguments
def sizeAll : List Node → Nat
  | [] => 0
  | n :: rest => n.size + sizeAll rest
def sizeOption : Option Node → Nat
  | none => 0
  | some n => n.size
end

structure Visitor (σ : Type) where
  /-- The way in: whether to visit the children, and the state behind it. -/
  enter : Node → σ → Bool × σ
  leave : Node → σ → σ

inductive Pending where
  | enter (n : Node)
  | leave (n : Node)

namespace Visitor

variable {σ : Type}

def run (v : Visitor σ) : Nat → List Pending → σ → σ
  | 0, _, s | _ + 1, [], s => s
  | fuel + 1, .leave n :: stack, s => run v fuel stack (v.leave n s)
  | fuel + 1, .enter n :: stack, s =>
    let (deeper, s) := v.enter n s
    let children := if deeper then n.children.map .enter else []
    run v fuel (children ++ .leave n :: stack) s

def walk (v : Visitor σ) (root : Node) (s : σ) : σ :=
  v.run (2 * root.size) [.enter root] s

end Visitor

namespace Node

def flattenFrom : Nat → List Node → List Node
  | 0, _ | _ + 1, [] => []
  | fuel + 1, n :: stack => n :: flattenFrom fuel (n.children ++ stack)

def flatten (root : Node) : List Node :=
  flattenFrom root.size [root]

inductive Event where
  | enter (n : Node)
  | leave (n : Node)

def Event.line : Event → String
  | enter n => "+" ++ n.label
  | leave n => "-" ++ n.label

/-- Records the ways in and out of nodes of the kinds seen, and does not go below those skipped. -/
def recorder (seen skipped : Kind → Bool) : Visitor (List Event) where
  enter n events :=
    if seen n.kind then (!skipped n.kind, .enter n :: events) else (true, events)
  leave n events := if seen n.kind then .leave n :: events else events

def trace (seen skipped : Kind → Bool) (root : Node) : List Event :=
  ((recorder seen skipped).walk root []).reverse

end Node

end CallerFirst
