import CallerFirst.Proofs.Walk
import Mathlib.Algebra.GroupWithZero.Nat

/-!
# The order of a walk

Where it depends on the node alone whether a visitor goes below it, the ways in and out of a walk are
those of the recursion: in, below and out, whether it goes below or not (`walk_in_order`). So they are
properly nested, and the nodes of a tree are listed in the order in which a visitor enters them that
goes below every node.
-/

namespace CallerFirst

open StateTransition

namespace Node

variable {deeper : Node → Bool}

-- ---------------------------------------------------------------------------
-- Ways in and out
-- ---------------------------------------------------------------------------

def events (deeper : Node → Bool) (n : Node) : List Event :=
  .enter n ::
    ((if deeper n then n.children.attach.flatMap fun child => events deeper child.1 else []) ++
      [.leave n])
termination_by n.size
decreasing_by exact size_lt_of_mem_children child.2

theorem events_eq (deeper : Node → Bool) (n : Node) :
    n.events deeper =
      .enter n ::
        ((if deeper n then n.children.flatMap (events deeper) else []) ++ [.leave n]) := by
  rw [events, List.flatMap_def, List.flatMap_def, List.attach_map_val (f := events deeper)]

/-- Every way in has its way out behind it, and what lies between is nested likewise. -/
inductive Nested : List Event → Prop
  | nil : Nested []
  | node {n : Node} {below behind : List Event} :
    Nested below → Nested behind → Nested (.enter n :: (below ++ .leave n :: behind))

theorem Nested.append {events events' : List Event} (h : Nested events) (h' : Nested events') :
    Nested (events ++ events') := by
  induction h with
  | nil => exact h'
  | node hbelow _ _ ih => simpa using Nested.node hbelow ih

theorem Nested.flatMap {α : Type} {f : α → List Event} {xs : List α} (h : ∀ x ∈ xs, Nested (f x)) :
    Nested (xs.flatMap f) := by
  induction xs with
  | nil => exact .nil
  | cons x xs ih =>
    rw [List.flatMap_cons]
    exact (h x List.mem_cons_self).append (ih fun y hy => h y (.tail _ hy))

theorem nested_events (deeper : Node → Bool) (n : Node) : Nested (n.events deeper) := by
  induction n using Node.induction with
  | h n ih =>
    rw [events_eq]
    refine .node ?_ .nil
    split
    · exact .flatMap ih
    · exact .nil

-- ---------------------------------------------------------------------------
-- All nodes
-- ---------------------------------------------------------------------------

def Event.entered? : Event → Option Node
  | enter n => some n
  | leave _ => none

/-- Nodes in the order in which a visitor enters them that goes below every node. -/
def entered (n : Node) : List Node :=
  (n.events fun _ => true).filterMap Event.entered?

theorem entered_eq (n : Node) : n.entered = n :: n.children.flatMap entered := by
  rw [entered, events_eq]
  simp only [↓reduceIte, List.filterMap_cons, List.filterMap_append, List.filterMap_flatMap,
    Event.entered?, List.filterMap_nil, List.append_nil]
  rfl

def flattenTurn : List Node × List Node → Option (List Node × List Node)
  | (_, []) => none
  | (listed, n :: stack) => some (listed ++ [n], n.children ++ stack)

theorem flattenFrom_eq (fuel : Nat) (stack listed : List Node) :
    listed ++ flattenFrom fuel stack = (runFor flattenTurn fuel (listed, stack)).1 := by
  induction fuel generalizing stack listed with
  | zero => simp [flattenFrom, runFor]
  | succ fuel ih =>
    cases stack with
    | nil => simp [flattenFrom, runFor, flattenTurn]
    | cons n stack =>
      have hround : flattenTurn (listed, n :: stack) = some (listed ++ [n], n.children ++ stack) := rfl
      rw [runFor_of_round hround, ← ih, flattenFrom, List.append_cons]

theorem flattenTurn_size {x y : List Node × List Node} (h : flattenTurn x = some y) :
    (y.2.map size).sum < (x.2.map size).sum := by
  obtain ⟨listed, stack⟩ := x
  cases stack with
  | nil => cases h
  | cons n stack =>
    obtain rfl := Option.some.inj h
    simp only [List.map_append, List.sum_append, List.map_cons, List.sum_cons, n.size_eq]
    omega

theorem flattenTurn_entered {x y : List Node × List Node} (h : flattenTurn x = some y) :
    y.1 ++ y.2.flatMap entered = x.1 ++ x.2.flatMap entered := by
  obtain ⟨listed, stack⟩ := x
  cases stack with
  | nil => cases h
  | cons n stack =>
    obtain rfl := Option.some.inj h
    simp [n.entered_eq]

theorem flatten_spec (root : Node) :
    (root.flatten, []) ∈ eval flattenTurn ([], [root]) ∧ root.flatten = root.entered := by
  have heval : ((runFor flattenTurn root.size ([], [root])).1, []) ∈ eval flattenTurn ([], [root]) :=
    runFor_empties (fun stack => (stack.map size).sum) (fun _ _ _ => Option.some_ne_none _)
      (fun _ _ => flattenTurn_size) (by simp)
  have hkept := eval_keeps (P := fun x => x.1 ++ x.2.flatMap entered = root.entered)
    (fun _ _ h hx => (flattenTurn_entered h).trans hx) heval (by simp)
  rw [← flattenFrom_eq] at heval hkept
  exact ⟨heval, by simpa [flatten] using hkept⟩

end Node

namespace Visitor

variable {σ : Type} {v : Visitor σ} {deeper : Node → Bool} {s : σ}

open Node (Event)

def react (v : Visitor σ) (s : σ) : Event → σ
  | .enter n => (v.enter n s).2
  | .leave n => v.leave n s

/-- A visit runs through the ways in and out, and nothing else changes the state. -/
theorem visit_eq_foldl (h : ∀ n s, (v.enter n s).1 = deeper n) (n : Node) (s : σ) :
    v.visit n s = (n.events deeper).foldl v.react s := by
  induction n using Node.induction generalizing s with
  | h n ih =>
    have below (ns : List Node) (hns : ∀ m ∈ ns, m ∈ n.children) (s : σ) :
        v.visitAll ns s = (ns.flatMap (Node.events deeper)).foldl v.react s := by
      induction ns generalizing s with
      | nil => rfl
      | cons m ns ih' =>
        rw [List.flatMap_cons, List.foldl_append, ← ih m (hns m List.mem_cons_self)]
        exact ih' (fun k hk => hns k (.tail _ hk)) _
    rw [visit_eq, Node.events_eq, h n s]
    cases deeper n with
    | false => rfl
    | true =>
      simp only [↓reduceIte, List.foldl_cons, List.foldl_append, below n.children fun _ => id]
      rfl

/-- A walk comes to its end, its ways in and out are those of the recursion and properly nested; and all
nodes are listed as a visitor that goes below each of them enters them. -/
structure InOrder (v : Visitor σ) (deeper : Node → Bool) (root : Node) (s : σ) : Prop where
  ends : (v.walk root s, []) ∈ eval v.turn (s, [.enter root])
  events : v.walk root s = (root.events deeper).foldl v.react s
  nested : Node.Nested (root.events deeper)
  listingEnds : (root.flatten, []) ∈ eval Node.flattenTurn ([], [root])
  listing : root.flatten = (root.events fun _ => true).filterMap Event.entered?

theorem walk_in_order (h : ∀ n s, (v.enter n s).1 = deeper n) (root : Node) (s : σ) :
    InOrder v deeper root s where
  ends := (v.walk_spec root s).1
  events := (v.walk_spec root s).2.trans (visit_eq_foldl h root s)
  nested := Node.nested_events deeper root
  listingEnds := root.flatten_spec.1
  listing := root.flatten_spec.2

def callsWithin : Node :=
  .type {} { name := "A" } [
    .method {} { name := "a" } [
      .call "b" false none [
        .call "c" false none [],
        .anonymousClass none [.method {} { name := "d" } []]]]]

/-- Calls have no hooks, and anonymous classes are skipped. -/
theorem walk_in_order_callsWithin :
    let seen := fun kind => kind != Node.Kind.call
    let skipped := fun kind => kind == Node.Kind.anonymousClass
    let deeper := fun n : Node => !(seen n.kind && skipped n.kind)
    (∀ n s, ((Node.recorder seen skipped).enter n s).1 = deeper n) ∧
      InOrder (Node.recorder seen skipped) deeper callsWithin [] ∧
      (Node.trace seen skipped callsWithin).map Node.Event.line =
        ["+type_declaration:A", "+method_declaration:a", "+anonymous_class:", "-anonymous_class:",
          "-method_declaration:a", "-type_declaration:A"] ∧
      callsWithin.flatten.map Node.label =
        ["type_declaration:A", "method_declaration:a", "method_invocation:b", "method_invocation:c",
          "anonymous_class:", "method_declaration:d"] := by
  intro seen skipped deeper
  have hdeeper (n : Node) (s : List Event) :
      ((Node.recorder seen skipped).enter n s).1 = deeper n := by
    cases hseen : seen n.kind <;> simp [Node.recorder, deeper, hseen]
  exact ⟨hdeeper, walk_in_order hdeeper callsWithin [], by decide, by decide⟩

end Visitor

end CallerFirst
