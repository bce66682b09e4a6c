import CallerFirst.Proofs.Search
import CallerFirst.Walk
import Mathlib.Algebra.Order.BigOperators.Group.List
import Mathlib.Algebra.GroupWithZero.Nat

/-!
# What a walk does

`walk_spec`: working off a stack comes to its end, and it is the same as going over the tree, in, below
and out. A walk never runs out of turns, since every node stands on the stack at most twice.
-/

namespace CallerFirst

open StateTransition

-- ---------------------------------------------------------------------------
-- Sizes
-- ---------------------------------------------------------------------------

theorem sizeAll_eq_sum (ns : List Node) : sizeAll ns = (ns.map Node.size).sum := by
  induction ns with
  | nil => rfl
  | cons n ns ih => simp [sizeAll, ih]

theorem Node.size_eq (n : Node) : n.size = 1 + (n.children.map Node.size).sum := by
  cases n with
  | enumConstant place name arguments body =>
    cases body with
    | none => simp [Node.size, children, sizeAll_eq_sum, sizeOption]
    | some body =>
      simp only [Node.size, children, sizeAll_eq_sum, sizeOption, Option.toList_some,
        List.map_append, List.sum_append, List.map_cons, List.map_nil, List.sum_cons, List.sum_nil]
      omega
  | annotationMember => rfl
  | _ => simp [Node.size, children, sizeAll_eq_sum]

theorem Node.size_lt_of_mem_children {n child : Node} (h : child ∈ n.children) :
    child.size < n.size := by
  have := List.le_sum_of_mem (List.mem_map_of_mem (f := Node.size) h)
  rw [n.size_eq]
  omega

theorem Node.induction {P : Node → Prop} (h : ∀ n, (∀ child ∈ n.children, P child) → P n) (n : Node) :
    P n :=
  h n fun child _ => Node.induction h child
termination_by n.size
decreasing_by exact Node.size_lt_of_mem_children ‹_›

-- ---------------------------------------------------------------------------
-- Going over a tree
-- ---------------------------------------------------------------------------

namespace Visitor

variable {σ : Type} {v : Visitor σ}

/-- Goes over a tree: in, below if the visitor says so, and out. -/
def visit (v : Visitor σ) (n : Node) (s : σ) : σ :=
  let (deeper, s) := v.enter n s
  v.leave n (if deeper then n.children.attach.foldl (fun s child => v.visit child.1 s) s else s)
termination_by n.size
decreasing_by exact Node.size_lt_of_mem_children child.2

def visitAll (v : Visitor σ) (ns : List Node) (s : σ) : σ :=
  ns.foldl (fun s n => v.visit n s) s

theorem visit_eq (v : Visitor σ) (n : Node) (s : σ) :
    v.visit n s =
      v.leave n
        (if (v.enter n s).1 then v.visitAll n.children (v.enter n s).2 else (v.enter n s).2) := by
  rw [visit]
  simp only [visitAll, List.foldl_attach (f := fun s n => v.visit n s)]

theorem visit_of_deeper (h : v.enter n s = (true, s')) :
    v.visit n s = v.leave n (v.visitAll n.children s') := by
  simp [visit_eq, h]

theorem visit_of_skipped (h : v.enter n s = (false, s')) : v.visit n s = v.leave n s' := by
  simp [visit_eq, h]

def cost : Pending → Nat
  | .enter n => 2 * n.size
  | .leave _ => 1

def settle (v : Visitor σ) (s : σ) : Pending → σ
  | .enter n => v.visit n s
  | .leave n => v.leave n s

theorem sum_cost_enter (ns : List Node) :
    ((ns.map Pending.enter).map cost).sum = 2 * (ns.map Node.size).sum := by
  induction ns with
  | nil => rfl
  | cons n ns ih =>
    simp only [List.map_cons, List.sum_cons, ih, cost]
    omega

/-- One turn on a state and the stack: the node on top is left, or it is entered and its children come on
top, if they are to be visited. -/
def turn (v : Visitor σ) : σ × List Pending → Option (σ × List Pending)
  | (_, []) => none
  | (s, .leave n :: stack) => some (v.leave n s, stack)
  | (s, .enter n :: stack) =>
    some ((v.enter n s).2,
      (if (v.enter n s).1 then n.children.map .enter else []) ++ .leave n :: stack)

theorem run_eq_runFor (v : Visitor σ) (fuel : Nat) (stack : List Pending) (s : σ) :
    v.run fuel stack s = (runFor v.turn fuel (s, stack)).1 := by
  induction fuel generalizing stack s with
  | zero => rfl
  | succ fuel ih =>
    cases stack with
    | nil => rfl
    | cons p stack => cases p <;> exact ih _ _

theorem turn_ne_none (s : σ) (p : Pending) (stack : List Pending) : v.turn (s, p :: stack) ≠ none := by
  cases p <;> exact Option.some_ne_none _

theorem turn_cost {x y : σ × List Pending} (h : v.turn x = some y) :
    (y.2.map cost).sum < (x.2.map cost).sum := by
  obtain ⟨s, stack⟩ := x
  cases stack with
  | nil => cases h
  | cons p stack =>
    cases p with
    | leave n =>
      obtain rfl := Option.some.inj h
      simp [cost]
    | enter n =>
      obtain rfl := Option.some.inj h
      simp only [List.map_append, List.sum_append, List.map_cons, List.sum_cons, cost, n.size_eq]
      split
      · rw [sum_cost_enter]
        omega
      · simp only [List.map_nil, List.sum_nil]
        omega

theorem turn_settle {x y : σ × List Pending} (h : v.turn x = some y) :
    y.2.foldl v.settle y.1 = x.2.foldl v.settle x.1 := by
  obtain ⟨s, stack⟩ := x
  cases stack with
  | nil => cases h
  | cons p stack =>
    cases p with
    | leave n =>
      obtain rfl := Option.some.inj h
      rfl
    | enter n =>
      obtain rfl := Option.some.inj h
      simp only [List.foldl_append, List.foldl_cons, settle, visit_eq]
      split
      · rw [List.foldl_map]
        rfl
      · rfl

/-- A walk comes to its end, and it is the visit of its root. -/
theorem walk_spec (v : Visitor σ) (root : Node) (s : σ) :
    (v.walk root s, []) ∈ eval v.turn (s, [.enter root]) ∧ v.walk root s = v.visit root s := by
  have heval : ((runFor v.turn (2 * root.size) (s, [.enter root])).1, []) ∈
      eval v.turn (s, [.enter root]) :=
    runFor_empties (fun stack => (stack.map cost).sum) turn_ne_none (fun _ _ => turn_cost)
      (by simp [cost])
  rw [walk, run_eq_runFor]
  exact ⟨heval, eval_keeps (P := fun x => x.2.foldl v.settle x.1 = v.visit root s)
    (fun _ _ h hx => (turn_settle h).trans hx) heval rfl⟩

theorem walk_eq_visit (v : Visitor σ) (root : Node) (s : σ) : v.walk root s = v.visit root s :=
  (v.walk_spec root s).2

-- ---------------------------------------------------------------------------
-- What every step keeps
-- ---------------------------------------------------------------------------

theorem visit_keeps {P : σ → Prop} (henter : ∀ n s, P s → P (v.enter n s).2)
    (hleave : ∀ n s, P s → P (v.leave n s)) (n : Node) {s : σ} (h : P s) : P (v.visit n s) := by
  have below (ns : List Node) (ih : ∀ m ∈ ns, ∀ s, P s → P (v.visit m s)) :
      ∀ s, P s → P (v.visitAll ns s) := by
    induction ns with
    | nil => exact fun s h => h
    | cons m ns ih' =>
      intro s h
      exact ih' (fun k hk => ih k (.tail _ hk)) _ (ih m List.mem_cons_self s h)
  induction n using Node.induction generalizing s with
  | h n ih =>
    rw [visit_eq]
    refine hleave n _ ?_
    split
    · exact below n.children (fun m hm s h => ih m hm h) _ (henter n s h)
    · exact henter n s h

theorem visitAll_keeps {P : σ → Prop} (henter : ∀ n s, P s → P (v.enter n s).2)
    (hleave : ∀ n s, P s → P (v.leave n s)) (ns : List Node) {s : σ} (h : P s) :
    P (v.visitAll ns s) := by
  induction ns generalizing s with
  | nil => exact h
  | cons n ns ih => exact ih (visit_keeps henter hleave n h)

end Visitor

end CallerFirst
