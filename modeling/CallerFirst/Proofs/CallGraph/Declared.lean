import CallerFirst.CallGraph.Declared
import CallerFirst.Proofs.Java.Bindings

/-!
# Declared methods are members

`ofUnit_eq`: the methods and the number of initializer blocks that are found on the way over a unit
are those of its members.
-/

namespace CallerFirst

def Node.isInitializer : Node → Bool
  | .initializer .. => true
  | _ => false

namespace Declared

open Node

variable {key : String} {d : Declared} {n : Node}

theorem visitAll_of_fixed {ns : List Node} (h : ∀ n ∈ ns, visitor.visit n d = d) :
    visitor.visitAll ns d = d := by
  unfold Visitor.visitAll
  induction ns with
  | nil => rfl
  | cons n ns ih =>
    rw [List.foldl_cons, h n List.mem_cons_self]
    exact ih fun m hm => h m (.tail _ hm)

theorem enter_type_of_key_ne {place : Place} {header : TypeHeader} {members : List Node}
    (htop : d.top.map (·.key) = some key) (h : ∀ b ∈ header.binding, b.key ≠ key) :
    visitor.enter (.type place header members) d = (false, d) := by
  obtain ⟨t, ht, rfl⟩ := Option.map_eq_some_iff.mp htop
  obtain ⟨top, methods, initializers⟩ := d
  obtain rfl : top = some t := ht
  cases hb : header.binding with
  | none => simp [visitor, TopLevel.enterType, hb]
  | some b => simp [visitor, TopLevel.enterType, hb, h b hb]

theorem visit_code (h : IsCode key n) (htop : d.top.map (·.key) = some key) :
    visitor.visit n d = d := by
  induction h with
  | call _ ih => exact (Visitor.visit_of_deeper rfl).trans (visitAll_of_fixed ih)
  | anonymousClass => exact Visitor.visit_of_skipped rfl
  | type h => exact Visitor.visit_of_skipped (enter_type_of_key_ne htop h)

theorem visit_member (h : IsMemberOf key n) (htop : d.top.map (·.key) = some key) :
    visitor.visit n d =
      { d with
        methods := n.header?.toList ++ d.methods
        initializers := d.initializers + if n.isInitializer then 1 else 0 } := by
  cases h with
  | enumConstant h hbody =>
    refine (Visitor.visit_of_deeper rfl).trans (visitAll_of_fixed fun m hm => ?_)
    rcases List.mem_append.mp hm with hm | hm
    · exact visit_code (h m hm) htop
    · exact visit_code (hbody m (Option.mem_toList.mp hm)) htop
  | type h => exact Visitor.visit_of_skipped (enter_type_of_key_ne htop h)
  | annotationMember => exact Visitor.visit_of_deeper rfl
  | method | initializer | field => exact Visitor.visit_of_skipped rfl

theorem visitAll_members {ns : List Node} (h : ∀ n ∈ ns, IsMemberOf key n)
    (htop : d.top.map (·.key) = some key) :
    visitor.visitAll ns d =
      { d with
        methods := (ns.filterMap header?).reverse ++ d.methods
        initializers := d.initializers + ns.countP (·.isInitializer) } := by
  induction ns generalizing d with
  | nil => rfl
  | cons n ns ih =>
    show visitor.visitAll ns (visitor.visit n d) = _
    rw [visit_member (h n List.mem_cons_self) htop, ih (d := { d with
      methods := n.header?.toList ++ d.methods
      initializers := d.initializers + if n.isInitializer then 1 else 0 })
      (fun m hm => h m (.tail _ hm)) htop]
    cases hn : n.header? <;> cases hi : n.isInitializer <;>
      simp [hn, hi, Nat.add_comm, Nat.add_left_comm]

theorem visitAll_others {others : List Node}
    (h : ∀ n ∈ others, ∃ place header nodes, n = .type place header nodes ∧
      (nodes = [] ∨ ∀ b ∈ header.binding, b.key ≠ key))
    (htop : d.top.map (·.key) = some key) : visitor.visitAll others d = d := by
  refine visitAll_of_fixed fun n hn => ?_
  obtain ⟨place, header, nodes, rfl, rfl | hkey⟩ := h n hn
  · obtain ⟨t, ht, -⟩ := Option.map_eq_some_iff.mp htop
    have hsame : (visitor.enter (.type place header []) d).2 = d := by
      obtain ⟨top, methods, initializers⟩ := d
      obtain rfl : top = some t := ht
      cases hb : header.binding <;> simp [visitor, TopLevel.enterType, hb]
    rw [Visitor.visit_eq, hsame]
    exact ite_self _
  · exact Visitor.visit_of_skipped (enter_type_of_key_ne htop hkey)

theorem ofUnit_eq {root : Node} {members : List Node} (h : IsUnitOf key members root) :
    (ofUnit root).methods = members.filterMap header? ∧
      (ofUnit root).initializers = members.countP (·.isInitializer) := by
  cases h with
  | empty => exact ⟨rfl, rfl⟩
  | @typed source package place header members others b hb hkey hprimary hmembers hothers =>
    have henter : visitor.enter (.type place header members) {} = (true, { top := some b }) := by
      simp [visitor, TopLevel.enterType, hb, hprimary]
    have htop : (some b).map (·.key) = some key := congrArg some hkey
    have hwalk : visitor.walk (.unit source package (.type place header members :: others)) {} =
        { top := some b
          methods := (members.filterMap header?).reverse
          initializers := members.countP (·.isInitializer) } := by
      rw [Visitor.walk_eq_visit]
      refine (Visitor.visit_of_deeper rfl).trans ?_
      show visitor.visitAll others (visitor.visit (.type place header members) {}) = _
      rw [Visitor.visit_of_deeper henter]
      show visitor.visitAll others (visitor.visitAll members { top := some b }) = _
      rw [visitAll_members hmembers htop, visitAll_others hothers htop]
      simp
    simp [ofUnit, hwalk]

end Declared

end CallerFirst
