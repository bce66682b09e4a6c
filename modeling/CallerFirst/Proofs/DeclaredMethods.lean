import CallerFirst.Proofs.CallGraph.OfUnit
import CallerFirst.Proofs.MethodOrder

/-!
# The order is one of the declared methods

`orderOf_covers`: a unit that is read binds calls to its type only to methods which the type declares.
So the nodes of its graph that stand for methods, the signatures known where members are compared, and
the ordered signatures are those that its type declares. Methods share one of them exactly when they
share their name and their types up to type arguments (`readUnit_signatures_eq_iff`).
-/

namespace CallerFirst

open Node

-- ---------------------------------------------------------------------------
-- Units
-- ---------------------------------------------------------------------------

/-- What calls to a type are bound to, the nodes of the graph that stand for methods, what is known
where members are compared, and what is ordered, are the methods among the members of the type. -/
structure Sorter.Covers (p : Preferences) (unit : Node) (key : String) (members : List Node) : Prop where
  bindings : ∀ n, unit.Holds n → ∀ b ∈ n.binding?, ∀ t ∈ b.declaringType, t.key = key →
    ∃ m ∈ members.filterMap header?, m.isConstructor = false ∧ m.name = b.name ∧
      m.parameterTypes = b.parameterTypes
  mem_ids_iff : ∀ s, s ∈ (CallGraph.ofUnit unit).ids ∧ s.isSynthetic = false ↔
    s ∈ members.filterMap signature?
  knows : ∀ a ∈ members.filterMap signature?, ∀ b ∈ members.filterMap signature?,
    (orderOf p unit).knows a b = true
  nodup_ordered : (orderOf p unit).orderedSignatures.Nodup
  mem_ordered_iff : ∀ s, s ∈ (orderOf p unit).orderedSignatures ↔ s ∈ members.filterMap signature?

namespace CallGraph

variable {key : String} {members : List Node} {unit : Node}

theorem mem_ids_of_signature? (h : IsUnitOf key members unit) (hs : s ∈ members.filterMap signature?) :
    s ∈ (ofUnit unit).ids := by
  obtain ⟨n, hn, hs⟩ := List.mem_filterMap.mp hs
  refine ((isLocal_ofUnit h).mem_ids_iff s).mpr ⟨_, mem_attributed hn hs, .inr ⟨rfl, .inl ?_⟩⟩
  obtain ⟨place, header, body, rfl, -⟩ := exists_header_of_signature? hs
  rfl

theorem mem_ids_ofUnit_iff (h : IsBound key members unit) :
    s ∈ (ofUnit unit).ids ∧ s.isSynthetic = false ↔ s ∈ members.filterMap signature? := by
  constructor
  · rintro ⟨hs, hmethod⟩
    obtain ⟨m, hm, hcall | ⟨howner, -⟩⟩ := ((isLocal_ofUnit h.unit).mem_ids_iff s).mp hs
    · exact List.mem_filterMap.mpr
        (exists_method_of_callsOnly (h.only m.2 (mem_of_mem_attributed hm)) hcall)
    · rcases owner_cases hm howner with hs | ⟨i, rfl | rfl⟩
      · exact List.mem_filterMap.mpr ⟨m.2, mem_of_mem_attributed hm, hs⟩
      · simp [(Signature.isSynthetic_numbered i).1] at hmethod
      · simp [(Signature.isSynthetic_numbered i).2] at hmethod
  · intro hs
    refine ⟨mem_ids_of_signature? h.unit hs, ?_⟩
    rw [← map_ofMethod_headers] at hs
    obtain ⟨m, hm, rfl⟩ := List.mem_map.mp hs
    exact Signature.isSynthetic_ofMethod (h.written m hm).name

end CallGraph

theorem Java.readUnit_signatures_eq_iff {unit : Node} (hread : readUnit text = .ok unit) :
    ∃ key members, IsUnitOf key members unit ∧
      ∀ a ∈ members.filterMap header?, ∀ b ∈ members.filterMap header?,
        Signature.ofMethod a = Signature.ofMethod b ↔ a.name = b.name ∧
          a.parameterTypes.map Signature.stripTypeArguments =
            b.parameterTypes.map Signature.stripTypeArguments := by
  obtain ⟨key, members, hbound⟩ := readUnit_isBound hread
  refine ⟨key, members, hbound.unit, fun a ha b hb => ?_⟩
  exact Signature.ofMethod_eq_iff (hbound.written a ha) (hbound.written b hb)

/-- The order of the methods of a unit covers what its type declares, whatever the preferences. -/
theorem Sorter.orderOf_covers {unit : Node} (hread : Java.readUnit text = .ok unit) (p : Preferences) :
    ∃ key members, IsUnitOf key members unit ∧ Covers p unit key members := by
  obtain ⟨key, members, hbound⟩ := Java.readUnit_isBound hread
  have hdeclared (s : Signature) := CallGraph.mem_ids_ofUnit_iff (s := s) hbound
  refine ⟨key, members, hbound.unit, hbound.bindings, hdeclared, fun a ha b hb => ?_,
    MemberOrder.nodup_orderedSignatures, fun s => MemberOrder.mem_orderedSignatures.trans (hdeclared s)⟩
  have hknown {s : Signature} (hs : s ∈ members.filterMap signature?) :
      (orderOf p unit).known.contains s = true :=
    List.contains_iff_mem.mpr ((hdeclared s).mpr hs).1
  rw [MemberOrder.knows, hknown ha, hknown hb]
  rfl

def namesRepeated : String :=
  "class A\x7bA(){f();}void f(){new T(){void f(){g();}void h(){f();}};}int g(){return 0;}" ++
    "class B{void f(){f();g();}}{f();}\x7d"

theorem Sorter.orderOf_covers_namesRepeated :
    ∃ unit key members, Java.readUnit namesRepeated = .ok unit ∧ IsUnitOf key members unit ∧
      Covers {} unit key members ∧
      (orderOf {} unit).orderedSignatures = [⟨"A()"⟩, ⟨"f()"⟩, ⟨"g()"⟩] := by
  obtain ⟨unit, top, body, hread, -, -, hordered⟩ :=
    Java.exists_of_readBody? namesRepeated (fun unit _ =>
      (orderOf {} unit).orderedSignatures = [⟨"A()"⟩, ⟨"f()"⟩, ⟨"g()"⟩]) (by decide +kernel)
  obtain ⟨key, members, hunit, hcovers⟩ := orderOf_covers hread {}
  exact ⟨unit, key, members, hread, hunit, hcovers, hordered⟩

end CallerFirst
