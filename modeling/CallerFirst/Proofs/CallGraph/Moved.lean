import CallerFirst.Proofs.CallGraph.Declared
import CallerFirst.Proofs.CallGraph.OfUnit
import CallerFirst.Proofs.CallGraph.SameCalls
import CallerFirst.Proofs.InitialOrder

/-!
# The graph of members that have moved

Of a member the order of members sees its category, its header and its calls. Where methods with
different signatures move and all else keeps its order, the graph keeps its calls (`sameCalls`) and
the order of the nodes of blocks and fields (`filter_blocks_eq`).
-/

namespace CallerFirst

structure Seen where
  category : Option Category
  header : Option Method
  calls : List Signature
  deriving DecidableEq

def Node.isField : Node → Bool
  | .field .. => true
  | _ => false

/-- A member as its order sees it, with its calls to the type that has the key. -/
def Node.seen (key : String) (n : Node) : Seen :=
  ⟨n.category?, n.header?, n.localCalls key⟩

def Signature.isBlock (s : Signature) : Bool :=
  !s.key.toList.contains '('

namespace Seen

def signature? (s : Seen) : Option Signature :=
  s.header.map .ofMethod

def keepsOrder (s : Seen) : Bool :=
  s.category.any (!·.isMovable)

def isInitializer (s : Seen) : Bool :=
  s.category == some .initializers || s.category == some .staticInitializers

def isField (s : Seen) : Bool :=
  s.category == some .fields

def isDeclared (s : Seen) : Bool :=
  s.header.isSome || s.isInitializer

def owner (i j : Nat) (s : Seen) : Option Signature :=
  s.signature?.or <|
    if s.isInitializer then some (.ofInitializer i)
    else if s.isField then some (.ofFieldInitializer j)
    else none

def attributed : Nat → Nat → List Seen → List (Option Signature × Seen)
  | _, _, [] => []
  | i, j, s :: rest =>
    (s.owner i j, s) ::
      attributed (if s.isInitializer then i + 1 else i) (if s.isField then j + 1 else j) rest

def finds (owner : Option Signature) (s : Seen) : List CallGraph.Find :=
  (if s.isDeclared then owner.toList.map .declaration else []) ++ s.calls.map (.call owner)

end Seen

namespace Node

variable (key : String) (n : Node)

@[simp] theorem signature?_seen : (n.seen key).signature? = n.signature? := by
  cases n <;> rfl

@[simp] theorem keepsOrder_seen : (n.seen key).keepsOrder = n.keepsOrder := by
  cases n with
  | method place header body => cases hc : header.isConstructor <;>
      simp [seen, Seen.keepsOrder, category?, hc, keepsOrder, Category.isMovable]
  | initializer place isStatic body => cases isStatic <;> rfl
  | _ => rfl

@[simp] theorem isInitializer_seen : (n.seen key).isInitializer = n.isInitializer := by
  cases n with
  | method place header body => cases hc : header.isConstructor <;>
      simp [seen, Seen.isInitializer, category?, hc, isInitializer]
  | initializer place isStatic body => cases isStatic <;> rfl
  | _ => rfl

@[simp] theorem isField_seen : (n.seen key).isField = n.isField := by
  cases n with
  | method place header body => cases hc : header.isConstructor <;>
      simp [seen, Seen.isField, category?, hc, isField]
  | initializer place isStatic body => cases isStatic <;> rfl
  | _ => rfl

@[simp] theorem isDeclared_seen : (n.seen key).isDeclared = n.isDeclared := by
  cases n with
  | initializer place isStatic body => cases isStatic <;> rfl
  | _ => rfl

theorem findsOf_eq (m : Option Signature × Node) :
    CallGraph.findsOf key m = (m.2.seen key).finds m.1 := by
  rw [CallGraph.findsOf, Seen.finds, isDeclared_seen]
  rfl

theorem map_attributed (i j : Nat) (ns : List Node) :
    (attributed i j ns).map (fun m => (m.1, m.2.seen key)) =
      Seen.attributed i j (ns.map (seen key)) := by
  induction ns generalizing i j with
  | nil => rfl
  | cons n ns ih =>
    cases n <;>
      simp [attributed, Seen.attributed, Seen.owner, isField, isInitializer, signature?, ih]

end Node

namespace Seen

open CallGraph

variable {before after : List Seen}

def named (m : Option Signature × Seen) : List Signature :=
  (m.2.finds m.1).flatMap Find.named

/-- Methods with different signatures have moved; all else keeps its order. -/
structure Moved (before after : List Seen) : Prop where
  perm : after.Perm before
  kept : after.filter keepsOrder = before.filter keepsOrder
  distinct : (before.filterMap signature?).Nodup

theorem owner_of_moves {s : Seen} (h : s.keepsOrder = false) (i j : Nat) :
    s.isInitializer = false ∧ s.isField = false ∧ s.owner i j = s.signature? := by
  obtain ⟨category, header, calls⟩ := s
  have hkinds : isInitializer ⟨category, header, calls⟩ = false ∧
      isField ⟨category, header, calls⟩ = false := by
    cases category with
    | none => exact ⟨rfl, rfl⟩
    | some c => cases c <;> first | exact ⟨rfl, rfl⟩ | cases h
  exact ⟨hkinds.1, hkinds.2, by simp [owner, hkinds]⟩

theorem attributed_cons_of_moves {s : Seen} (h : s.keepsOrder = false) (i j : Nat)
    (rest : List Seen) : attributed i j (s :: rest) = (s.signature?, s) :: attributed i j rest := by
  obtain ⟨hinitializer, hfield, howner⟩ := owner_of_moves h i j
  simp [attributed, hinitializer, hfield, howner]

/-- Numbers go by what keeps its order. -/
theorem attributed_perm (i j : Nat) (seen : List Seen) :
    (attributed i j seen).Perm (attributed i j (seen.filter keepsOrder) ++
      (seen.filter (!·.keepsOrder)).map fun s => (s.signature?, s)) := by
  induction seen generalizing i j with
  | nil => exact .refl _
  | cons s seen ih =>
    cases h : s.keepsOrder with
    | true =>
      rw [List.filter_cons_of_pos h, List.filter_cons_of_neg (by simp [h]), attributed, attributed]
      exact (ih _ _).cons _
    | false =>
      rw [attributed_cons_of_moves h, List.filter_cons_of_neg (by simp [h]),
        List.filter_cons_of_pos (by simp [h]), List.map_cons]
      exact ((ih i j).cons _).trans List.perm_middle.symm

theorem Moved.attributed_perm (h : Moved before after) (i j : Nat) :
    (attributed i j after).Perm (attributed i j before) := by
  have hmethods := (h.perm.filter (!·.keepsOrder)).map fun s => (s.signature?, s)
  have hparts := hmethods.append_left (attributed i j (before.filter keepsOrder))
  rw [← h.kept] at hparts
  exact ((Seen.attributed_perm i j after).trans hparts).trans
    (h.kept ▸ (Seen.attributed_perm i j before).symm)

-- ---------------------------------------------------------------------------
-- Callees
-- ---------------------------------------------------------------------------

theorem owner_eq_ofMethod (i j : Nat) (s : Seen) (m : Method) :
    s.owner i j = some (.ofMethod m) ↔ s.signature? = some (.ofMethod m) := by
  unfold owner
  cases s.signature? with
  | some c => simp
  | none =>
    simp only [Option.none_or, reduceCtorEq, iff_false]
    split
    · simpa using Signature.ofInitializer_ne_ofMethod i m
    · split
      · simpa using Signature.ofFieldInitializer_ne_ofMethod j m
      · simp

theorem filter_attributed_method (i j : Nat) (seen : List Seen) (m : Method) :
    ((attributed i j seen).filter (·.1 = some (.ofMethod m))).map Prod.snd =
      seen.filter (·.signature? = some (.ofMethod m)) := by
  induction seen generalizing i j with
  | nil => rfl
  | cons s seen ih =>
    rw [attributed]
    by_cases h : s.signature? = some (.ofMethod m)
    · have howner := (owner_eq_ofMethod i j s m).mpr h
      simp [h, howner, ih]
    · have howner := mt (owner_eq_ofMethod i j s m).mp h
      simp [h, howner, ih]

theorem filter_attributed_block (hc : ∀ m, c ≠ Signature.ofMethod m) (i j : Nat)
    (seen : List Seen) :
    (attributed i j seen).filter (·.1 = some c) =
      (attributed i j (seen.filter keepsOrder)).filter (·.1 = some c) := by
  induction seen generalizing i j with
  | nil => rfl
  | cons s seen ih =>
    cases h : s.keepsOrder with
    | true =>
      rw [List.filter_cons_of_pos h, attributed, attributed, List.filter_cons, List.filter_cons, ih]
    | false =>
      have hsignature : s.signature? ≠ some c := by
        intro heq
        obtain ⟨m, -, rfl⟩ := Option.map_eq_some_iff.mp heq
        exact hc m rfl
      rw [List.filter_cons_of_neg (by simp [h]), attributed_cons_of_moves h,
        List.filter_cons_of_neg (by simpa using hsignature), ih]

theorem filter_eq_of_perm {xs ys : List α} {q : α → Bool} (h : xs.Perm ys)
    (hone : (ys.filter q).length ≤ 1) : xs.filter q = ys.filter q := by
  have hfilter := h.filter q
  match hys : ys.filter q with
  | [] => exact (hys ▸ hfilter).eq_nil
  | [y] => exact List.perm_singleton.mp (hys ▸ hfilter)
  | y :: z :: _ => simp [hys] at hone

theorem Moved.calls_eq (h : Moved before after) (c : Signature) :
    ((attributed 0 0 after).filter (·.1 = some c)).flatMap (·.2.calls) =
      ((attributed 0 0 before).filter (·.1 = some c)).flatMap (·.2.calls) := by
  by_cases hc : ∃ m, c = .ofMethod m
  · obtain ⟨m, rfl⟩ := hc
    have hcalls (seen : List Seen) :
        ((attributed 0 0 seen).filter (·.1 = some (.ofMethod m))).flatMap (·.2.calls) =
          (seen.filter (·.signature? = some (.ofMethod m))).flatMap calls := by
      rw [← filter_attributed_method 0 0, List.flatMap_map]
    have hone : (before.filter (·.signature? = some (.ofMethod m))).length ≤ 1 := by
      have hcount := List.nodup_iff_count_le_one.mp h.distinct (.ofMethod m)
      rw [List.count_filterMap, List.countP_eq_length_filter] at hcount
      simpa only [beq_eq_decide] using hcount
    rw [hcalls, hcalls, filter_eq_of_perm h.perm hone]
  · have hc : ∀ m, c ≠ .ofMethod m := fun m heq => hc ⟨m, heq⟩
    rw [filter_attributed_block hc, h.kept, ← filter_attributed_block hc]

-- ---------------------------------------------------------------------------
-- Nodes of blocks
-- ---------------------------------------------------------------------------

theorem isBlock_ofMethod (m : Method) : (Signature.ofMethod m).isBlock = false := by
  simpa [Signature.isBlock] using Signature.mem_key_ofMethod m

theorem filter_named_of_moves {s : Seen} (hcalls : ∀ d ∈ s.calls, d.isBlock = false) :
    (named (s.signature?, s)).filter Signature.isBlock = [] := by
  have howner : ∀ c ∈ s.signature?, c.isBlock = false := by
    intro c hc
    obtain ⟨m, -, rfl⟩ := Option.map_eq_some_iff.mp hc
    exact isBlock_ofMethod m
  refine List.filter_eq_nil_iff.mpr fun c hc => ?_
  obtain ⟨f, hf, hnamed⟩ := List.mem_flatMap.mp hc
  rw [Bool.not_eq_true]
  rcases List.mem_append.mp hf with hf | hf
  · split at hf
    · obtain ⟨t, ht, rfl⟩ := List.mem_map.mp hf
      obtain rfl := List.mem_singleton.mp hnamed
      exact howner c (Option.mem_toList.mp ht)
    · cases hf
  · obtain ⟨d, hd, rfl⟩ := List.mem_map.mp hf
    simp only at hnamed howner
    cases hs : s.signature? with
    | none =>
      rw [hs] at hnamed
      obtain rfl := List.mem_singleton.mp hnamed
      exact hcalls c hd
    | some t =>
      rw [hs] at hnamed
      rcases List.mem_cons.mp hnamed with rfl | hnamed
      · exact hcalls c hd
      · obtain rfl := List.mem_singleton.mp hnamed
        exact howner c hs

theorem filter_named (i j : Nat) {seen : List Seen}
    (hcalls : ∀ s ∈ seen, ∀ d ∈ s.calls, d.isBlock = false) :
    ((attributed i j seen).flatMap named).filter Signature.isBlock =
      ((attributed i j (seen.filter keepsOrder)).flatMap named).filter Signature.isBlock := by
  induction seen generalizing i j with
  | nil => rfl
  | cons s seen ih =>
    have ih (i j : Nat) := ih i j fun t ht => hcalls t (.tail _ ht)
    cases h : s.keepsOrder with
    | true =>
      rw [List.filter_cons_of_pos h, attributed, attributed, List.flatMap_cons, List.flatMap_cons,
        List.filter_append, List.filter_append, ih]
    | false =>
      rw [List.filter_cons_of_neg (by simp [h]), attributed_cons_of_moves h, List.flatMap_cons,
        List.filter_append, filter_named_of_moves (hcalls s List.mem_cons_self), List.nil_append, ih]

end Seen

-- ---------------------------------------------------------------------------
-- Graphs
-- ---------------------------------------------------------------------------

namespace CallGraph

open Node Seen

variable {key key' : String} {members members' : List Node} {root root' : Node}

theorem callees_ofUnit (h : IsUnitOf key members root) (c : Signature) :
    (ofUnit root).callees c = (((Seen.attributed 0 0 (members.map (seen key))).filter
      (·.1 = some c)).flatMap (·.2.calls)).eraseDups := by
  rw [(isLocal_ofUnit h).callees_eq c, ← map_attributed, List.filter_map, List.flatMap_map]
  rfl

theorem ids_ofUnit (h : IsUnitOf key members root) :
    (ofUnit root).ids =
      ((Seen.attributed 0 0 (members.map (seen key))).flatMap Seen.named).eraseDups := by
  rw [ofUnit_eq h, ids_recorded, List.flatMap_assoc, ← map_attributed, List.flatMap_map]
  simp only [findsOf_eq]
  rfl

theorem sameCalls (h : IsUnitOf key members root) (h' : IsUnitOf key' members' root')
    (hmoved : Moved (members.map (seen key)) (members'.map (seen key'))) :
    SameCalls (ofUnit root') (ofUnit root) := by
  have hnodup := (isLocal_ofUnit h).nodup_ids
  have hnodup' := (isLocal_ofUnit h').nodup_ids
  refine ⟨fun c => ?_, ?_, hnodup'⟩
  · rw [callees_ofUnit h, callees_ofUnit h', hmoved.calls_eq]
  · refine (List.perm_ext_iff_of_nodup hnodup' hnodup).mpr fun c => ?_
    rw [ids_ofUnit h, ids_ofUnit h', List.mem_eraseDups, List.mem_eraseDups]
    exact ((hmoved.attributed_perm 0 0).flatMap_right _).mem_iff

theorem filter_blocks_eq (h : IsUnitOf key members root) (h' : IsUnitOf key' members' root')
    (honly : ∀ n ∈ members, n.CallsOnly key (members.filterMap header?))
    (hmoved : Moved (members.map (seen key)) (members'.map (seen key'))) :
    (ofUnit root').ids.filter Signature.isBlock = (ofUnit root).ids.filter Signature.isBlock := by
  have hcalls : ∀ s ∈ members.map (seen key), ∀ d ∈ s.calls, d.isBlock = false := by
    intro s hs d hd
    obtain ⟨n, hn, rfl⟩ := List.mem_map.mp hs
    obtain ⟨m, -, -, rfl⟩ := honly n hn d hd
    exact isBlock_ofMethod m
  have hcalls' : ∀ s ∈ members'.map (seen key'), ∀ d ∈ s.calls, d.isBlock = false :=
    fun s hs => hcalls s (hmoved.perm.mem_iff.mp hs)
  rw [ids_ofUnit h, ids_ofUnit h', ← eraseDups_filter, ← eraseDups_filter, filter_named 0 0 hcalls,
    filter_named 0 0 hcalls', hmoved.kept]

end CallGraph

end CallerFirst
