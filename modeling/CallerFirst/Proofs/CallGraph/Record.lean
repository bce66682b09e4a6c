import CallerFirst.Proofs.CallGraph.Extract

/-!
# What a graph records

A graph is made by meeting declarations and calls one after the other. `recorded`: its callees are
the calls of each caller in the order in which they were met first, its callers are the same edges
the other way round, and its nodes are the signatures that were met.
-/

namespace CallerFirst.CallGraph

variable {g : CallGraph Signature} {a b c s u v w : Signature}

-- ---------------------------------------------------------------------------
-- One node
-- ---------------------------------------------------------------------------

theorem node?_modify {f : CallNode Signature → CallNode Signature} (hf : ∀ n, (f n).id = n.id) :
    (g.modify v f).node? w = (g.node? w).map fun n => if w = v then f n else n := by
  have hid : (fun n : CallNode Signature => decide (n.id = w)) ∘
      (fun n => if n.id = v then f n else n) = fun n => decide (n.id = w) := by
    funext n
    simp only [Function.comp_apply]
    split <;> simp [hf]
  rw [node?, modify, List.find?_map, hid, ← node?]
  cases hn : g.node? w with
  | none => rfl
  | some n => simp [node?_id hn]

theorem exists_node? (h : v ∈ g.ids) : ∃ n, g.node? v = some n := by
  obtain ⟨n, hn, rfl⟩ := List.mem_map.mp h
  exact Option.isSome_iff_exists.mp (List.find?_isSome.mpr ⟨n, hn, by simp⟩)

theorem node?_create_of_not_mem (h : v ∉ g.ids) :
    (g.create v).node? w = (g.node? w).or (if w = v then some { id := v } else none) := by
  rw [create, if_neg (by simpa [contains] using h)]
  simp only [node?, List.find?_append, List.find?_singleton]
  congr 1
  simp [eq_comm]

@[simp] theorem callees_create : (g.create v).callees w = g.callees w := by
  by_cases hv : v ∈ g.ids
  · rw [create, if_pos (by simpa [contains] using hv)]
  · rw [callees, callees, node?_create_of_not_mem hv]
    cases g.node? w with
    | some n => rfl
    | none => by_cases h : w = v <;> simp [h]

@[simp] theorem callers_create : (g.create v).callers w = g.callers w := by
  by_cases hv : v ∈ g.ids
  · rw [create, if_pos (by simpa [contains] using hv)]
  · rw [callers, callers, node?_create_of_not_mem hv]
    cases g.node? w with
    | some n => rfl
    | none => by_cases h : w = v <;> simp [h]

theorem node?_addEdge (h : b ∉ g.callees a) :
    (g.addEdge a b).node? c = (g.node? c).map fun n =>
      { n with
        callees := if c = a then n.callees ++ [b] else n.callees
        callers := if c = b then n.callers ++ [a] else n.callers } := by
  rw [addEdge, if_neg (by simpa using h), node?_modify, node?_modify, Option.map_map]
  · congr 1
    funext n
    simp only [Function.comp_apply]
    split_ifs <;> rfl
  all_goals exact fun _ => rfl

theorem callees_addEdge (ha : a ∈ g.ids) :
    (g.addEdge a b).callees c =
      if c = a ∧ b ∉ g.callees a then g.callees c ++ [b] else g.callees c := by
  by_cases hb : b ∈ g.callees a
  · simp [addEdge, hb]
  · rw [callees, node?_addEdge hb]
    by_cases hc : c = a
    · subst hc
      obtain ⟨n, hn⟩ := exists_node? ha
      rw [callees_of_node? hn] at hb
      simp [callees, hn, hb]
    · cases hn : g.node? c with
      | none => simp [callees, hn, hc]
      | some n => simp [callees, hn, hc]

theorem callers_addEdge (hb : b ∈ g.ids) :
    (g.addEdge a b).callers c =
      if c = b ∧ b ∉ g.callees a then g.callers c ++ [a] else g.callers c := by
  by_cases hab : b ∈ g.callees a
  · simp [addEdge, hab]
  · rw [callers, node?_addEdge hab]
    by_cases hc : c = b
    · subst hc
      obtain ⟨n, hn⟩ := exists_node? hb
      simp [callers, hn, hab]
    · cases hn : g.node? c with
      | none => simp [callers, hn, hc]
      | some n => simp [callers, hn, hc]

-- ---------------------------------------------------------------------------
-- Finds
-- ---------------------------------------------------------------------------

/-- What is met on the way over a unit: a declaration, or a call with the declaration that it counts
for, if any. -/
inductive Find where
  | declaration (s : Signature)
  | call (caller : Option Signature) (callee : Signature)

namespace Find

def Names (s : Signature) : Find → Prop
  | declaration t => s = t
  | call caller callee => s = callee ∨ caller = some s

def named : Find → List Signature
  | declaration s => [s]
  | call none callee => [callee]
  | call (some caller) callee => [callee, caller]

def calleeFor? (c : Signature) : Find → Option Signature
  | declaration _ => none
  | call caller callee => if caller = some c then some callee else none

end Find

def record (g : CallGraph Signature) : Find → CallGraph Signature
  | .declaration s => g.create s
  | .call none callee => g.create callee
  | .call (some caller) callee => ((g.create callee).create caller).addEdge caller callee

/-- A graph that holds what was met and nothing else. -/
structure Records (g : CallGraph Signature) (finds : List Find) : Prop where
  wellFormed : g.WellFormed
  callees : ∀ c, g.callees c = (finds.filterMap (Find.calleeFor? c)).eraseDups
  callers : ∀ u v, (g.callers v).count u = if v ∈ g.callees u then 1 else 0
  ids : ∀ s, s ∈ g.ids ↔ ∃ f ∈ finds, f.Names s

theorem eraseDups_concat (xs : List Signature) (a : Signature) :
    (xs ++ [a]).eraseDups = if a ∈ xs then xs.eraseDups else xs.eraseDups ++ [a] := by
  rw [List.eraseDups_append, List.removeAll]
  by_cases h : a ∈ xs <;> simp [h, List.eraseDups_cons]

theorem Records.create {finds : List Find} (h : g.Records finds) {f : Find}
    (hnames : ∀ t, f.Names t ↔ t = s) (hcallee : ∀ c, f.calleeFor? c = none) :
    (g.create s).Records (finds ++ [f]) := by
  refine ⟨h.wellFormed.create, fun c => ?_, fun u v => ?_, fun t => ?_⟩
  · simp [h.callees c, hcallee]
  · simpa using h.callers u v
  · simp [mem_ids_create, h.ids t, or_and_right, exists_or, hnames]

theorem Records.record {finds : List Find} (h : g.Records finds) (f : Find) :
    (g.record f).Records (finds ++ [f]) := by
  cases f with
  | declaration s => exact h.create (fun t => by simp [Find.Names]) fun _ => rfl
  | call caller callee =>
    cases caller with
    | none => exact h.create (fun t => by simp [Find.Names]) fun _ => by simp [Find.calleeFor?]
    | some caller =>
      let made := (g.create callee).create caller
      have hcaller : caller ∈ made.ids := by simp [made, mem_ids_create]
      have hcallee : callee ∈ made.ids := by simp [made, mem_ids_create]
      have hcallees (c : Signature) : made.callees c = g.callees c := by simp [made]
      show (made.addEdge caller callee).Records _
      refine ⟨h.wellFormed.create.create.addEdge hcallee, fun c => ?_, fun u v => ?_, fun s => ?_⟩
      · rw [callees_addEdge hcaller, hcallees, hcallees, List.filterMap_append]
        by_cases hc : c = caller
        · subst hc
          have hfind : [Find.call (some c) callee].filterMap (Find.calleeFor? c) = [callee] := by
            simp [Find.calleeFor?]
          rw [hfind, eraseDups_concat, h.callees c]
          simp only [true_and, List.mem_eraseDups, ite_not]
        · simp [Find.calleeFor?, hc, Ne.symm hc, h.callees c]
      · have hcount := h.callers u v
        have hcallers : made.callers v = g.callers v := by simp [made]
        rw [callers_addEdge hcallee, callees_addEdge hcaller, hcallees, hcallees, hcallers]
        by_cases hnew : callee ∈ g.callees caller
        · simpa [hnew] using hcount
        · by_cases hv : v = callee
          · subst hv
            by_cases hu : u = caller
            · subst hu
              simp [hnew] at hcount ⊢
              exact hcount
            · simpa [hnew, hu, List.count_singleton, Ne.symm hu] using hcount
          · by_cases hu : u = caller
            · subst hu
              simpa [hnew, hv] using hcount
            · simpa [hv, hu] using hcount
      · rw [ids_addEdge]
        simp [made, mem_ids_create, h.ids s, or_and_right, exists_or, Find.Names, or_assoc, eq_comm]

theorem recorded (finds : List Find) :
    (finds.foldl record ({} : CallGraph Signature)).Records finds := by
  induction finds using List.reverseRecOn with
  | nil =>
    exact ⟨⟨.nil, by simp⟩, fun c => by simp [callees, node?],
      fun u v => by simp [callers, callees, node?], fun s => by simp [ids]⟩
  | append_singleton finds f ih =>
    rw [List.foldl_append]
    exact ih.record f

theorem ids_create : (g.create v).ids = if v ∈ g.ids then g.ids else g.ids ++ [v] := by
  by_cases hv : v ∈ g.ids
  · rw [create, if_pos (by simpa [contains] using hv), if_pos hv]
  · rw [create, if_neg (by simpa [contains] using hv), if_neg hv]
    simp [ids]

theorem ids_recorded (finds : List Find) :
    (finds.foldl record ({} : CallGraph Signature)).ids = (finds.flatMap Find.named).eraseDups := by
  induction finds using List.reverseRecOn with
  | nil => rfl
  | append_singleton finds f ih =>
    have hadd (g : CallGraph Signature) (names : List Signature) (v : Signature)
        (h : g.ids = names.eraseDups) : (g.create v).ids = (names ++ [v]).eraseDups := by
      rw [ids_create, eraseDups_concat, h]
      simp only [List.mem_eraseDups]
    rw [List.foldl_append, List.flatMap_append]
    cases f with
    | declaration s => exact hadd _ _ s ih
    | call caller callee =>
      cases caller with
      | none => exact hadd _ _ callee ih
      | some caller =>
        have hcallee := hadd _ _ callee ih
        have hcaller := hadd _ _ caller hcallee
        show (CallGraph.addEdge _ caller callee).ids = _
        rw [ids_addEdge, hcaller]
        simp [Find.named]

end CallerFirst.CallGraph
