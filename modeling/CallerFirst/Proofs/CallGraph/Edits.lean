import CallerFirst.Proofs.Insertion

/-!
# Graphs that are edited

A graph lists every call twice, with its caller and with its callee, but a call that is dropped stays
with its callee. So what is listed agrees for as long as no call is added again after it was dropped,
and no longer (`edited_consistent_iff`).
-/

namespace CallerFirst.CallGraph

variable {g : CallGraph Signature} {a b u v w : Signature} {ws : List Signature}

-- ---------------------------------------------------------------------------
-- What one operation keeps
-- ---------------------------------------------------------------------------

theorem nodup_listed_iff (hd : g.ids.Nodup) (listed : CallNode Signature → List Signature) :
    (∀ n ∈ g.nodes, (listed n).Nodup) ↔ ∀ v, (((g.node? v).map listed).getD []).Nodup := by
  constructor
  · intro h v
    cases hn : g.node? v with
    | none => exact .nil
    | some n => exact h n (List.mem_of_find?_eq_some hn)
  · intro h n hn
    simpa [node?_of_mem hd hn] using h n.id

theorem simple_iff (hd : g.ids.Nodup) : g.Simple ↔ ∀ v, (g.callees v).Nodup :=
  nodup_listed_iff hd (·.callees)

theorem callers_without (v : Signature) (ws : List Signature) :
    (g.without v ws).callers u = g.callers u := by
  rw [callers, callers, without, node?_modify]
  · cases g.node? u with
    | none => rfl
    | some n => by_cases h : u = v <;> simp [h]
  · exact fun _ => rfl

theorem WellFormed.without (h : g.WellFormed) (v : Signature) (ws : List Signature) :
    (g.without v ws).WellFormed :=
  h.modify (fun _ => rfl) fun _ _ hw => .inl (List.mem_filter.mp hw).1

theorem calls_addEdge (ha : a ∈ g.ids) : (g.addEdge a b).Calls u v ↔ g.Calls u v ∨ u = a ∧ v = b := by
  rw [Calls, callees_addEdge ha, Calls]
  split
  · rename_i h
    obtain ⟨rfl, -⟩ := h
    simp
  · rename_i h
    refine ⟨.inl, fun huv => huv.elim id ?_⟩
    rintro ⟨rfl, rfl⟩
    by_contra hv
    exact h ⟨rfl, hv⟩

/-- One node for each signature and each callee, no callee is listed twice, and every caller is listed
with its callee. -/
structure Sound (g : CallGraph Signature) : Prop where
  wellFormed : g.WellFormed
  simple : g.Simple
  mirrored : ∀ u v, g.Calls u v → u ∈ g.callers v

theorem Sound.empty : Sound {} :=
  ⟨⟨.nil, by simp⟩, by simp [Simple], by simp [Calls, callees, node?]⟩

theorem Sound.create (h : g.Sound) (v : Signature) : (g.create v).Sound := by
  refine ⟨h.wellFormed.create, ?_, fun u w huw => ?_⟩
  · rw [simple_iff h.wellFormed.create.nodup]
    simpa [simple_iff h.wellFormed.nodup] using h.simple
  · rw [callers_create]
    exact h.mirrored u w (by simpa [Calls] using huw)

theorem Sound.without (h : g.Sound) (v : Signature) (ws : List Signature) : (g.without v ws).Sound where
  wellFormed := h.wellFormed.without v ws
  simple := h.simple.without v ws
  mirrored u w huw := by
    rw [callers_without]
    rw [Calls, callees_without] at huw
    split at huw
    · exact h.mirrored u w (List.mem_filter.mp huw).1
    · exact h.mirrored u w huw

theorem Sound.mem_callers_addEdge (h : g.Sound) (hb : b ∈ g.ids) :
    u ∈ (g.addEdge a b).callers v ↔ u ∈ g.callers v ∨ u = a ∧ v = b := by
  rw [callers_addEdge hb]
  split
  · rename_i hv
    obtain ⟨rfl, -⟩ := hv
    simp
  · rename_i hv
    refine ⟨.inl, fun hu => hu.elim id ?_⟩
    rintro ⟨rfl, rfl⟩
    exact h.mirrored u v (by_contra fun hcall => hv ⟨rfl, hcall⟩)

theorem Sound.addEdge (h : g.Sound) (ha : a ∈ g.ids) (hb : b ∈ g.ids) : (g.addEdge a b).Sound := by
  have hwell := h.wellFormed.addEdge (a := a) hb
  refine ⟨hwell, ?_, fun u v huv => ?_⟩
  · rw [simple_iff hwell.nodup]
    intro c
    have hc := (simple_iff h.wellFormed.nodup).mp h.simple c
    rw [callees_addEdge ha]
    split
    · rename_i hnew
      obtain ⟨rfl, hnew⟩ := hnew
      exact List.nodup_append.mpr ⟨hc, List.nodup_singleton b, by
        rintro w hw _ hb rfl
        exact hnew (List.mem_singleton.mp hb ▸ hw)⟩
    · exact hc
  · rw [h.mem_callers_addEdge hb]
    exact ((calls_addEdge ha).mp huv).imp_left (h.mirrored u v)

/-- A new call leaves the callers of all nodes without repeats unless its caller is still listed. -/
theorem nodup_callers_addEdge (hb : b ∈ g.ids) :
    (∀ v, ((g.addEdge a b).callers v).Nodup) ↔
      (∀ v, (g.callers v).Nodup) ∧ (a ∈ g.callers b → g.Calls a b) := by
  have hconcat (xs : List Signature) : (xs ++ [a]).Nodup ↔ xs.Nodup ∧ a ∉ xs := by
    rw [(List.perm_append_singleton a xs).nodup_iff, List.nodup_cons, and_comm]
  simp only [callers_addEdge hb]
  by_cases hcall : b ∈ g.callees a
  · simp [hcall, Calls]
  · constructor
    · intro h
      have hb' := h b
      rw [if_pos ⟨rfl, hcall⟩, hconcat] at hb'
      refine ⟨fun v => ?_, fun ha => absurd ha hb'.2⟩
      by_cases hv : v = b
      · exact hv ▸ hb'.1
      · simpa [hv] using h v
    · rintro ⟨h, hstill⟩ v
      split
      · rename_i hv
        obtain ⟨rfl, -⟩ := hv
        exact (hconcat _).mpr ⟨h v, fun ha => hcall (hstill ha)⟩
      · exact h v

-- ---------------------------------------------------------------------------
-- Edits
-- ---------------------------------------------------------------------------

inductive Edit where
  | create (v : Signature)
  | add (caller callee : Signature)
  | remove (caller callee : Signature)
  /-- Insertion in front of what it leads to into an order that holds some nodes already. -/
  | insert (ordered : List Signature) (v : Signature)

namespace Edit

def apply (g : CallGraph Signature) : Edit → CallGraph Signature
  | create v => g.create v
  | add caller callee => g.addEdge caller callee
  | remove caller callee => g.removeEdge caller callee
  | insert ordered v => (Arrangement.insert .beforeCallees { graph := g, ordered } v).graph

def On (g : CallGraph Signature) : Edit → Prop
  | create _ => True
  | add caller callee => caller ∈ g.ids ∧ callee ∈ g.ids
  | remove caller callee => caller ∈ g.ids ∧ callee ∈ g.ids
  | insert ordered v => v ∈ g.ids ∧ ∀ w ∈ ordered, w ∈ g.ids

instance (g : CallGraph Signature) : (e : Edit) → Decidable (e.On g)
  | create _ => .isTrue trivial
  | add caller callee => inferInstanceAs (Decidable (caller ∈ g.ids ∧ callee ∈ g.ids))
  | remove caller callee => inferInstanceAs (Decidable (caller ∈ g.ids ∧ callee ∈ g.ids))
  | insert ordered v => inferInstanceAs (Decidable (v ∈ g.ids ∧ ∀ w ∈ ordered, w ∈ g.ids))

theorem exists_graph_insert (h : g.Simple) (ordered : List Signature) (v : Signature) :
    ∃ ws, (Arrangement.insert .beforeCallees { graph := g, ordered } v).graph = g.without v ws := by
  unfold Arrangement.insert
  split
  · exact ⟨[], without_nil.symm⟩
  · obtain ⟨front, back, -, hplace, -⟩ := Arrangement.placeBefore_passes h v [] ordered
    exact ⟨front, congrArg Arrangement.graph hplace⟩

theorem apply_cases (h : g.Sound) (e : Edit) :
    (∃ v, e = create v ∧ e.apply g = g.create v) ∨
      (∃ a b, e = add a b ∧ e.apply g = g.addEdge a b) ∨
      (∀ a b, e ≠ add a b) ∧ ∃ v ws, e.apply g = g.without v ws := by
  cases e with
  | create v => exact .inl ⟨v, rfl, rfl⟩
  | add a b => exact .inr (.inl ⟨a, b, rfl, rfl⟩)
  | remove a b =>
    exact .inr (.inr ⟨fun _ _ h => (nomatch h), a, [b], removeEdge_eq_without h.simple a b⟩)
  | insert ordered v =>
    exact .inr (.inr ⟨fun _ _ h => (nomatch h), v, exists_graph_insert h.simple ordered v⟩)

end Edit

def edited (g : CallGraph Signature) (edits : List Edit) : CallGraph Signature :=
  edits.foldl Edit.apply g

def OnNodes (g : CallGraph Signature) : List Edit → Prop
  | [] => True
  | e :: edits => e.On g ∧ OnNodes (e.apply g) edits

instance decidableOnNodes (g : CallGraph Signature) : (edits : List Edit) → Decidable (g.OnNodes edits)
  | [] => .isTrue trivial
  | e :: edits =>
    have := decidableOnNodes (e.apply g) edits
    inferInstanceAs (Decidable (e.On g ∧ OnNodes (e.apply g) edits))

/-- Some call is added again after it was dropped. -/
def Readds (edits : List Edit) : Prop :=
  ∃ front between back u v, edits = front ++ .add u v :: (between ++ .add u v :: back) ∧
    ¬(edited {} (front ++ .add u v :: between)).Calls u v

theorem edited_concat (g : CallGraph Signature) (edits : List Edit) (e : Edit) :
    g.edited (edits ++ [e]) = e.apply (g.edited edits) :=
  List.foldl_concat ..

theorem onNodes_concat {edits : List Edit} {e : Edit} :
    g.OnNodes (edits ++ [e]) ↔ g.OnNodes edits ∧ e.On (g.edited edits) := by
  induction edits generalizing g with
  | nil => simp [OnNodes, edited]
  | cons first edits ih => simp only [List.cons_append, OnNodes, ih, edited, List.foldl_cons, and_assoc]

theorem readds_concat {edits : List Edit} {e : Edit} :
    Readds (edits ++ [e]) ↔
      Readds edits ∨ ∃ u v, e = .add u v ∧ e ∈ edits ∧ ¬(edited {} edits).Calls u v := by
  constructor
  · rintro ⟨front, between, back, u, v, hedits, hdropped⟩
    rcases List.eq_nil_or_concat back with rfl | ⟨back, last, rfl⟩
    · have hsplit : edits ++ [e] = (front ++ .add u v :: between) ++ [.add u v] := by simp [hedits]
      obtain ⟨rfl, hlast⟩ := List.append_inj' hsplit rfl
      obtain rfl := List.singleton_inj.mp hlast
      exact .inr ⟨u, v, rfl, by simp, hdropped⟩
    · have hsplit : edits ++ [e] =
          (front ++ .add u v :: (between ++ .add u v :: back)) ++ [last] := by simp [hedits]
      obtain ⟨rfl, -⟩ := List.append_inj' hsplit rfl
      exact .inl ⟨front, between, back, u, v, rfl, hdropped⟩
  · rintro (⟨front, between, back, u, v, rfl, hdropped⟩ | ⟨u, v, rfl, hmem, hdropped⟩)
    · exact ⟨front, between, back ++ [e], u, v, by simp, hdropped⟩
    · obtain ⟨front, between, rfl⟩ := List.append_of_mem hmem
      exact ⟨front, between, [], u, v, by simp, hdropped⟩

-- ---------------------------------------------------------------------------
-- What all edits keep
-- ---------------------------------------------------------------------------

theorem Sound.apply (h : g.Sound) {e : Edit} (hon : e.On g) : (e.apply g).Sound := by
  obtain ⟨v, -, heq⟩ | ⟨a, b, rfl, heq⟩ | ⟨-, v, ws, heq⟩ := e.apply_cases h
  · exact heq ▸ h.create v
  · exact heq ▸ h.addEdge hon.1 hon.2
  · exact heq ▸ h.without v ws

theorem Sound.edited {edits : List Edit} (h : g.Sound) (hon : g.OnNodes edits) :
    (g.edited edits).Sound := by
  induction edits generalizing g with
  | nil => exact h
  | cons e edits ih => exact ih (h.apply hon.1) hon.2

/-- The callers of a node are those of all calls to it that were ever added. -/
theorem mem_callers_edited {edits : List Edit} (hon : OnNodes {} edits) :
    u ∈ (edited {} edits).callers v ↔ Edit.add u v ∈ edits := by
  induction edits using List.reverseRecOn with
  | nil => simp [edited, callers, node?]
  | append_singleton edits e ih =>
    obtain ⟨hedits, hon⟩ := onNodes_concat.mp hon
    have hsound := Sound.empty.edited hedits
    rw [edited_concat, List.mem_append, List.mem_singleton, ← ih hedits]
    obtain ⟨w, rfl, heq⟩ | ⟨a, b, rfl, heq⟩ | ⟨hne, w, ws, heq⟩ := e.apply_cases hsound
    · simp [heq]
    · rw [heq, hsound.mem_callers_addEdge hon.2]
      simp
    · rw [heq, callers_without]
      simp [(hne u v).symm]

theorem nodup_callers_edited_iff {edits : List Edit} (hon : OnNodes {} edits) :
    (∀ v, ((edited {} edits).callers v).Nodup) ↔ ¬Readds edits := by
  induction edits using List.reverseRecOn with
  | nil => simp [edited, callers, node?, Readds]
  | append_singleton edits e ih =>
    obtain ⟨hedits, hon⟩ := onNodes_concat.mp hon
    rw [edited_concat, readds_concat, not_or, ← ih hedits]
    obtain ⟨w, rfl, heq⟩ | ⟨a, b, rfl, heq⟩ | ⟨hne, w, ws, heq⟩ :=
      e.apply_cases (Sound.empty.edited hedits)
    · simp [heq]
    · rw [heq, nodup_callers_addEdge hon.2, mem_callers_edited hedits]
      simp
    · simp [heq, callers_without, hne]

/-- What is listed agrees: one node for each signature and each callee, neighbours are listed once, and a
caller is listed exactly once with its callee. -/
structure Consistent (g : CallGraph Signature) : Prop where
  nodup : g.ids.Nodup
  closed : ∀ n ∈ g.nodes, ∀ w ∈ n.callees, w ∈ g.ids
  callees : ∀ n ∈ g.nodes, n.callees.Nodup
  callers : ∀ n ∈ g.nodes, n.callers.Nodup
  mirrored : ∀ u v, g.Calls u v → (g.callers v).count u = 1

theorem Sound.consistent_iff (h : g.Sound) : g.Consistent ↔ ∀ n ∈ g.nodes, n.callers.Nodup := by
  refine ⟨Consistent.callers, fun hcallers => ?_⟩
  refine ⟨h.wellFormed.nodup, h.wellFormed.closed, h.simple, hcallers, fun u v huv => ?_⟩
  have hv := (nodup_listed_iff h.wellFormed.nodup (·.callers)).mp hcallers v
  exact List.count_eq_one_of_mem hv (h.mirrored u v huv)

/-- Whatever is done to its nodes, a graph stays sound; and it is consistent for as long as no call is
added again after it was dropped. -/
theorem edited_consistent_iff {edits : List Edit} (hon : OnNodes {} edits) :
    (edited {} edits).Sound ∧ ((edited {} edits).Consistent ↔ ¬Readds edits) := by
  have hsound := Sound.empty.edited hon
  refine ⟨hsound, hsound.consistent_iff.trans ?_⟩
  exact (nodup_listed_iff hsound.wellFormed.nodup (·.callers)).trans (nodup_callers_edited_iff hon)

def cutOpen : List Edit :=
  [.create ⟨"a()"⟩, .create ⟨"b()"⟩, .add ⟨"a()"⟩ ⟨"b()"⟩, .add ⟨"b()"⟩ ⟨"a()"⟩,
    .insert [⟨"b()"⟩] ⟨"a()"⟩, .add ⟨"b()"⟩ ⟨"a()"⟩, .remove ⟨"a()"⟩ ⟨"a()"⟩]

theorem edited_consistent_iff_cutOpen :
    OnNodes {} cutOpen ∧ (edited {} cutOpen).Sound ∧
      ((edited {} cutOpen).Consistent ↔ ¬Readds cutOpen) ∧ (edited {} cutOpen).Consistent ∧
      (edited {} cutOpen).callees ⟨"a()"⟩ = [] ∧
      (edited {} cutOpen).callers ⟨"b()"⟩ = [⟨"a()"⟩] := by
  have hon : OnNodes {} cutOpen := by decide
  obtain ⟨hsound, hiff⟩ := edited_consistent_iff hon
  exact ⟨hon, hsound, hiff, hsound.consistent_iff.mpr (by decide), by decide, by decide⟩

def addedAgain : List Edit :=
  [.create ⟨"a()"⟩, .create ⟨"b()"⟩, .add ⟨"a()"⟩ ⟨"b()"⟩, .remove ⟨"a()"⟩ ⟨"b()"⟩,
    .add ⟨"a()"⟩ ⟨"b()"⟩]

/-- Its caller is listed twice. -/
theorem listed_twice :
    OnNodes {} addedAgain ∧
      (edited {} addedAgain).callers ⟨"b()"⟩ = [⟨"a()"⟩, ⟨"a()"⟩] ∧
      ¬(edited {} addedAgain).Consistent := by
  have hcall : (edited {} addedAgain).Calls ⟨"a()"⟩ ⟨"b()"⟩ := by
    show _ ∈ _
    decide
  exact ⟨by decide, by decide, fun h => absurd (h.mirrored _ _ hcall) (by decide)⟩

end CallerFirst.CallGraph
