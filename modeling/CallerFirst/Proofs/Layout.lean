import CallerFirst.Layout
import CallerFirst.Proofs.Slices
import CallerFirst.Proofs.Sorting
import Mathlib.Data.List.Nodup
import Mathlib.Data.List.TakeWhile

/-!
# Moving members loses no text

`slots_eq` says what the slots of members are whose spans stand one behind the other. The text is
made of them (`slotsOf_flatten`), and so is the text with its members in a new order
(`reorder_eq`): `reorder_tiles` puts the two side by side.
-/

namespace CallerFirst.Layout

variable {source : List Char} {first : Int} {places : List Place}

/-- Spans that stand one behind the other within a text, from an offset on. -/
def Spans (length : Nat) : Int → List Place → Prop
  | first, [] => 0 ≤ first ∧ first ≤ length
  | first, p :: rest => 0 ≤ first ∧ first ≤ p.start ∧ p.start ≤ p.stop ∧ Spans length p.stop rest

instance Spans.decidable (length : Nat) : (first : Int) → (places : List Place) →
    Decidable (Spans length first places)
  | first, [] => inferInstanceAs (Decidable (0 ≤ first ∧ first ≤ length))
  | first, p :: rest =>
    have := Spans.decidable length p.stop rest
    inferInstanceAs (Decidable (0 ≤ first ∧ first ≤ p.start ∧ p.start ≤ p.stop ∧ _))

theorem Spans.bounds (h : Spans n first places) : 0 ≤ first ∧ first ≤ n := by
  induction places generalizing first with
  | nil => exact h
  | cons p rest ih =>
    obtain ⟨h0, hfirst, hspan, hrest⟩ := h
    have := ih hrest
    omega

def lastStop (first : Int) : List Place → Int
  | [] => first
  | p :: rest => lastStop p.stop rest

theorem Spans.lastStop_bounds (h : Spans n first places) :
    first ≤ lastStop first places ∧ lastStop first places ≤ n := by
  induction places generalizing first with
  | nil => exact ⟨Int.le_refl _, h.2⟩
  | cons p rest ih =>
    obtain ⟨h0, hfirst, hspan, hrest⟩ := h
    have hlast : lastStop first (p :: rest) = lastStop p.stop rest := rfl
    have := ih hrest
    omega

theorem getLast?_stop (p : Place) (rest : List Place) :
    (((p :: rest).getLast?).map (·.stop)).getD 0 = lastStop first (p :: rest) := by
  induction rest generalizing p first with
  | nil => rfl
  | cons q rest ih => simpa [lastStop] using @ih p.stop q

-- ---------------------------------------------------------------------------
-- Slots
-- ---------------------------------------------------------------------------

def slotOf (source : List Char) (previous : Int) (p : Place) : Slot :=
  let lead := Text.between source previous p.start
  ⟨lead.takeWhile isGapChar, lead.dropWhile isGapChar ++ Text.between source p.start p.stop⟩

def slotsOf (source : List Char) : Int → List Place → List Slot
  | _, [] => []
  | previous, p :: rest => slotOf source previous p :: slotsOf source p.stop rest

@[simp] theorem length_slotsOf (source : List Char) (first : Int) (places : List Place) :
    (slotsOf source first places).length = places.length := by
  induction places generalizing first with
  | nil => rfl
  | cons p rest ih => simp [slotsOf, ih]

theorem slotOf_gap_append_chunk {p : Place} (h0 : 0 ≤ first) (hfirst : first ≤ p.start) (hspan : p.start ≤ p.stop)
    (hn : p.stop ≤ source.length) :
    (slotOf source first p).gap ++ (slotOf source first p).chunk =
      Text.between source first p.stop := by
  rw [slotOf, ← List.append_assoc, List.takeWhile_append_dropWhile]
  exact Text.between_append h0 hfirst hspan hn

theorem slots_eq (h : Spans source.length first places) :
    slots source first places = .ok (slotsOf source first places) := by
  induction places generalizing first with
  | nil => rfl
  | cons p rest ih =>
    obtain ⟨h0, hfirst, hspan, hrest⟩ := h
    have hn := hrest.bounds.2
    have hcut : ¬ (p.start < first ∨ p.stop < p.start) := by omega
    -- the gap ends where the comments above the member begin
    have hpart := Text.between_split h0 (by omega) hn
      (slotOf_gap_append_chunk h0 hfirst hspan hn).symm
    simp only [slots, hcut, Bool.or_eq_true, decide_eq_true_eq, ↓reduceIte, ih hrest]
    simp only [attachedStart, bind, Except.bind, pure, Except.pure, slotsOf]
    rw [show (Text.between source first p.start).takeWhile isGapChar = (slotOf source first p).gap
      from rfl, hpart.1, hpart.2]

theorem slotsOf_flatten (h : Spans source.length first places) :
    ((slotsOf source first places).map fun s => s.gap ++ s.chunk).flatten =
      Text.between source first (lastStop first places) := by
  induction places generalizing first with
  | nil => simp [slotsOf, lastStop]
  | cons p rest ih =>
    obtain ⟨h0, hfirst, hspan, hrest⟩ := h
    have hn := hrest.bounds
    have hlast := hrest.lastStop_bounds
    simp only [slotsOf, List.map_cons, List.flatten_cons, ih hrest, lastStop]
    rw [slotOf_gap_append_chunk h0 hfirst hspan hn.2]
    exact Text.between_append h0 (by omega) hlast.1 hlast.2

theorem isGapChar_of_mem_gap {s : Slot} {c : Char} (hs : s ∈ slotsOf source first places) (hc : c ∈ s.gap) :
    isGapChar c = true := by
  induction places generalizing first with
  | nil => cases hs
  | cons p rest ih =>
    rcases List.mem_cons.mp hs with rfl | hs
    · exact List.mem_takeWhile_imp hc
    · exact ih hs

theorem own_suffix_chunk (p : Place) (first : Int) (places : List Place) {s : Slot}
    (hp : (p, s) ∈ places.zip (slotsOf source first places)) :
    Text.between source p.start p.stop <:+ s.chunk := by
  induction places generalizing first with
  | nil => cases hp
  | cons q rest ih =>
    rcases List.mem_cons.mp hp with h | h
    · cases h
      exact List.suffix_append _ _
    · exact ih _ h

-- ---------------------------------------------------------------------------
-- Gaps that change
-- ---------------------------------------------------------------------------

def gapFor (slots : List Slot) (position : Nat) (moved : Bool) : List Char :=
  match slots[position]? with
  | none => []
  | some slot =>
    if moved && !slot.gap.contains '\n' then (lineBreakFor slots position).getD [] else slot.gap

theorem fill_eq (slots : List Slot) (position : Nat) (moved : Bool) (chunk : List Char) :
    fill slots position moved chunk = gapFor slots position moved ++ chunk := by
  unfold fill gapFor
  cases slots[position]? <;> rfl

theorem isGapChar_of_mem_lastLine (hg : ∀ c ∈ gap, isGapChar c = true) (hc : c ∈ lastLine gap) :
    isGapChar c = true := by
  unfold lastLine at hc
  rcases List.mem_append.mp hc with hc | hc
  · split at hc
    · rcases List.mem_pair.mp hc with rfl | rfl <;> rfl
    · rw [List.mem_singleton.mp hc]
      rfl
  · refine hg c (List.mem_reverse.mp ?_)
    exact (List.takeWhile_sublist _).mem (List.mem_reverse.mp hc)

theorem isGapChar_of_mem_gapFor {slots : List Slot}
    (hg : ∀ s ∈ slots, ∀ c ∈ s.gap, isGapChar c = true) (hc : c ∈ gapFor slots position moved) :
    isGapChar c = true := by
  unfold gapFor at hc
  split at hc
  · cases hc
  · rename_i slot hslot
    split at hc
    · unfold lineBreakFor at hc
      simp only at hc
      split at hc
      · rename_i near hnear
        have hmem := List.mem_of_find?_eq_some hnear
        refine isGapChar_of_mem_lastLine (hg near ?_) hc
        rcases List.mem_append.mp hmem with hmem | hmem
        · exact List.mem_of_mem_take (List.mem_reverse.mp hmem)
        · exact List.mem_of_mem_drop hmem
      · cases hslots : Text.elementAt? slots position with
        | none => simp [hslots] at hc
        | some other =>
          simp only [hslots, Option.map_some, Option.getD_some] at hc
          obtain ⟨i, -, hi⟩ := Option.bind_eq_some_iff.mp hslots
          exact hg other (List.mem_of_getElem? hi) c hc
    · exact hg slot (List.mem_of_getElem? hslot) c hc

theorem gapFor_of_kept {slots : List Slot} {slot : Slot} (hs : slots[position]? = some slot)
    (h : '\n' ∈ slot.gap ∨ moved = false) : gapFor slots position moved = slot.gap := by
  have hkept : (moved && !slot.gap.contains '\n') = false := by
    rcases h with h | h
    · simp [h]
    · simp [h]
  simp only [gapFor, hs, hkept, Bool.false_eq_true, ↓reduceIte]

-- ---------------------------------------------------------------------------
-- The new text
-- ---------------------------------------------------------------------------

theorem map_chunkOf (places : List Place) (slots : List Slot)
    (hlen : places.length = slots.length) (hi : (places.map (·.index)).Nodup) :
    places.map (fun p => chunkOf places slots p.index) = slots.map (·.chunk) := by
  induction places generalizing slots with
  | nil => simp [List.length_eq_zero_iff.mp hlen.symm]
  | cons p rest ih =>
    cases slots with
    | nil => simp at hlen
    | cons s slots =>
      obtain ⟨hp, hrest⟩ := List.nodup_cons.mp hi
      have hnone : (rest.zip slots).filter (·.1.index == p.index) = [] := by
        rw [List.filter_eq_nil_iff]
        intro q hq heq
        refine hp (List.mem_map.mpr ⟨q.1, (List.of_mem_zip hq).1, ?_⟩)
        simpa using heq
      have hhead : chunkOf (p :: rest) (s :: slots) p.index = s.chunk := by
        simp [chunkOf, hnone]
      have htail : ∀ q ∈ rest, chunkOf (p :: rest) (s :: slots) q.index =
          chunkOf rest slots q.index := by
        intro q hq
        have hne : p.index ≠ q.index := fun h => hp (List.mem_map.mpr ⟨q, hq, h.symm⟩)
        simp [chunkOf, hne]
      simp only [List.map_cons, hhead, List.map_congr_left htail]
      rw [ih _ (by simpa using hlen) hrest]

theorem ascending_eq_of_perm {ns ms : List Int} (h : ns.Perm ms) : ascending ns = ascending ms := by
  have hc : ∀ xs : List Int, Sorting.Consistent (fun a b : Int => decide (a < b)) xs := fun xs =>
    ⟨fun a _ b _ hab => by simp only [decide_eq_true_eq, decide_eq_false_iff_not] at *; omega,
      fun a _ b _ c _ hab hbc => by simp only [decide_eq_false_iff_not] at *; omega⟩
  refine @List.Perm.eq_of_pairwise _ (· ≤ ·) _ _ ?_ ?_ ?_ ?_
  · intro a b _ _ hab hba
    omega
  · exact (Sorting.sort_pairwise (hc ns)).imp fun hab => by simpa using hab
  · exact (Sorting.sort_pairwise (hc ms)).imp fun hab => by simpa using hab
  · exact (Sorting.sort_perm _ ns).trans (h.trans (Sorting.sort_perm _ ms).symm)

theorem eq_of_indices_eq {members ordered : List Tagged} (hi : (indices members).Nodup)
    (hp : ordered.Perm members) (h : indices ordered = indices members) : ordered = members := by
  have hinj : ∀ a ∈ members, ∀ b ∈ members, a.2.index = b.2.index → a = b :=
    fun a ha b hb => List.inj_on_of_nodup_map hi ha hb
  refine List.ext_getElem hp.length_eq fun i h1 h2 => ?_
  refine hinj _ (hp.mem_iff.mp (List.getElem_mem h1)) _ (List.getElem_mem h2) ?_
  have := List.getElem_of_eq h (i := i) (by simpa [indices] using h1)
  simpa [indices] using this

def newGaps (slots : List Slot) (members ordered : List Tagged) : List (List Char) :=
  (members.zip ordered).mapIdx fun i pair => gapFor slots i (pair.2.1 != pair.1.1)

theorem getElem?_newGaps {slots : List Slot} {members ordered : List Tagged} {old new : Tagged}
    (hold : members[i]? = some old) (hnew : ordered[i]? = some new) :
    (newGaps slots members ordered)[i]? = some (gapFor slots i (new.1 != old.1)) := by
  have hzip : (members.zip ordered)[i]? = some (old, new) :=
    List.getElem?_zip_eq_some.mpr ⟨hold, hnew⟩
  simp [newGaps, List.getElem?_mapIdx, hzip]

theorem exists_of_mem_newGaps {slots : List Slot} {members ordered : List Tagged}
    (h : gap ∈ newGaps slots members ordered) : ∃ i moved, gap = gapFor slots i moved := by
  obtain ⟨i, hi, rfl⟩ := List.mem_iff_getElem.mp h
  exact ⟨i, _, List.getElem_mapIdx⟩

def tiled (gaps chunks : List (List Char)) : List Char :=
  (List.zipWith (· ++ ·) gaps chunks).flatten

theorem mapIdx_fill {members ordered : List Tagged} {slots : List Slot}
    (hlen : ordered.length = members.length) (chunk : Tagged → List Char) :
    ((members.zip ordered).mapIdx fun i pair =>
        fill slots i (pair.2.1 != pair.1.1) (chunk pair.2)).flatten =
      tiled (newGaps slots members ordered) (ordered.map chunk) := by
  unfold tiled newGaps
  congr 1
  refine List.ext_getElem (by simp [hlen]) fun i h1 h2 => ?_
  simp [fill_eq]

theorem reorder_eq {members ordered : List Tagged} (two : 2 ≤ members.length)
    (hp : ordered.Perm members) (spans : Spans source.length first (members.map Prod.snd))
    (hne : indices ordered ≠ indices members) :
    reorder source first members ordered =
      .ok (Text.before source first ++
        tiled (newGaps (slotsOf source first (members.map Prod.snd)) members ordered)
          (ordered.map fun m => chunkOf (members.map Prod.snd)
            (slotsOf source first (members.map Prod.snd)) m.2.index) ++
        Text.behind source (lastStop first (members.map Prod.snd))) := by
  have hasc : ascending (indices ordered) = ascending (indices members) :=
    ascending_eq_of_perm (hp.map _)
  have hshort : ¬ (members.length < 2) := by omega
  have hlast : (((members.map Prod.snd).getLast?).map (·.stop)).getD 0 =
      lastStop first (members.map Prod.snd) := by
    cases members with
    | nil => simp at two
    | cons m rest => exact getLast?_stop m.2 _
  simp only [reorder, hshort, hne, hasc, slots_eq spans, ne_eq, not_true_eq_false, decide_false,
    Bool.or_self, Bool.false_eq_true, ↓reduceIte, bind, Except.bind, pure, Except.pure, hlast]
  rw [mapIdx_fill hp.length_eq fun m => chunkOf (members.map Prod.snd)
    (slotsOf source first (members.map Prod.snd)) m.2.index]

theorem reorder_ne_overlap {members : List Tagged}
    (spans : members ≠ [] → Spans source.length first (members.map Prod.snd))
    (ordered : List Tagged) (start stop : Int) :
    reorder source first members ordered ≠ .error (.overlap start stop) := by
  intro h
  unfold reorder at h
  split at h
  · cases h
  · rename_i hmany
    have hne : members ≠ [] := by
      rintro rfl
      simp at hmany
    split at h
    · cases h
    · simp only [slots_eq (spans hne)] at h
      cases h

/-- A text and the same text with its members in a new order, side by side. -/
structure Tiling (source : List Char) (first : Int) (members ordered : List Tagged)
    (gaps moved : List (List Char)) (chunk : Tagged → List Char) : Prop where
  length_gaps : gaps.length = members.length
  length_moved : moved.length = members.length
  source_eq : source = Text.before source first ++ tiled gaps (members.map chunk) ++
    Text.behind source (lastStop first (members.map Prod.snd))
  reorder_eq : reorder source first members ordered =
    .ok (Text.before source first ++ tiled moved (ordered.map chunk) ++
      Text.behind source (lastStop first (members.map Prod.snd)))
  blank : ∀ gap ∈ gaps ++ moved, ∀ c ∈ gap, isGapChar c = true
  own : ∀ m ∈ members, Text.between source m.2.start m.2.stop <:+ chunk m
  kept : ∀ (i : Nat) gap, gaps[i]? = some gap → '\n' ∈ gap ∨ ordered[i]? = members[i]? →
    moved[i]? = some gap

theorem source_eq_tiled {members : List Tagged} (hi : (indices members).Nodup)
    (spans : Spans source.length first (members.map Prod.snd)) :
    source = Text.before source first ++
      tiled ((slotsOf source first (members.map Prod.snd)).map (·.gap))
        (members.map fun m => chunkOf (members.map Prod.snd)
          (slotsOf source first (members.map Prod.snd)) m.2.index) ++
      Text.behind source (lastStop first (members.map Prod.snd)) := by
  have hchunks : (members.map fun m => chunkOf (members.map Prod.snd)
      (slotsOf source first (members.map Prod.snd)) m.2.index) =
      (slotsOf source first (members.map Prod.snd)).map (·.chunk) := by
    have := map_chunkOf (members.map Prod.snd) (slotsOf source first (members.map Prod.snd))
      (by simp) (by simpa [indices, Function.comp_def] using hi)
    rw [← this, List.map_map]
    rfl
  have hzip : ∀ slots : List Slot, tiled (slots.map (·.gap)) (slots.map (·.chunk)) =
      (slots.map fun s => s.gap ++ s.chunk).flatten := fun slots => by
    simp [tiled, List.zipWith_map]
  have hb := spans.bounds
  have hl := spans.lastStop_bounds
  rw [hchunks, hzip, slotsOf_flatten spans, Text.before_append_between hb.1 hl.1 hl.2,
    Text.before_append_behind]

/-- No text is lost or doubled: chunks are moved as a whole, what stands in front of them is blank in
the old and in the new text, and a gap changes only where a member moves onto a line it shares. -/
theorem reorder_tiles {members ordered : List Tagged} (two : 2 ≤ members.length)
    (apart : (indices members).Nodup) (spans : Spans source.length first (members.map Prod.snd))
    (perm : ordered.Perm members) :
    ∃ gaps moved chunk, Tiling source first members ordered gaps moved chunk := by
  have hsource := source_eq_tiled apart spans
  set places := members.map Prod.snd with hplaces
  set slots := slotsOf source first places with hslots
  have hown : ∀ m ∈ members, Text.between source m.2.start m.2.stop <:+
      chunkOf places slots m.2.index := by
    intro m hm
    obtain ⟨i, hlt, rfl⟩ := List.mem_iff_getElem.mp hm
    have hget := List.getElem_of_eq (map_chunkOf places slots
      (by simp [hslots]) (by simpa [hplaces, indices, Function.comp_def] using apart)) (i := i)
      (by simpa [hplaces] using hlt)
    simp only [List.getElem_map, hplaces] at hget
    rw [hplaces, hget]
    refine own_suffix_chunk members[i].2 first places ?_
    refine List.mem_iff_getElem.mpr ⟨i, by simpa [hplaces, hslots] using hlt, ?_⟩
    simp [hplaces, hslots]
  have hgap : ∀ s ∈ slots, ∀ c ∈ s.gap, isGapChar c = true := fun s hs c hc =>
    isGapChar_of_mem_gap hs hc
  by_cases hsame : indices ordered = indices members
  · obtain rfl := eq_of_indices_eq apart perm hsame
    refine ⟨slots.map (·.gap), slots.map (·.gap), fun m => chunkOf places slots m.2.index,
      by simp [hslots, hplaces], by simp [hslots, hplaces], hsource, ?_, ?_, hown,
      fun _ _ h _ => h⟩
    · rw [← hsource]
      simp [reorder, pure, Except.pure]
    · intro gap hg c hc
      obtain ⟨s, hs, rfl⟩ := List.mem_map.mp ((List.mem_append.mp hg).elim id id)
      exact hgap s hs c hc
  · refine ⟨slots.map (·.gap), newGaps slots members ordered,
      fun m => chunkOf places slots m.2.index, by simp [hslots, hplaces],
      by simp [newGaps, perm.length_eq], hsource, reorder_eq two perm spans hsame, ?_, hown, ?_⟩
    · intro gap hg c hc
      rcases List.mem_append.mp hg with hg | hg
      · obtain ⟨s, hs, rfl⟩ := List.mem_map.mp hg
        exact hgap s hs c hc
      · obtain ⟨i, moved, rfl⟩ := exists_of_mem_newGaps hg
        exact isGapChar_of_mem_gapFor hgap hc
    · intro i gap hg hkept
      simp only [List.getElem?_map, Option.map_eq_some_iff] at hg
      obtain ⟨s, hs, rfl⟩ := hg
      have hlt : i < members.length := by
        have := (List.getElem?_eq_some_iff.mp hs).1
        simpa [hslots, hplaces] using this
      have hlt' : i < ordered.length := by rw [perm.length_eq]; exact hlt
      rw [List.getElem?_eq_getElem hlt, List.getElem?_eq_getElem hlt'] at hkept
      rw [getElem?_newGaps (List.getElem?_eq_getElem hlt) (List.getElem?_eq_getElem hlt'),
        gapFor_of_kept hs (hkept.imp id fun h => by simp [Option.some.inj h])]

theorem reorder_tiles_swapped :
    Spans 27 1 [⟨2, 8, 0⟩, ⟨17, 25, 1⟩] ∧
      ∃ gaps moved chunk,
        Tiling "{ int a; /* c */ void b; } ".toList 1 [(0, ⟨2, 8, 0⟩), (1, ⟨17, 25, 1⟩)]
          [(1, ⟨17, 25, 1⟩), (0, ⟨2, 8, 0⟩)] gaps moved chunk :=
  ⟨by decide, reorder_tiles (by decide) (by decide) (by decide) (List.Perm.swap _ _ _)⟩

end CallerFirst.Layout
