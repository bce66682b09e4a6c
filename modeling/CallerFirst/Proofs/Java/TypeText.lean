import CallerFirst.Proofs.Java.MemberText
import CallerFirst.Proofs.Java.Unit
import CallerFirst.Proofs.Layout

/-!
# The text of a type

`exists_typeText`: in a text that holds no escape and no line break within a token, the members of
its type stand where their spans say, between the token in front of them and the closing brace.
Those that may move are tagged with their spans in the order of the text (`movable_eq`).
-/

namespace CallerFirst.Java

open Token

variable {text : String} {source : List Char} {spans : List (Nat × Nat)} {bodyEnd i j k n : Nat}

-- ---------------------------------------------------------------------------
-- The type of a unit
-- ---------------------------------------------------------------------------

/-- The parts of the text of a type, with what they are read as. -/
structure TypeText (r : ReadType text) (spans : List (Nat × Nat)) : Prop where
  places : r.layout.members.map (·.span) = spans.map some
  front : Ended (text.toList.take r.layout.membersStart)
    ((r.tokens.take (r.body.lead + 1)).map lexeme)
  members : Members text.toList r.layout.bodyEnd r.layout.membersStart spans
    (r.body.members.map (Run.lexemes r.tokens))
  closing : Reads (text.toList.drop r.layout.bodyEnd)
    ((r.tokens.drop r.body.behind).map lexeme) []
  closing_lt : r.layout.bodyEnd < text.toList.length

theorem Pair.exists_spans {s : Source} {runs : List Run} {pairs : List (Pair Declaration)}
    (h : List.Forall₂ (Spans s) runs pairs) :
    ∃ spans, pairs.map (·.span) = spans.map some ∧
      List.Forall₂ (fun run span => s.span run = .ok span) runs spans := by
  induction h with
  | nil => exact ⟨[], rfl, .nil⟩
  | cons hspan _ ih =>
    obtain ⟨span, hok, hpair⟩ := hspan
    obtain ⟨spans, heq, hspans⟩ := ih
    exact ⟨span :: spans, by simp [hpair, heq], .cons hok hspans⟩

theorem ReadType.endAt_lead (r : ReadType text) (hstands : Body.Stands r.tokens r.body) :
    (Source.ofTokens text.toList r.tokens).endAt r.body.lead = .ok r.layout.membersStart := by
  have hstart := r.laidOut.membersStart
  unfold Convert.membersStartOf at hstart
  cases hterminator : r.body.terminator with
  | some index =>
    rw [hterminator] at hstart
    rwa [Body.lead, hterminator]
  | none =>
    obtain ⟨offset, hoffset, hbodyStart⟩ := r.laidOut.bodyStart
    rw [hterminator, hstands.constants hterminator] at hstart
    obtain ⟨t, ht, htext⟩ := hstands.lead
    have hlength : t.text.length = 1 := by
      rcases List.mem_pair.mp htext with htext | htext <;> rw [htext] <;> rfl
    rw [← Except.ok.inj hstart, hbodyStart, ← hlength]
    rw [Body.lead, hterminator, Option.getD_none] at ht ⊢
    exact endAt_of_offset ht ((offsetAt_eq ht).symm.trans hoffset)

theorem exists_typeText (r : ReadType text) (hfree : Escape.Free text.toList)
    (hbreaks : ∀ t ∈ r.tokens, '\n' ∉ t.text.toList) (hmembers : r.layout.members ≠ []) :
    ∃ spans, TypeText r spans := by
  have hscanned : Scanned text.toList r.tokens := by
    refine ⟨?_, hbreaks⟩
    have := r.scanned
    rwa [ofSource, Escape.expand_of_free hfree] at this
  obtain ⟨spans, hspans, hruns⟩ := Pair.exists_spans r.laidOut.memberLines.spans
  have hne : r.body.members ≠ [] := by
    rintro hnil
    have := r.laidOut.memberLines.spans
    rw [hnil] at this
    exact hmembers (List.forall₂_nil_left_iff.mp this)
  have hstands := Body.ofTokens_stands r.laidOut.braces r.laidOut.ofTokens hne
  -- the token in front of the members
  obtain ⟨lead, x, hlead, hfront⟩ :=
    hscanned.stopAt_of_endAt hstands.lead (by simp) (r.endAt_lead hstands)
  obtain ⟨y, hclose⟩ := hscanned.stopAt hstands.closing (by simp) r.laidOut.bodyEnd
  obtain ⟨t, ht, -⟩ := hstands.closing
  have hl := (List.getElem?_eq_some_iff.mp ht).1
  refine ⟨spans, hspans, ?_, ?_, ?_, hclose.lt_length⟩
  · rw [hlead]
    exact hfront.ended
  · rw [hlead]
    refine members_of_runs hstands.runs hscanned hclose hl.le ?_ (.closed hfront.reads_behind ?_) hruns
    · cases hruns : r.body.members with
      | nil => exact absurd hruns hne
      | cons run runs =>
        have := hstands.runs
        rw [hruns] at this
        cases this
        omega
    · rw [hfront.getLast?]
      rintro ⟨⟩
      exact absurd hfront.isStop (by decide)
  · rw [← hstands.closeIndex_eq hne]
    have hall := scan_iff_reads.mp ⟨r.tokens, hscanned.scan, rfl⟩
    obtain ⟨vs, hvs, hreads⟩ := hclose.reads.linear hall (Nat.zero_le _)
    rw [← List.take_append_drop r.body.closeIndex r.tokens, List.map_append] at hvs
    simp only [List.take_append_drop] at hvs
    rwa [← List.append_cancel_left hvs] at hreads

-- ---------------------------------------------------------------------------
-- Members that may move
-- ---------------------------------------------------------------------------

def placesFrom (i : Nat) : List (Nat × Nat) → List Place
  | [] => []
  | (start, stop) :: spans => { start, stop, index := i } :: placesFrom (i + 1) spans

theorem placesFrom_eq (i : Nat) {pairs : List (Pair Declaration)}
    (h : pairs.map (·.span) = spans.map some) :
    (pairs.mapIdx fun j pair => Convert.placeOf (i + j) pair) = placesFrom i spans := by
  induction pairs generalizing spans i with
  | nil =>
    obtain rfl : spans = [] := List.map_eq_nil_iff.mp h.symm
    rfl
  | cons pair pairs ih =>
    cases spans with
    | nil => cases h
    | cons span spans =>
      obtain ⟨hspan, hrest⟩ := List.cons.inj h
      rw [List.mapIdx_cons, placesFrom, ← ih (i + 1) hrest]
      simp only [Convert.placeOf, hspan, Nat.add_assoc, Nat.add_comm 1, Nat.add_zero]

theorem map_index_placesFrom (i : Nat) (spans : List (Nat × Nat)) :
    (placesFrom i spans).map (·.index) = (List.range' i spans.length).map Nat.cast := by
  induction spans generalizing i with
  | nil => rfl
  | cons span spans ih =>
    rw [placesFrom, List.map_cons, ih]
    rfl

theorem nodup_index_placesFrom (i : Nat) (spans : List (Nat × Nat)) :
    ((placesFrom i spans).map (·.index)).Nodup := by
  rw [map_index_placesFrom]
  exact List.Nodup.map (fun _ _ => Int.natCast_inj.mp) List.nodup_range'

theorem Members.spans_placesFrom (h : Members source bodyEnd n spans tss) (hend : bodyEnd ≤ source.length)
    (i : Nat) : Layout.Spans source.length n (placesFrom i spans) := by
  induction h generalizing i with
  | nil hlead =>
    have := hlead.le
    exact ⟨by omega, by omega⟩
  | cons hmember _ ih =>
    have := hmember.lead.le
    have := hmember.le
    exact ⟨by omega, Int.ofNat_le.mpr hmember.lead.le, Int.ofNat_le.mpr hmember.le, ih (i + 1)⟩

theorem Members.exists_last (h : Members source bodyEnd n spans tss) (i : Nat) :
    ∃ last : Nat, Layout.lastStop n (placesFrom i spans) = last ∧ Lead source last bodyEnd := by
  induction h generalizing i with
  | nil hlead => exact ⟨_, rfl, hlead⟩
  | cons _ _ ih => exact ih (i + 1)

theorem mayMove_eq_false_iff {m : Node} (h : m.category?.isSome = true) :
    m.mayMove = false ↔ m.category? = some .enumConstants := by
  cases m with
  | enumConstant => simp [Node.mayMove, Node.category?]
  | method place header => cases hc : header.isConstructor <;> simp [Node.mayMove, Node.category?, hc]
  | initializer place isStatic => cases isStatic <;> simp [Node.mayMove, Node.category?]
  | _ => simp [Node.mayMove, Node.category?]

theorem filter_eq_drop {α : Type} {f : α → Bool} {xs : List α} (n : Nat)
    (h : ∀ i a, xs[i]? = some a → (f a = false ↔ i < n)) : xs.filter f = xs.drop n := by
  induction xs generalizing n with
  | nil => simp
  | cons a xs ih =>
    have hhead := h 0 a rfl
    cases n with
    | zero =>
      rw [List.drop_zero, List.filter_eq_self]
      intro b hb
      obtain ⟨i, hi⟩ := List.mem_iff_getElem?.mp hb
      simpa using (h i b hi).not
    | succ n =>
      rw [List.filter_cons_of_neg (by simpa using hhead), List.drop_succ_cons]
      refine ih n fun i b hb => ?_
      rw [h (i + 1) b (by simpa using hb)]
      omega

namespace ReadType

def movable (r : ReadType text) : List Layout.Tagged :=
  (MemberOrder.tag (r.members.filter (·.mayMove))).map fun m => (m.1, m.2.place)

theorem filter_mayMove (r : ReadType text) :
    r.members.filter (·.mayMove) = r.members.drop r.layout.constants.length :=
  filter_eq_drop _ fun i m hm => by
    rw [← category_eq_enumConstants_iff hm]
    exact mayMove_eq_false_iff (r.isMember (List.mem_of_getElem? hm))

theorem map_place_members (r : ReadType text) :
    r.members.map Node.place = (r.layout.constants ++ r.layout.members).mapIdx Convert.placeOf := by
  refine List.ext_getElem? fun i => ?_
  have := congrArg (fun outlines => (outlines[i]?).map Prod.fst) r.outline_eq
  simp only [List.getElem?_map, List.getElem?_mapIdx, Option.map_map] at this ⊢
  exact this

theorem map_place_movable {r : ReadType text}
    (h : r.layout.members.map (·.span) = spans.map some) :
    (r.members.filter (·.mayMove)).map Node.place = placesFrom r.layout.constants.length spans := by
  rw [filter_mayMove, List.map_drop, map_place_members, List.mapIdx_append,
    List.drop_left' (by simp), ← placesFrom_eq _ h]
  simp only [Nat.add_comm]

theorem movable_eq {r : ReadType text} (h : r.layout.members.map (·.span) = spans.map some) :
    r.movable = (placesFrom r.layout.constants.length spans).mapIdx fun i p => (i, p) := by
  rw [movable, MemberOrder.tag, ← map_place_movable h]
  refine List.ext_getElem? fun i => ?_
  simp only [List.getElem?_map, List.getElem?_mapIdx, Option.map_map]
  rfl

theorem map_snd_movable {r : ReadType text} (h : r.layout.members.map (·.span) = spans.map some) :
    r.movable.map Prod.snd = placesFrom r.layout.constants.length spans := by
  rw [movable_eq h]
  refine List.ext_getElem? fun i => ?_
  simp only [List.getElem?_map, List.getElem?_mapIdx, Option.map_map]
  exact Option.map_id'

end ReadType

end CallerFirst.Java
