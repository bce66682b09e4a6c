import CallerFirst.Proofs.Java.TypeText
import CallerFirst.Proofs.MethodOrder

/-!
# Moving members keeps the tokens

Members are moved with the comments above and behind them, and what they are read as moves with them
unless a line comment behind one goes on into what comes next. `tokensKept_iff` says that nothing
else can go wrong.
-/

namespace CallerFirst

open Java Java.Token

variable {text : String} {source gap comments own : List Char} {spans : List (Nat × Nat)}
  {ts : List Lexeme} {bodyEnd i j m n start stop : Nat}

-- ---------------------------------------------------------------------------
-- Chunks
-- ---------------------------------------------------------------------------

theorem isGapChar_cases {c : Char} (h : Layout.isGapChar c = true) :
    (c ≠ '\\' ∧ c ≠ 'u') ∧ (Text.isBlank c = true ∨ c = ';') := by
  simp only [Layout.isGapChar, Bool.or_eq_true, beq_iff_eq] at h
  rcases h with ((((rfl | rfl) | rfl) | rfl) | rfl) | rfl <;> decide

theorem filler_gap (h : ∀ c ∈ gap, Layout.isGapChar c = true) : Filler gap := by
  induction gap with
  | nil => exact ⟨0, solid_nil⟩
  | cons c gap ih =>
    have hfirst : Filler [c] := by
      rcases (isGapChar_cases (h c List.mem_cons_self)).2 with hc | rfl
      · exact filler_blanks (by simpa using hc)
      · exact filler_semicolon
    exact hfirst.append (ih fun d hd => h d (.tail _ hd))

theorem after_gap (h : ∀ c ∈ gap, Layout.isGapChar c = true) (a : List Char) :
    Escape.after false (gap ++ a) = Escape.after false a := by
  induction gap with
  | nil => rfl
  | cons c gap ih =>
    obtain ⟨hc, hu⟩ := (isGapChar_cases (h c List.mem_cons_self)).1
    rw [List.cons_append, Escape.after_cons hc hu, ih fun d hd => h d (.tail _ hd)]

theorem Java.Lead.free_behind (h : Lead source n m) (hfree : Escape.Free source) :
    Escape.Free (source.drop n) := by
  rw [← List.take_append_drop n source] at hfree
  obtain ⟨waits, hwaits, hrest⟩ := hfree.exists_after
  rcases h.begins with hlast | ⟨c, hc, hgap⟩
  · obtain rfl : waits = false := by
      rcases List.eq_nil_or_concat (source.take n) with hnil | ⟨u, d, hu⟩
      · rw [hnil] at hwaits
        exact (Option.some.inj hwaits).symm
      · exact Escape.eq_false_of_after hwaits (by simp [hu]) hlast
    exact hrest
  · obtain ⟨rest, hslice⟩ := exists_of_head? (Option.mem_def.mp hc)
    obtain ⟨hback, hu⟩ := (isGapChar_cases hgap).1
    unfold Escape.Free
    rw [← Text.slice_append_drop h.le source, hslice, List.cons_append] at hrest ⊢
    rwa [Escape.after_cons hback hu] at hrest ⊢

theorem Java.Token.Ended.after_eq (h : Ended own ts) (hfree : Escape.Free (own ++ rest)) :
    Escape.after false own = some false := by
  obtain ⟨waits, hwaits, -⟩ := hfree.exists_after
  obtain ⟨u, x, us, rfl, hx, -⟩ := h
  obtain rfl := Escape.eq_false_of_after hwaits (by simp) (by
    rw [List.getLast?_concat]
    rintro ⟨⟩
    exact absurd hx (by decide))
  exact hwaits

/-- Comments above a member and the text of the member, as they move. -/
structure Chunk (comments own : List Char) (ts : List Lexeme) : Prop where
  filler : Filler comments
  head : ∃ text tail, Head own ts text tail
  escapes : ∃ waits, Escape.after false (comments ++ own) = some waits ∧
    (waits = true → EndsInComment own)

theorem Java.MemberAt.chunk (h : MemberAt source n start stop ts) (hfree : Escape.Free source) :
    Chunk ((Text.slice source n start).dropWhile Layout.isGapChar) (Text.slice source start stop)
      ts := by
  have hgap : ∀ c ∈ (Text.slice source n start).takeWhile Layout.isGapChar,
      Layout.isGapChar c = true := fun c => List.mem_takeWhile_imp
  have hsplit := (List.takeWhile_append_dropWhile (p := Layout.isGapChar)
    (l := Text.slice source n start)).symm
  generalize (Text.slice source n start).takeWhile Layout.isGapChar = gap at hgap hsplit
  generalize (Text.slice source n start).dropWhile Layout.isGapChar = comments at hsplit ⊢
  refine ⟨.of_append (filler_gap hgap) (hsplit ▸ h.lead.filler), h.head, ?_⟩
  have hbehind := h.lead.free_behind hfree
  rw [← Text.slice_append_drop h.lead.le source, ← Text.slice_append_drop h.le source, hsplit,
    ← List.append_assoc] at hbehind
  obtain ⟨waits, hwaits, -⟩ := hbehind.exists_after
  rw [List.append_assoc, after_gap hgap] at hwaits
  refine ⟨waits, hwaits, ?_⟩
  rintro rfl
  obtain ⟨own, tail, heq, ⟨u, x, us, rfl, -⟩, -⟩ := h.head
  have hne : Text.slice source start stop ≠ [] := by simp [heq]
  refine h.waits (Classical.byContradiction fun hlast => ?_)
  refine absurd (Escape.eq_false_of_after hwaits (by simp [hne]) ?_) (by simp)
  obtain ⟨body, c, hc⟩ := (List.eq_nil_or_concat _).resolve_left hne
  rw [hc] at hlast ⊢
  simpa using hlast

theorem Java.Members.exists_chunk (h : Members source bodyEnd n spans tss)
    (hfree : Escape.Free source) (hp : (placesFrom i spans)[j]? = some p) :
    ∃ comments ts slot, tss[j]? = some ts ∧
      (Layout.slotsOf source n (placesFrom i spans))[j]? = some slot ∧
      slot.chunk = comments ++ Text.between source p.start p.stop ∧
      Chunk comments (Text.between source p.start p.stop) ts := by
  induction h generalizing i j with
  | nil => cases hp
  | @cons n start stop ts spans tss hmember _ ih =>
    cases j with
    | zero =>
      cases hp
      refine ⟨_, ts, _, rfl, rfl, rfl, ?_⟩
      simp only [Text.between_natCast]
      exact hmember.chunk hfree
    | succ j => exact ih hp

-- ---------------------------------------------------------------------------
-- Parts in a new order
-- ---------------------------------------------------------------------------

section Parts

variable {α : Type} {members : List α} {gaps : List (List Char)} {front last closing : List Char}
  (commentsOf ownOf : α → List Char) (lexemesOf : α → List Lexeme)

theorem alternate_of_chunks (hfront : Head front ts own tail) (hlast : Filler last)
    (hclosing : Escape.Free (last ++ closing)) (hlength : gaps.length = members.length)
    (hgaps : ∀ gap ∈ gaps, ∀ c ∈ gap, Layout.isGapChar c = true)
    (hchunks : ∀ m ∈ members, Chunk (commentsOf m) (ownOf m) (lexemesOf m)) :
    Alternate closing (front :: members.map ownOf)
      (List.zipWith (· ++ ·) gaps (members.map commentsOf) ++ [last])
      (ts :: members.map lexemesOf) := by
  induction members generalizing gaps front ts own tail with
  | nil =>
    obtain rfl := List.length_eq_zero_iff.mp hlength
    exact .last hfront hlast hclosing
  | cons m members ih =>
    obtain ⟨gap, gaps, rfl⟩ := List.exists_cons_of_length_eq_add_one hlength
    obtain ⟨hfiller, ⟨own', tail', hhead⟩, waits, hwaits, hcomment⟩ := hchunks m List.mem_cons_self
    have hgap := hgaps gap List.mem_cons_self
    refine .cons hfront ((filler_gap hgap).append hfiller) ?_ hcomment
      (ih hhead (Nat.succ.inj hlength) (fun g hg => hgaps g (.tail _ hg))
        fun k hk => hchunks k (.tail _ hk))
    rw [List.append_assoc, after_gap hgap]
    exact hwaits

theorem flatten_parts (hlength : gaps.length = members.length) (front last closing : List Char) :
    (List.zipWith (· ++ ·) (front :: members.map ownOf)
        (List.zipWith (· ++ ·) gaps (members.map commentsOf) ++ [last]) ++ [closing]).flatten =
      front ++ Layout.tiled gaps (members.map fun m => commentsOf m ++ ownOf m) ++
        (last ++ closing) := by
  induction members generalizing gaps front with
  | nil =>
    obtain rfl := List.length_eq_zero_iff.mp hlength
    simp [Layout.tiled]
  | cons m members ih =>
    obtain ⟨gap, gaps, rfl⟩ := List.exists_cons_of_length_eq_add_one hlength
    have := ih (Nat.succ.inj hlength) (ownOf m)
    simp only [Layout.tiled, List.map_cons, List.zipWith_cons_cons, List.cons_append,
      List.flatten_cons, List.append_assoc] at this ⊢
    rw [this]

end Parts

namespace Java.ReadType

def slots (r : ReadType text) : List Slot :=
  Layout.slotsOf text.toList r.layout.membersStart (r.movable.map Prod.snd)

def chunkOf (r : ReadType text) (m : Layout.Tagged) : List Char :=
  Layout.chunkOf (r.movable.map Prod.snd) r.slots m.2.index

def ownText (_ : ReadType text) (m : Layout.Tagged) : List Char :=
  Text.between text.toList m.2.start m.2.stop

def commentsAbove (r : ReadType text) (m : Layout.Tagged) : List Char :=
  (r.chunkOf m).take ((r.chunkOf m).length - (r.ownText m).length)

def lexemesOf (r : ReadType text) (m : Layout.Tagged) : List Lexeme :=
  ((r.body.members.map (Run.lexemes r.tokens))[m.1]?).getD []

/-- The text of a unit with its members in some order, cut in front of each member and behind it. -/
def sortedParts (r : ReadType text) (ordered : List Layout.Tagged) : Parts where
  heads := Text.before text.toList r.layout.membersStart :: ordered.map r.ownText
  leads :=
    List.zipWith (· ++ ·) (Layout.newGaps r.slots r.movable ordered) (ordered.map r.commentsAbove) ++
      [Text.between text.toList (Layout.lastStop r.layout.membersStart (r.movable.map Prod.snd))
        r.layout.bodyEnd]
  closing := Text.behind text.toList r.layout.bodyEnd
  lexemes := (r.tokens.take (r.body.lead + 1)).map lexeme :: ordered.map r.lexemesOf
  behind := (r.tokens.drop r.body.behind).map lexeme

variable {r : ReadType text} {ordered : List Layout.Tagged}

theorem length_movable (r : ReadType text) : r.movable.length = r.layout.members.length := by
  have hlength := congrArg List.length r.outline_eq
  simp only [List.length_map, List.length_mapIdx, List.length_append] at hlength
  rw [movable, filter_mayMove]
  simp only [MemberOrder.tag, List.length_map, List.length_mapIdx, List.length_drop, hlength]
  omega

theorem chunk_of_mem (h : TypeText r spans) (hfree : Escape.Free text.toList)
    {m : Layout.Tagged} (hm : m ∈ r.movable) :
    r.chunkOf m = r.commentsAbove m ++ r.ownText m ∧
      Chunk (r.commentsAbove m) (r.ownText m) (r.lexemesOf m) := by
  have hplaces := map_snd_movable h.places
  rw [movable_eq h.places] at hm
  obtain ⟨j, hj, rfl⟩ := List.mem_mapIdx.mp hm
  have hp := List.getElem?_eq_getElem hj
  generalize (placesFrom r.layout.constants.length spans)[j] = p at hp ⊢
  obtain ⟨comments, ts, slot, hts, hslot, hchunk, hmoves⟩ := h.members.exists_chunk hfree hp
  have hfound : r.chunkOf (j, p) = comments ++ r.ownText (j, p) := by
    have := congrArg (·[j]?) (Layout.map_chunkOf (placesFrom r.layout.constants.length spans) _
      (Layout.length_slotsOf text.toList r.layout.membersStart _).symm
      (nodup_index_placesFrom r.layout.constants.length spans))
    simp only [List.getElem?_map, hp, hslot, Option.map_some, Option.some_inj] at this
    rw [chunkOf, slots, hplaces, this, hchunk]
    rfl
  have hcomments : r.commentsAbove (j, p) = comments := by
    rw [commentsAbove, hfound, List.length_append, Nat.add_sub_cancel, List.take_left]
  have hlexemes : r.lexemesOf (j, p) = ts := by
    rw [lexemesOf, hts]
    rfl
  rw [hcomments, hlexemes]
  exact ⟨hfound, hmoves⟩

theorem length_newGaps (hperm : ordered.Perm r.movable) :
    (Layout.newGaps r.slots r.movable ordered).length = ordered.length := by
  simp [Layout.newGaps, hperm.length_eq]

theorem spans_movable (h : TypeText r spans) :
    Layout.Spans text.toList.length r.layout.membersStart (r.movable.map Prod.snd) := by
  rw [map_snd_movable h.places]
  exact h.members.spans_placesFrom h.closing_lt.le _

theorem sortedParts_fits (h : TypeText r spans) (hfree : Escape.Free text.toList)
    (hperm : ordered.Perm r.movable) : (r.sortedParts ordered).Fits := by
  have hbounds := (spans_movable h).bounds
  obtain ⟨last, hlast, hlead⟩ := h.members.exists_last r.layout.constants.length
  rw [← map_snd_movable h.places] at hlast
  have hbefore : Text.before text.toList r.layout.membersStart =
      text.toList.take r.layout.membersStart := Text.before_eq_take hbounds.1 hbounds.2
  have hbehind : Text.behind text.toList r.layout.bodyEnd = text.toList.drop r.layout.bodyEnd :=
    Text.behind_eq_drop (by omega) (by have := h.closing_lt; omega)
  refine ⟨?_, ?_, ?_, ?_⟩
  · have hfront : Head (Text.before text.toList r.layout.membersStart)
        ((r.tokens.take (r.body.lead + 1)).map lexeme) (text.toList.take r.layout.membersStart) [] :=
      ⟨by simp [hbefore], h.front, .inl solid_nil⟩
    refine alternate_of_chunks _ _ _ hfront ?_ ?_ (length_newGaps hperm) ?_ fun m hm =>
      (chunk_of_mem h hfree (hperm.mem_iff.mp hm)).2
    · rw [hlast, Text.between_natCast]
      exact hlead.filler
    · rw [hlast, Text.between_natCast]
      show Escape.Free (_ ++ Text.behind text.toList r.layout.bodyEnd)
      rw [hbehind, Text.slice_append_drop hlead.le]
      exact hlead.free_behind hfree
    · intro gap hgap c hc
      obtain ⟨i, moved, rfl⟩ := Layout.exists_of_mem_newGaps hgap
      exact Layout.isGapChar_of_mem_gapFor (fun s hs c => Layout.isGapChar_of_mem_gap hs) hc
  · show Reads (Text.behind text.toList r.layout.bodyEnd) _ []
    rw [hbehind]
    exact h.closing
  · show Text.behind text.toList r.layout.bodyEnd ≠ []
    rw [hbehind]
    simpa using h.closing_lt
  · rintro head ⟨⟩
    rw [hbefore]
    rw [← List.take_append_drop r.layout.membersStart text.toList] at hfree
    exact h.front.after_eq hfree

theorem text_sortedParts (h : TypeText r spans) (hfree : Escape.Free text.toList)
    (hperm : ordered.Perm r.movable) :
    (r.sortedParts ordered).text =
      Text.before text.toList r.layout.membersStart ++
        Layout.tiled (Layout.newGaps r.slots r.movable ordered) (ordered.map r.chunkOf) ++
        Text.behind text.toList (Layout.lastStop r.layout.membersStart (r.movable.map Prod.snd)) := by
  have hchunks : ordered.map r.chunkOf =
      ordered.map fun m => r.commentsAbove m ++ r.ownText m :=
    List.map_congr_left fun m hm => (chunk_of_mem h hfree (hperm.mem_iff.mp hm)).1
  obtain ⟨last, hlast, hlead⟩ := h.members.exists_last r.layout.constants.length
  rw [← map_snd_movable h.places] at hlast
  have hend := h.closing_lt
  have hle := hlead.le
  have hbehind {n : Nat} (hn : n ≤ text.toList.length) :
      Text.behind text.toList n = text.toList.drop n :=
    Text.behind_eq_drop (by omega) (by omega)
  rw [Parts.text, sortedParts, flatten_parts _ _ (length_newGaps hperm), hchunks, hlast,
    Text.between_natCast, hbehind hend.le, hbehind (by omega), Text.slice_append_drop hle]

end Java.ReadType

-- ---------------------------------------------------------------------------
-- Sorted sources
-- ---------------------------------------------------------------------------

namespace MemberOrder

def orderedPlaces (o : MemberOrder) (r : ReadType text) : List Layout.Tagged :=
  (o.sort (r.members.filter (·.mayMove))).map fun m => (m.1, m.2.place)

theorem orderedPlaces_perm {o : MemberOrder} (ha : o.methodsOnly = false) (r : ReadType text) :
    (o.orderedPlaces r).Perm r.movable :=
  (sort_perm ha).map _

theorem reorderUnit_cases {o : MemberOrder} {r : ReadType text} {others : List Node}
    (h : o.reorderUnit (r.unit others) = .ok found) :
    found = .ok text.toList ∨
      2 ≤ r.movable.length ∧ Layout.indices (o.orderedPlaces r) ≠ Layout.indices r.movable ∧
        Layout.reorder text.toList r.layout.membersStart r.movable (o.orderedPlaces r) = found := by
  have hlength : r.movable.length = (r.members.filter (·.mayMove)).length := by
    simp [ReadType.movable, tag]
  simp only [reorderUnit, ReadType.unit, Node.source, bind_eq_ok, Except.ok.injEq,
    exists_eq_left'] at h
  obtain ⟨top, htop, h⟩ := h
  obtain rfl : top = some (.type { index := 0 } r.header r.members) :=
    Except.ok.inj (htop.symm.trans (r.topLevelType_unit others))
  simp only [Node.members, Node.membersStart, bind_eq_ok, Except.ok.injEq, exists_eq_left'] at h
  split at h
  · exact .inl (Except.ok.inj h).symm
  · split at h
    · cases h
    · split at h
      · exact .inl (Except.ok.inj h).symm
      · rename_i htwo _ hindices
        exact .inr ⟨by omega, hindices, Except.ok.inj h⟩

theorem reorderUnit_eq_ok {o : MemberOrder} {r : ReadType text} {others : List Node}
    (h : o.reorderUnit (r.unit others) = .ok (.ok chars)) (hne : chars ≠ text.toList) :
    2 ≤ r.movable.length ∧ Layout.indices (o.orderedPlaces r) ≠ Layout.indices r.movable ∧
      Layout.reorder text.toList r.layout.membersStart r.movable (o.orderedPlaces r) = .ok chars :=
  (reorderUnit_cases h).resolve_left fun hkept => hne (Except.ok.inj hkept)

end MemberOrder

namespace Sorter

variable {p : Preferences} {outcome : Outcome}

theorem exists_of_changed (h : preferred.sortSource p path text = .ok outcome)
    (hchanged : outcome.changed = true) :
    ∃ (r : ReadType text) (others : List Node) (chars : List Char),
      readUnit text = .ok (r.unit others) ∧ outcome.sortedSource = String.ofList chars ∧
      (orderOf p (r.unit others)).reorderUnit (r.unit others) = .ok (.ok chars) ∧
      chars ≠ text.toList := by
  unfold sortSource at h
  split at h
  · rename_i unit hunit
    have h := ok_of_mapError h
    simp only [sortUnit, bind_eq_ok] at h
    obtain ⟨source, hsource, reordered, hreordered, h⟩ := h
    obtain rfl : source = text := by
      rcases readUnit_ok hunit with ⟨package, rfl⟩ | ⟨r, others, rfl⟩
      · exact (Except.ok.inj hsource).symm
      · exact (Except.ok.inj hsource).symm
    cases reordered with
    | error reason =>
      cases h
      simp [Outcome.changed] at hchanged
    | ok chars =>
      cases h
      have hne : chars ≠ source.toList := by
        rintro rfl
        simp [Outcome.changed] at hchanged
      rcases readUnit_ok hunit with ⟨package, rfl⟩ | ⟨r, others, rfl⟩
      · exact absurd (Except.ok.inj (Except.ok.inj hreordered)).symm hne
      · exact ⟨r, others, chars, hunit, rfl, hreordered, hne⟩
  · cases h
    simp [Outcome.changed, Outcome.unread] at hchanged
  · cases h

theorem tokensKept_iff (hsort : preferred.sortSource p path text = .ok outcome)
    (hchanged : outcome.changed = true) (hfree : Escape.Free text.toList)
    (hbreaks : ∀ tokens, ofSource text.toList = .ok tokens → ∀ t ∈ tokens, '\n' ∉ t.text.toList) :
    ∃ (r : ReadType text) (others : List Node), readUnit text = .ok (r.unit others) ∧
      ((orderOf p (r.unit others)).orderedPlaces r).Perm r.movable ∧
      outcome.sortedSource.toList =
        (r.sortedParts ((orderOf p (r.unit others)).orderedPlaces r)).text ∧
      ((r.sortedParts ((orderOf p (r.unit others)).orderedPlaces r)).Kept ↔
        (r.sortedParts ((orderOf p (r.unit others)).orderedPlaces r)).CommentsEnd) := by
  obtain ⟨r, others, chars, hread, hsorted, hreorder, hne⟩ := exists_of_changed hsort hchanged
  have hperm := MemberOrder.orderedPlaces_perm (o := orderOf p (r.unit others)) rfl r
  obtain ⟨htwo, hindices, hreorder⟩ := MemberOrder.reorderUnit_eq_ok hreorder hne
  have hmembers : r.layout.members ≠ [] := by
    intro hnil
    rw [r.length_movable, hnil] at htwo
    simp at htwo
  obtain ⟨spans, htext⟩ := exists_typeText r hfree (hbreaks _ r.scanned) hmembers
  refine ⟨r, others, hread, hperm, ?_, (ReadType.sortedParts_fits htext hfree hperm).kept_iff⟩
  rw [Layout.reorder_eq htwo hperm (ReadType.spans_movable htext) hindices] at hreorder
  rw [hsorted, String.toList_ofList, ReadType.text_sortedParts htext hfree hperm]
  exact (Except.ok.inj hreorder).symm

def apart : String :=
  "class A \x7b\n void b()\x7b\x7d // t\n void a()\x7bb();\x7d\n\x7d"

theorem tokensKept_iff_apart :
    ∃ outcome, preferred.sortSource {} none apart = .ok outcome ∧ outcome.changed = true ∧
      ∃ (r : ReadType apart) (others : List Node), readUnit apart = .ok (r.unit others) ∧
        ((orderOf {} (r.unit others)).orderedPlaces r).Perm r.movable ∧
        outcome.sortedSource.toList =
          (r.sortedParts ((orderOf {} (r.unit others)).orderedPlaces r)).text ∧
        ((r.sortedParts ((orderOf {} (r.unit others)).orderedPlaces r)).Kept ↔
          (r.sortedParts ((orderOf {} (r.unit others)).orderedPlaces r)).CommentsEnd) := by
  have hchanges : ((preferred.sortSource {} none apart).toOption.any (·.changed)) = true := by
    decide +kernel
  obtain ⟨outcome, hsort, hchanged⟩ := Option.any_eq_true _ _ |>.mp hchanges
  have hsort := toOption_eq_some hsort
  refine ⟨outcome, hsort, hchanged, tokensKept_iff hsort hchanged (by decide) fun tokens htokens => ?_⟩
  have hbreaks : ((ofSource apart.toList).toOption.all fun tokens =>
      tokens.all fun t => !t.text.toList.contains '\n') = true := by
    decide +kernel
  rw [htokens] at hbreaks
  simpa [Except.toOption] using hbreaks

def together : String :=
  "class A \x7b void b()\x7b\x7d void a()\x7bb();\x7d // t\n\x7d"

/-- The first member moves into the comment. -/
theorem member_in_comment :
    ∃ outcome before after, preferred.sortSource {} none together = .ok outcome ∧
      outcome.changed = true ∧ ofSource together.toList = .ok before ∧
      ofSource outcome.sortedSource.toList = .ok after ∧
      ¬((after.map lexeme).filter (· ≠ semicolon)).Perm
        ((before.map lexeme).filter (· ≠ semicolon)) := by
  have h : ((preferred.sortSource {} none together).toOption.any fun outcome =>
      (ofSource together.toList).toOption.any fun before =>
        (ofSource outcome.sortedSource.toList).toOption.any fun after =>
          outcome.changed && !decide (((after.map lexeme).filter (· ≠ semicolon)).Perm
            ((before.map lexeme).filter (· ≠ semicolon)))) = true := by
    decide +kernel
  simp only [Option.any_eq_true, Bool.and_eq_true, Bool.not_eq_true', decide_eq_false_iff_not] at h
  obtain ⟨outcome, hsort, before, hbefore, after, hafter, hchanged, hperm⟩ := h
  exact ⟨outcome, before, after, toOption_eq_some hsort, hchanged, toOption_eq_some hbefore,
    toOption_eq_some hafter, hperm⟩

end Sorter

end CallerFirst
