import CallerFirst.FileTree
import CallerFirst.Proofs.Entries
import CallerFirst.Proofs.Except
import Mathlib.Data.List.Perm.Subperm
import Mathlib.Data.List.Nodup
import Mathlib.Data.Nat.Basic
import Std.Data.String.ToNat

/-!
# Files that come and go

Where a path leads depends on the names in a tree alone. A file that is made at free names and removed
again leaves no trace (`remove_put`); moved onto another file, it leaves that file with its bytes
(`rename_put`). There are always free names for it (`exists_temporaryBeside`).
-/

namespace CallerFirst.FileTree

variable {t t' : FileTree} {names other temporary : Names} {content : ByteArray} {path : String}

-- ---------------------------------------------------------------------------
-- Names
-- ---------------------------------------------------------------------------

theorem isFile_iff : t.isFile names = true ↔ names ∈ t.files.map Prod.fst := by
  simp [isFile, List.any_eq_true, List.mem_map]

theorem isDirectory_iff : t.isDirectory names = true ↔
    names <+: t.home ∨ (∃ other ∈ t.directories, names <+: other) ∨
      ∃ other ∈ t.files.map Prod.fst, names <+: other ∧ names.length < other.length := by
  simp only [isDirectory, isInner, Bool.or_eq_true, List.isPrefixOf_iff_prefix, List.any_eq_true,
    List.contains_iff_mem, List.mem_append, Bool.and_eq_true, decide_eq_true_eq]
  constructor
  · rintro ((h | h) | ⟨other, h | h, hbefore⟩)
    · exact .inl h
    · exact .inr (.inl ⟨names, h, List.prefix_refl _⟩)
    · exact .inr (.inr ⟨other, h, hbefore⟩)
    · exact .inr (.inl ⟨other, h, hbefore.1⟩)
  · rintro (h | ⟨other, h, hbefore⟩ | ⟨other, h, hbefore⟩)
    · exact .inl (.inl h)
    · rcases Nat.lt_or_ge names.length other.length with hlt | hge
      · exact .inr ⟨other, .inr h, hbefore, hlt⟩
      · exact .inl (.inr (hbefore.eq_of_length_le hge ▸ h))
    · exact .inr ⟨other, .inl h, hbefore⟩

theorem isDirectory_of_prefix (h : t.isDirectory names = true) (hbefore : other <+: names) :
    t.isDirectory other = true := by
  rw [isDirectory_iff] at h ⊢
  rcases h with h | ⟨d, hd, h⟩ | ⟨f, hf, h, hlt⟩
  · exact .inl (hbefore.trans h)
  · exact .inr (.inl ⟨d, hd, hbefore.trans h⟩)
  · exact .inr (.inr ⟨f, hf, hbefore.trans h, Nat.lt_of_le_of_lt hbefore.length_le hlt⟩)

theorem isSome_content? (t : FileTree) (names : Names) :
    (t.content? names).isSome = t.isFile names :=
  Entries.isSome_lookup _ _

/-- The same names stand in two trees, whatever the bytes. -/
structure SameNames (t t' : FileTree) : Prop where
  files : t'.files.map Prod.fst = t.files.map Prod.fst
  directories : t'.directories = t.directories
  home : t'.home = t.home

namespace SameNames

theorem refl (t : FileTree) : SameNames t t :=
  ⟨rfl, rfl, rfl⟩

theorem trans (h : SameNames t t') (h' : SameNames t' left) : SameNames t left :=
  ⟨h'.files.trans h.files, h'.directories.trans h.directories, h'.home.trans h.home⟩

theorem isFile (h : SameNames t t') : t'.isFile = t.isFile := by
  funext names
  rw [Bool.eq_iff_iff, isFile_iff, isFile_iff, h.files]

theorem isDirectory (h : SameNames t t') : t'.isDirectory = t.isDirectory := by
  funext names
  rw [Bool.eq_iff_iff, isDirectory_iff, isDirectory_iff, h.files, h.directories, h.home]

theorem resolve (h : SameNames t t') (path : String) : t'.resolve path = t.resolve path := by
  have hstep : t'.step path = t.step path := by
    funext here name
    rw [step, step, h.isDirectory, h.isFile]
  rw [FileTree.resolve, FileTree.resolve, hstep, origin, origin, h.home]

end SameNames

-- ---------------------------------------------------------------------------
-- Paths
-- ---------------------------------------------------------------------------

theorem read_eq_ok_iff : t.read path = .ok content ↔
    ∃ names, t.resolve path = .ok names ∧ t.isDirectory names = false ∧
      t.content? names = some content := by
  simp only [read, bind_eq_ok]
  refine exists_congr fun names => and_congr_right fun _ => ?_
  cases t.isDirectory names with
  | true => exact iff_of_false (fun h => by cases h) (by simp)
  | false => cases t.content? names <;> simp [throw, throwThe, MonadExceptOf.throw, pure, Except.pure]

theorem exists_read_iff (h : t.resolve path = .ok names) :
    (∃ content, t.read path = .ok content) ↔ t.isDirectory names = false ∧ t.isFile names = true := by
  rw [← isSome_content?, Option.isSome_iff_exists]
  simp [read_eq_ok_iff, h]

theorem isDirectory_dropLast_step {here next : Names} {name : String}
    (h : t.step path here name = .ok next) : t.isDirectory next.dropLast = true := by
  unfold step at h
  split at h
  · rename_i hhere
    have hbehind := isDirectory_of_prefix hhere here.dropLast_prefix
    split at h
    · cases h
      exact hbehind
    · split at h
      · cases h
        exact isDirectory_of_prefix hbehind (List.dropLast_prefix _)
      · split at h
        · cases h
        · cases h
          simpa using hhere
  · split at h <;> cases h

/-- A path leads on from directories only. -/
theorem isDirectory_dropLast (h : t.resolve path = .ok names) :
    t.isDirectory names.dropLast = true := by
  have horigin : t.isDirectory (t.origin path).dropLast = true := by
    refine isDirectory_iff.mpr (.inl ((List.dropLast_prefix _).trans ?_))
    unfold origin
    split
    · exact List.nil_prefix
    · exact List.prefix_refl _
  unfold resolve at h
  split_ifs at h
  exact foldlM_keeps (fun here name next _ hnext => isDirectory_dropLast_step hnext) horigin h

-- ---------------------------------------------------------------------------
-- Writing
-- ---------------------------------------------------------------------------

theorem content?_put (t : FileTree) (names other : Names) (content : ByteArray) :
    (t.put names content).content? other = if other = names then some content else t.content? other :=
  Entries.lookup_put _ _ _ _

theorem isFile_put : (t.put names content).isFile other = true ↔
    other = names ∨ t.isFile other = true := by
  rw [isFile_iff, isFile_iff]
  exact Entries.mem_keys_put

theorem sameNames_put (h : t.isFile names = true) (content : ByteArray) :
    SameNames t (t.put names content) := by
  refine ⟨?_, rfl, rfl⟩
  rw [put, if_pos h]
  exact Entries.map_fst_replace _ _ _

theorem isDirectory_put (h : t.isDirectory names.dropLast = true) (content : ByteArray)
    (other : Names) : (t.put names content).isDirectory other = t.isDirectory other := by
  rw [Bool.eq_iff_iff]
  constructor
  · intro hother
    rcases isDirectory_iff.mp hother with hhome | hlisted | ⟨file, hfile, hbefore, hlt⟩
    · exact isDirectory_iff.mpr (.inl hhome)
    · exact isDirectory_iff.mpr (.inr (.inl hlisted))
    · rcases Entries.mem_keys_put.mp hfile with rfl | hfile
      · refine isDirectory_of_prefix h ?_
        rw [List.dropLast_eq_take, List.prefix_take_iff]
        exact ⟨hbefore, by omega⟩
      · exact isDirectory_iff.mpr (.inr (.inr ⟨file, hfile, hbefore, hlt⟩))
  · intro hother
    rcases isDirectory_iff.mp hother with hhome | hlisted | ⟨file, hfile, hbefore⟩
    · exact isDirectory_iff.mpr (.inl hhome)
    · exact isDirectory_iff.mpr (.inr (.inl hlisted))
    · exact isDirectory_iff.mpr (.inr (.inr ⟨file, Entries.mem_keys_put.mpr (.inr hfile), hbefore⟩))

theorem isFree_put (h : t.isDirectory names.dropLast = true) (content : ByteArray)
    (hother : other ≠ names) : (t.put names content).isFree other = t.isFree other := by
  have hfile : (t.put names content).isFile other = t.isFile other := by
    rw [Bool.eq_iff_iff, isFile_put, or_iff_right hother]
  rw [isFree, isFree, hfile, isDirectory_put h]

-- ---------------------------------------------------------------------------
-- Temporary files
-- ---------------------------------------------------------------------------

theorem ne_of_not_isFile (h : t.isFile names = false) : ∀ f ∈ t.files, f.1 ≠ names := by
  simpa [isFile] using h

theorem put_of_not_isFile (h : t.isFile names = false) (content : ByteArray) :
    t.put names content = { t with files := t.files ++ [(names, content)] } := by
  simp [put, h]

theorem put_put (h : t.isFile names = false) (first second : ByteArray) :
    (t.put names first).put names second = t.put names second := by
  have hkept : (t.files.map fun f => if f.1 = names then (names, second) else f) = t.files := by
    conv_rhs => rw [← List.map_id t.files]
    exact List.map_congr_left fun f hf => if_neg (ne_of_not_isFile h f hf)
  rw [put, if_pos (isFile_put.mpr (.inl rfl)), put_of_not_isFile h, put_of_not_isFile h,
    List.map_append, hkept]
  simp

theorem remove_put (hfile : t.isFile names = false) (hdirectory : t.isDirectory names.dropLast = true)
    (content : ByteArray) : (t.put names content).remove names = t := by
  have hkept : t.files.filter (·.1 ≠ names) = t.files :=
    List.filter_eq_self.mpr fun f hf => decide_eq_true (ne_of_not_isFile hfile f hf)
  have hleft : { t.put names content with
      files := (t.put names content).files.filter (·.1 ≠ names) } = t := by
    rw [put_of_not_isFile hfile, List.filter_append, hkept]
    simp
  rw [remove, hleft, hdirectory]
  simp

theorem rename_put (hfile : t.isFile names = false) (hdirectory : t.isDirectory names.dropLast = true)
    (content : ByteArray) (target : Names) :
    (t.put names content).rename names target = t.put target content := by
  simp only [rename, content?_put, ↓reduceIte, remove_put hfile hdirectory]

theorem temporaryName_injective : Function.Injective temporaryName := by
  intro a b h
  rw [temporaryName, temporaryName, String.append_left_inj, String.append_right_inj] at h
  exact Nat.repr_inj.mp h

/-- What is asked of a temporary file: nothing stands at its names, and they are those of a neighbour. -/
structure IsTemporary (t : FileTree) (names temporary : Names) : Prop where
  isFile : t.isFile temporary = false
  isDirectory : t.isDirectory temporary = false
  ne : temporary ≠ names
  dropLast : temporary.dropLast = names.dropLast

theorem isTemporary (h : t.temporaryBeside? names = some temporary) :
    IsTemporary t names temporary := by
  obtain ⟨number, -, rfl⟩ := List.mem_map.mp (List.mem_of_find?_eq_some h)
  have hfree := List.find?_some h
  simp only [isFree, Bool.and_eq_true, Bool.not_eq_eq_eq_not, Bool.not_true, bne_iff_ne] at hfree
  exact ⟨hfree.1.1, hfree.1.2, hfree.2, List.dropLast_concat⟩

theorem exists_prefix_of_not_isFree (h : t.isFree names = false) :
    ∃ other ∈ t.home :: (t.files.map Prod.fst ++ t.directories), names <+: other := by
  have htaken : t.isFile names = true ∨ t.isDirectory names = true := by
    simpa [isFree, or_iff_not_imp_left] using h
  rcases htaken with hfile | hdirectory
  · exact ⟨names, by simp [isFile_iff.mp hfile], List.prefix_refl _⟩
  · rcases isDirectory_iff.mp hdirectory with hhome | ⟨other, hother, hbefore⟩ | ⟨other, hother, hbefore, -⟩
    · exact ⟨t.home, by simp, hhome⟩
    · exact ⟨other, by simp [hother], hbefore⟩
    · exact ⟨other, List.mem_cons_of_mem _ (List.mem_append_left _ hother), hbefore⟩

/-- Fewer names are taken than there are candidates. -/
theorem exists_temporaryBeside (t : FileTree) (names : Names) :
    ∃ temporary, t.temporaryBeside? names = some temporary := by
  rw [← Option.isSome_iff_exists, temporaryBeside?, List.find?_isSome]
  by_contra hnone
  -- a name of the directory that is taken goes on to one of these
  let paths := names :: t.home :: (t.files.map Prod.fst ++ t.directories)
  let candidates := (List.range (t.files.length + t.directories.length + 3)).map fun number =>
    names.dropLast ++ [temporaryName number]
  have hsubset : candidates ⊆ paths.map (List.take (names.dropLast.length + 1)) := by
    intro candidate hcandidate
    have hbegins : ∃ other ∈ paths, candidate <+: other := by
      by_cases hself : candidate = names
      · exact ⟨names, List.mem_cons_self, hself ▸ List.prefix_refl _⟩
      · have htaken : t.isFree candidate = false := by
          by_contra hfree
          exact hnone ⟨candidate, hcandidate, by simpa [hself] using hfree⟩
        obtain ⟨other, hother, hbefore⟩ := exists_prefix_of_not_isFree htaken
        exact ⟨other, List.mem_cons_of_mem _ hother, hbefore⟩
    obtain ⟨other, hother, hbefore⟩ := hbegins
    refine List.mem_map.mpr ⟨other, hother, ?_⟩
    obtain ⟨number, -, rfl⟩ := List.mem_map.mp hcandidate
    simpa using (List.prefix_iff_eq_take.mp hbefore).symm
  have hnodup : candidates.Nodup :=
    List.nodup_range.map fun a b h => temporaryName_injective (by simpa using h)
  have hlength := (List.Nodup.subperm hnodup hsubset).length_le
  simp only [candidates, paths, List.length_map, List.length_range, List.length_cons,
    List.length_append] at hlength
  omega

-- ---------------------------------------------------------------------------
-- Files with their directories
-- ---------------------------------------------------------------------------

theorem foldlM_step_congr (hsame : t'.isDirectory = t.isDirectory) (steps : List String)
    (here : Names) (h : steps.foldlM (t.step path) here = .ok names) :
    steps.foldlM (t'.step path) here = .ok names := by
  induction steps generalizing here with
  | nil => exact h
  | cons name steps ih =>
    rw [List.foldlM_cons, bind_eq_ok] at h ⊢
    obtain ⟨next, hnext, hrest⟩ := h
    refine ⟨next, ?_, ih next hrest⟩
    -- what the names stand for else makes a difference to faults only
    unfold step at hnext ⊢
    rw [hsame]
    split at hnext
    · rename_i hhere
      rw [if_pos hhere, hnext]
    · split at hnext <;> cases hnext

theorem resolve_put (h : t.resolve path = .ok names) (content : ByteArray) :
    (t.put names content).resolve path = .ok names := by
  have hsame : (t.put names content).isDirectory = t.isDirectory :=
    funext (isDirectory_put (isDirectory_dropLast h) content)
  unfold resolve at h ⊢
  split_ifs at h ⊢
  exact foldlM_step_congr hsame _ _ h

theorem files_makeDirectories (h : t.makeDirectories path = .ok t') : t'.files = t.files := by
  simp only [makeDirectories] at h
  split_ifs at h
  · cases h
  · cases h
  · cases h
  · rw [bind_eq_ok] at h
    obtain ⟨⟨left, here⟩, hfold, h⟩ := h
    have hfiles : left.files = t.files := by
      refine foldlM_keeps (P := fun s => s.1.files = t.files) (fun s name next hs hnext => ?_) rfl hfold
      rw [bind_eq_ok] at hnext
      obtain ⟨names, -, hnext⟩ := hnext
      cases hnext
      split <;> exact hs
    dsimp only at h
    split_ifs at h
    · cases h
    · cases h
      exact hfiles

theorem content?_write (h : t.write path content = .ok t') :
    ∃ names, t'.resolve path = .ok names ∧
      ∀ other, other ≠ names → t'.content? other = t.content? other := by
  simp only [write, bind_eq_ok] at h
  obtain ⟨names, hnames, h⟩ := h
  split at h
  · cases h
  · cases h
    refine ⟨names, resolve_put hnames content, fun other hother => ?_⟩
    rw [content?_put, if_neg hother]

theorem content?_writeDeep (h : t.writeDeep path content = .ok t') :
    ∃ names, t'.resolve path = .ok names ∧
      ∀ other, other ≠ names → t'.content? other = t.content? other := by
  simp only [writeDeep] at h
  split_ifs at h
  · exact content?_write h
  · rw [bind_eq_ok] at h
    obtain ⟨left, hleft, h⟩ := h
    obtain ⟨names, hnames, hkept⟩ := content?_write h
    refine ⟨names, hnames, fun other hother => (hkept other hother).trans ?_⟩
    rw [content?, content?, files_makeDirectories hleft]

theorem read_of_write (h : t.write path content = .ok t') : t'.read path = .ok content := by
  simp only [write, bind_eq_ok] at h
  obtain ⟨names, hnames, h⟩ := h
  split at h
  · cases h
  · next hdirectory =>
    cases h
    refine read_eq_ok_iff.mpr ⟨names, resolve_put hnames content, ?_, ?_⟩
    · rw [isDirectory_put (isDirectory_dropLast hnames)]
      simpa using hdirectory
    · rw [content?_put, if_pos rfl]

theorem read_of_writeDeep (h : t.writeDeep path content = .ok t') :
    t'.read path = .ok content := by
  simp only [writeDeep] at h
  split_ifs at h
  · exact read_of_write h
  · rw [bind_eq_ok] at h
    obtain ⟨left, -, h⟩ := h
    exact read_of_write h

/-- The file at a path holds these bytes; all other files are those of `t`. -/
structure Written (t after : FileTree) (path : String) (content : ByteArray) : Prop where
  read : after.read path = .ok content
  others : ∃ names, after.resolve path = .ok names ∧
    ∀ other, other ≠ names → after.content? other = t.content? other

theorem written_of_writeDeep (h : t.writeDeep path content = .ok t') : Written t t' path content :=
  ⟨read_of_writeDeep h, content?_writeDeep h⟩

theorem Written.write {opened : FileTree} (h : Written t opened path content) (next : ByteArray) :
    ∃ after, opened.write path next = .ok after ∧ Written t after path next := by
  obtain ⟨names, hnames, hdirectory, -⟩ := read_eq_ok_iff.mp h.read
  have hwrite : opened.write path next = .ok (opened.put names next) := by
    simp only [FileTree.write, hnames, ok_bind, hdirectory, Bool.false_eq_true, ↓reduceIte]
    rfl
  refine ⟨_, hwrite, read_of_write hwrite, names, resolve_put hnames next, fun other hother => ?_⟩
  obtain ⟨found, hfound, hkept⟩ := h.others
  cases hnames.symm.trans hfound
  rw [content?_put, if_neg hother, hkept other hother]

end CallerFirst.FileTree
