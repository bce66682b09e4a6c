import CallerFirst.WorkingCopy
import CallerFirst.Proofs.FileTree

/-!
# All or nothing

A working copy goes back into its file as a whole, or the files stay as they were (`commit_cases`),
whichever step is refused. Of the temporary file on the way nothing is left. `all_or_nothing` says when
which of the two happens, for all work on a copy.
-/

namespace CallerFirst.WorkingCopy

variable {t : FileTree} {c : WorkingCopy} {refused : Refusals} {names temporary : Names}
  {content : ByteArray} {path text : String}

-- ---------------------------------------------------------------------------
-- Bytes and texts
-- ---------------------------------------------------------------------------

theorem fromUTF8?_toUTF8 (text : String) : String.fromUTF8? text.toUTF8 = some text := by
  rw [String.fromUTF8?, String.toUTF8_eq_toByteArray, dif_pos text.isValidUTF8]
  rfl

theorem toUTF8_of_fromUTF8? (h : String.fromUTF8? content = some text) : text.toUTF8 = content := by
  unfold String.fromUTF8? at h
  split at h
  · cases h
    rfl
  · cases h

theorem checkOut_ok {dryRun : Bool} (h : checkOut t path dryRun = .ok c) :
    ∃ text, c = { path, dryRun, stored := text, buffer := text } := by
  unfold checkOut at h
  split at h
  · cases h
  · split at h
    · cases h
      exact ⟨_, rfl⟩
    · cases h

-- ---------------------------------------------------------------------------
-- Steps of a commit
-- ---------------------------------------------------------------------------

def CanReplace (c : WorkingCopy) (t : FileTree) (refused : Refusals) : Prop :=
  (∀ step, refused step = none) ∧ ∃ content, t.read c.path = .ok content

theorem canReplace_iff (h : t.resolve c.path = .ok names) :
    c.CanReplace t refused ↔
      (∀ step, refused step = none) ∧ t.isDirectory names = false ∧ t.isFile names = true :=
  and_congr_right fun _ => FileTree.exists_read_iff h

/-- Once there is a temporary file, it replaces the file, or it can be removed without a trace. -/
theorem replaceFile_cases (hnames : t.resolve c.path = .ok names)
    (htemporary : t.IsTemporary names temporary) (hcreate : refused .create = none) :
    (c.CanReplace t refused ∧
      c.replaceFile names temporary refused (t.put temporary .empty) =
        (.ok (), t.put names c.buffer.toUTF8)) ∨
    ¬c.CanReplace t refused ∧ ∃ fault left,
      c.replaceFile names temporary refused (t.put temporary .empty) = (.error fault, left) ∧
        left.remove temporary = t := by
  have hbeside : t.isDirectory temporary.dropLast = true :=
    htemporary.dropLast ▸ FileTree.isDirectory_dropLast hnames
  have hremoved (content : ByteArray) : (t.put temporary content).remove temporary = t :=
    FileTree.remove_put htemporary.isFile hbeside content
  rw [canReplace_iff hnames]
  unfold replaceFile
  cases hwrite : refused .write with
  | some fault =>
    exact .inr ⟨fun hcan => by simp [hcan.1] at hwrite, fault, _, rfl, hremoved _⟩
  | none =>
    simp only [FileTree.put_put htemporary.isFile, FileTree.isDirectory_put hbeside,
      FileTree.isFree_put hbeside _ htemporary.ne.symm, FileTree.rename_put htemporary.isFile hbeside]
    cases hmissing : (refused .copyMode).or (if t.isFree names then some (.missing c.path) else none) with
    | some fault =>
      refine .inr ⟨fun hcan => ?_, fault, _, rfl, hremoved _⟩
      simp [hcan.1, hcan.2, FileTree.isFree] at hmissing
    | none =>
      cases hreplace : (refused .replace).or
          (if t.isDirectory names then some (.isDirectory c.path) else none) with
      | some fault =>
        refine .inr ⟨fun hcan => ?_, fault, _, rfl, hremoved _⟩
        simp [hcan.1, hcan.2] at hreplace
      | none =>
        rw [Option.or_eq_none_iff] at hmissing hreplace
        have hdirectory : t.isDirectory names = false := by simpa using hreplace.2
        have hfile : t.isFile names = true := by simpa [FileTree.isFree, hdirectory] using hmissing.2
        refine .inl ⟨⟨fun step => ?_, hdirectory, hfile⟩, rfl⟩
        cases step with
        | create => exact hcreate
        | write => exact hwrite
        | copyMode => exact hmissing.1
        | replace => exact hreplace.1

/-- What a commit of a buffer that is to be written does: it takes the place of the file, or the files
stay as they are. -/
inductive Commits (c : WorkingCopy) (t : FileTree) (refused : Refusals) : Prop
  | replaced (names : Names) (hcan : c.CanReplace t refused) (hnames : t.resolve c.path = .ok names)
      (h : c.commit t refused = (.ok { c with committed := true }, t.put names c.buffer.toUTF8))
  | kept (fault : FileFault) (hcan : ¬c.CanReplace t refused) (h : c.commit t refused = (.error fault, t))

theorem commits (hchanged : c.changed = true) (hreal : c.dryRun = false) (t : FileTree)
    (refused : Refusals) : c.Commits t refused := by
  have hdue : (!c.changed || c.dryRun) = false := by simp [hchanged, hreal]
  cases hnames : t.resolve c.path with
  | error fault =>
    refine .kept fault ?_ (by simp [commit, hdue, hnames])
    rintro ⟨-, content, hread⟩
    obtain ⟨names, hresolved, -⟩ := FileTree.read_eq_ok_iff.mp hread
    cases hnames.symm.trans hresolved
  | ok names =>
    obtain ⟨temporary, hbeside⟩ := FileTree.exists_temporaryBeside t names
    cases hcreate : refused .create with
    | some fault =>
      refine .kept fault (fun hcan => by simp [hcan.1] at hcreate) ?_
      simp [commit, hdue, hnames, createTemporary, hcreate]
    | none =>
      have hstart : c.createTemporary names refused t = .ok (temporary, t.put temporary .empty) := by
        simp [createTemporary, hcreate, hbeside]
      rcases replaceFile_cases hnames (FileTree.isTemporary hbeside) hcreate with
        ⟨hcan, hend⟩ | ⟨hcan, fault, left, hend, hremoved⟩
      · exact .replaced names hcan hnames (by simp [commit, hdue, hnames, hstart, hend])
      · exact .kept fault hcan (by simp [commit, hdue, hnames, hstart, hend, hremoved])

-- ---------------------------------------------------------------------------
-- Work on a copy
-- ---------------------------------------------------------------------------

/-- A file has other bytes, and that is all that changed: the same files and directories are there, and
the other files have the bytes they had. -/
structure Replaced (t after : FileTree) (path text : String) : Prop where
  read : after.read path = .ok text.toUTF8
  names : t.SameNames after
  others : ∀ other, t.resolve path ≠ .ok other → after.content? other = t.content? other

theorem replaced_put (hnames : t.resolve path = .ok names) (hcan : ∃ content, t.read path = .ok content)
    (text : String) : Replaced t (t.put names text.toUTF8) path text := by
  obtain ⟨hdirectory, hfile⟩ := (FileTree.exists_read_iff hnames).mp hcan
  have hsame := FileTree.sameNames_put hfile text.toUTF8
  refine ⟨FileTree.read_eq_ok_iff.mpr ⟨names, ?_, ?_, ?_⟩, hsame, fun other hother => ?_⟩
  · rw [hsame.resolve, hnames]
  · rw [hsame.isDirectory, hdirectory]
  · rw [FileTree.content?_put, if_pos rfl]
  · rw [FileTree.content?_put, if_neg]
    rintro rfl
    exact hother hnames

theorem commit_of_not_due (h : c.changed = false ∨ c.dryRun = true) (t : FileTree)
    (refused : Refusals) : c.commit t refused = (.ok c, t) := by
  rcases h with h | h <;> simp [commit, h]

theorem commit_ok (hfresh : c.committed = false) (h : c.commit t refused = (.ok copy, after)) :
    (copy.committed = false ∧ after = t) ∨
      copy.committed = true ∧ c.dryRun = false ∧ Replaced t after c.path c.buffer := by
  by_cases hdue : c.changed = true ∧ c.dryRun = false
  · rcases commits hdue.1 hdue.2 t refused with ⟨names, hcan, hnames, hcommit⟩ | ⟨fault, -, hcommit⟩
    · cases h.symm.trans hcommit
      exact .inr ⟨rfl, hdue.2, replaced_put hnames hcan.2 _⟩
    · cases h.symm.trans hcommit
  · have hnot : c.changed = false ∨ c.dryRun = true := by simpa [or_iff_not_imp_left] using hdue
    cases h.symm.trans (commit_of_not_due hnot t refused)
    exact .inl ⟨hfresh, rfl⟩

theorem commit_error (h : c.commit t refused = (.error fault, after)) : after = t := by
  by_cases hdue : c.changed = true ∧ c.dryRun = false
  · rcases commits hdue.1 hdue.2 t refused with ⟨names, -, -, hcommit⟩ | ⟨fault, -, hcommit⟩
    · cases h.symm.trans hcommit
    · cases h.symm.trans hcommit
      rfl
  · have hnot : c.changed = false ∨ c.dryRun = true := by simpa [or_iff_not_imp_left] using hdue
    cases h.symm.trans (commit_of_not_due hnot t refused)

/-- How work on a copy ends: with a buffer that is put back as a whole, or with the files as the work
left them. -/
structure Ends (c : WorkingCopy) (w : Work ε) (refused : Refusals) (copy : WorkingCopy)
    (after : FileTree) (fault : Option (CloseFault ε)) : Prop where
  committed_iff : copy.committed = true ↔
    w.fault = none ∧ w.buffer ≠ c.stored ∧ c.dryRun = false ∧
      (∃ content, w.tree.read c.path = .ok content) ∧ ∀ step, refused step = none
  replaced : copy.committed = true → Replaced w.tree after c.path w.buffer
  untouched : copy.committed = false → after = w.tree
  /-- A fault discards the buffer. -/
  buffer : copy.buffer = if w.fault.isSome then c.stored else w.buffer
  /-- Without a fault, a changed buffer is in the file, or this is a dry run. -/
  fault_iff : fault = none ↔
    w.fault = none ∧ (copy.committed = true ∨ w.buffer = c.stored ∨ c.dryRun = true)

theorem close_ends (hfresh : c.committed = false) (w : Work ε) (refused : Refusals) :
    Ends c w refused (c.close w refused).1 (c.close w refused).2.1 (c.close w refused).2.2 := by
  cases hwork : w.fault with
  | some fault =>
    have hend : c.close w refused =
        ({ c with buffer := c.stored }, w.tree, some (.work fault)) := by
      simp [close, hwork, discard]
    rw [hend]
    constructor <;> simp [hwork, hfresh]
  | none =>
    by_cases hdue : w.buffer ≠ c.stored ∧ c.dryRun = false
    · rcases commits (c := { c with buffer := w.buffer }) (by simpa [changed] using hdue.1) hdue.2
        w.tree refused with ⟨names, ⟨hrefused, hread⟩, hnames, hcommit⟩ | ⟨fault, hcan, hcommit⟩
      · have hend : c.close w refused = ({ c with buffer := w.buffer, committed := true },
            w.tree.put names w.buffer.toUTF8, none) := by
          simp [close, hwork, hcommit]
        rw [hend]
        constructor
        case committed_iff => exact iff_of_true rfl ⟨hwork, hdue.1, hdue.2, hread, hrefused⟩
        case replaced => exact fun _ => replaced_put hnames hread _
        all_goals simp [hwork]
      · have hend : c.close w refused = ({ c with buffer := w.buffer }, w.tree, some (.file fault)) := by
          simp [close, hwork, hcommit]
        rw [hend]
        constructor
        case committed_iff =>
          exact iff_of_false (by simp [hfresh]) fun h => hcan ⟨h.2.2.2.2, h.2.2.2.1⟩
        all_goals simp_all
    · have hcommit := commit_of_not_due (c := { c with buffer := w.buffer })
        (by simpa [changed, or_iff_not_imp_left] using hdue) w.tree refused
      have hend : c.close w refused = ({ c with buffer := w.buffer }, w.tree, none) := by
        simp [close, hwork, hcommit]
      rw [hend]
      constructor
      case committed_iff => exact iff_of_false (by simp [hfresh]) fun h => hdue ⟨h.2.1, h.2.2.1⟩
      case fault_iff => simpa [hwork, hfresh, or_iff_not_imp_left] using hdue
      all_goals simp [hwork, hfresh]

/-- A file with bytes that are no text cannot be worked on. Otherwise all work on its text, wherever it
leaves the files and whatever step of a commit is refused, ends in one of two ways. -/
theorem all_or_nothing (hfile : t.read path = .ok content) (dryRun : Bool) :
    (String.fromUTF8? content = none → checkOut t path dryRun = .error .notText) ∧
    ∀ text, String.fromUTF8? content = some text →
      text.toUTF8 = content ∧
      ∃ c, checkOut t path dryRun = .ok c ∧ c.path = path ∧ c.dryRun = dryRun ∧ c.stored = text ∧
        c.buffer = text ∧
        ∀ (ε : Type) (w : Work ε) (refused : Refusals) (copy : WorkingCopy) (after : FileTree) fault,
          c.close w refused = (copy, after, fault) → Ends c w refused copy after fault := by
  refine ⟨fun htext => by simp [checkOut, hfile, htext], fun text htext => ?_⟩
  refine ⟨toUTF8_of_fromUTF8? htext, { path, dryRun, stored := text, buffer := text }, ?_, rfl, rfl,
    rfl, rfl, fun ε w refused copy after fault hclose => ?_⟩
  · simp [checkOut, hfile, htext]
  · have hends := close_ends (c := { path, dryRun, stored := text, buffer := text }) rfl w refused
    rwa [hclose] at hends

/-- A directory in which the first name of temporary files is taken. -/
def crowded : FileTree :=
  { files := [
      (["A.java"], "class A \x7b\x7d\n".toUTF8),
      (["B.java"], "class B \x7b\x7d\n".toUTF8),
      ([".stepdown-0.tmp"], .empty)] }

theorem all_or_nothing_crowded :
    crowded.read "A.java" = .ok "class A \x7b\x7d\n".toUTF8 ∧
    ∃ c, checkOut crowded "A.java" false = .ok c ∧
      (∀ copy after fault,
        c.close ({ buffer := "class A \x7b \x7d\n", tree := crowded } : Work Unit) =
          (copy, after, fault) →
        copy.committed = true ∧ Replaced crowded after "A.java" "class A \x7b \x7d\n") ∧
      ∀ copy after fault,
        c.close { buffer := "class A \x7b \x7d\n", tree := crowded, fault := some () } =
          (copy, after, fault) →
        copy.buffer = "class A \x7b\x7d\n" ∧ after = crowded := by
  have hnames : crowded.resolve "A.java" = .ok ["A.java"] := by decide +kernel
  have hfile : crowded.read "A.java" = .ok "class A \x7b\x7d\n".toUTF8 := by
    simp only [FileTree.read, hnames]
    rfl
  obtain ⟨-, c, hcheckOut, hpath, hreal, hstored, -, hends⟩ :=
    (all_or_nothing hfile false).2 _ (fromUTF8?_toUTF8 _)
  refine ⟨hfile, c, hcheckOut, fun copy after fault hclose => ?_, fun copy after fault hclose => ?_⟩
  · have hend := hends _ _ _ _ _ _ hclose
    have hcommitted := hend.committed_iff.mpr
      ⟨rfl, by simp [hstored], hreal, ⟨_, hpath ▸ hfile⟩, fun _ => rfl⟩
    exact ⟨hcommitted, hpath ▸ hend.replaced hcommitted⟩
  · have hend := hends _ _ _ _ _ _ hclose
    exact ⟨by simp [hend.buffer, hstored],
      hend.untouched (Bool.eq_false_iff.mpr fun h => by cases (hend.committed_iff.mp h).1)⟩

end CallerFirst.WorkingCopy
