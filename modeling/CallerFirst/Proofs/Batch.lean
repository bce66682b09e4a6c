import CallerFirst.Batch
import CallerFirst.Proofs.Java.CutOff
import CallerFirst.Proofs.Java.Unit
import CallerFirst.Proofs.WorkingCopy

/-!
# How the work on a file ends

A file that is there is ordered, or left as it is with a failure noted under its path, unless its
text cannot be read for a reason without a message (`returns_iff`). Nothing behind the reading
fails: a unit that was read can be ordered, and its text goes back into the file.
-/

namespace CallerFirst

open Java
open WorkingCopy (fromUTF8?_toUTF8)

-- ---------------------------------------------------------------------------
-- Units
-- ---------------------------------------------------------------------------

namespace MemberOrder

theorem exists_reorderUnit (o : MemberOrder) (hread : readUnit text = .ok unit) :
    ∃ chars, o.reorderUnit unit = .ok chars := by
  rcases readUnit_ok hread with ⟨package, rfl⟩ | ⟨r, others, rfl⟩
  · exact ⟨_, rfl⟩
  · have hall : (r.members.filter (·.mayMove)).all (·.isMember) = true :=
      List.all_eq_true.mpr fun m hm => r.isMember (List.mem_of_mem_filter hm)
    simp only [reorderUnit, ReadType.unit, Node.source, bind_eq_ok, Except.ok.injEq,
      exists_eq_left']
    refine Exists.imp (fun chars h => ⟨_, r.topLevelType_unit others, h⟩) ?_
    simp only [Node.members, Node.membersStart, bind_eq_ok, Except.ok.injEq, exists_eq_left', hall]
    split
    · exact ⟨_, rfl⟩
    · rw [if_neg (by simp)]
      split
      · exact ⟨_, rfl⟩
      · exact ⟨_, rfl⟩

end MemberOrder

namespace Sorter

variable {s : Sorter} {p : Preferences}

theorem exists_sortUnit (s : Sorter) (p : Preferences) (path : Option String)
    (hread : readUnit text = .ok unit) : ∃ outcome, s.sortUnit p path unit = .ok outcome := by
  obtain ⟨source, package, types, rfl⟩ : ∃ source package types, unit = .unit source package types := by
    rcases readUnit_ok hread with ⟨package, rfl⟩ | ⟨r, others, rfl⟩
    · exact ⟨_, _, _, rfl⟩
    · exact ⟨_, _, _, rfl⟩
  simp only [sortUnit, Node.source, bind_eq_ok, Except.ok.injEq, exists_eq_left']
  obtain ⟨chars, hchars⟩ := MemberOrder.exists_reorderUnit (s.memberOrder p _ _) hread
  cases chars with
  | ok chars => exact ⟨_, _, hchars, rfl⟩
  | error reason => exact ⟨_, _, hchars, rfl⟩

theorem sortSource_error_iff (hs : s.canSort = true) :
    s.sortSource p path text = .error fault ↔
      ∃ cause, fault = .source cause ∧ readUnit text = .error cause ∧ cause.isMalformed = false := by
  unfold sortSource
  split
  · rename_i unit hread
    obtain ⟨outcome, houtcome⟩ := exists_sortUnit s p path hread
    rw [if_pos hs, houtcome]
    simp [Except.mapError, hread]
  · rename_i reason hread
    simp [hread, Fault.isMalformed]
  · rename_i cause hmalformed hread
    have hother : cause.isMalformed = false := by
      cases cause with
      | malformed reason => exact absurd rfl (hmalformed reason)
      | _ => rfl
    constructor
    · rintro ⟨⟩
      exact ⟨cause, rfl, hread, hother⟩
    · rintro ⟨_, rfl, hsame, -⟩
      cases hread.symm.trans hsame
      rfl

end Sorter

-- ---------------------------------------------------------------------------
-- Files
-- ---------------------------------------------------------------------------

theorem WorkingCopy.exists_commit {t : FileTree} {c : WorkingCopy} (h : t.read c.path = .ok content) :
    ∃ copy tree, c.commit t = (.ok copy, tree) := by
  by_cases hdue : c.changed = true ∧ c.dryRun = false
  · rcases commits hdue.1 hdue.2 t .none with ⟨names, -, -, hcommit⟩ | ⟨fault, hcan, -⟩
    · exact ⟨_, _, hcommit⟩
    · exact absurd ⟨fun _ => rfl, content, h⟩ hcan
  · exact ⟨c, t, commit_of_not_due (by simpa [or_iff_not_imp_left] using hdue) t .none⟩

namespace Batch

variable {b : Batch} {t : FileTree} {path message : String} {content : ByteArray}

theorem lookup_addFailure (b : Batch) (path message : String) :
    (b.addFailure path message).failures.lookup path = some message := by
  rw [addFailure, Entries.lookup_put, if_pos rfl]

/-- The bytes are those of a text that cannot be read, for a reason without a message. -/
def breaksOff (content : ByteArray) : Bool :=
  (String.fromUTF8? content).any fun text =>
    match readUnit text with
    | .ok _ => false
    | .error fault => fault.isUnnamed

/-- The file is ordered, or no file is changed and a failure is noted under its path. -/
inductive Returns (b : Batch) (t : FileTree) (path : String) : Prop
  | ordered {after tree} (h : b.sortOne t path = (.ordered, after, tree))
  | failed {after message} (h : b.sortOne t path = (.failed, after, t))
      (hafter : after = { b with begun := b.begun + 1 }.addFailure path message)
      (hnoted : after.failures.lookup path = some message)

theorem not_returns (h : b.sortOne t path = (.broken fault, after, tree)) : ¬b.Returns t path := by
  rintro (hend | ⟨hend, -, -⟩) <;> cases h.symm.trans hend

theorem breaksOff_of_sortSource {s : Sorter} (hs : s.canSort = true)
    (htext : String.fromUTF8? content = some text) (p : Preferences) (path : String) :
    breaksOff content = true ↔
      ∃ fault, s.sortSource p (some path) text = .error (.source fault) ∧ fault.message? = none := by
  simp only [breaksOff, htext, Option.any_some]
  cases hread : readUnit text with
  | ok unit => simp [Sorter.sortSource_error_iff hs, hread]
  | error cause =>
    cases hmalformed : cause.isMalformed with
    | true =>
      cases cause with
      | malformed => simp [Sorter.sortSource_error_iff hs, hread, Fault.isUnnamed, Fault.isMalformed]
      | _ => cases hmalformed
    | false =>
      simp [Sorter.sortSource_error_iff hs, hread, hmalformed, Fault.isUnnamed_iff hmalformed]

theorem sortFile_cases {s : Sorter} (hs : s.canSort = true) (hfile : t.read path = .ok content)
    (p : Preferences) (dryRun : Bool) :
    (breaksOff content = false ∧ ∃ outcome tree, s.sortFile p dryRun t path = (.ok outcome, tree)) ∨
      ∃ fault, s.sortFile p dryRun t path = (.error fault, t) ∧
        (breaksOff content = true ↔ fault.message? = none) := by
  cases htext : String.fromUTF8? content with
  | none =>
    refine .inr ⟨.unread .notText, ?_, by simp [breaksOff, htext, UnitFault.message?]⟩
    simp only [Sorter.sortFile, WorkingCopy.checkOut, hfile, htext]
  | some text =>
    have hbreaks := breaksOff_of_sortSource hs htext p path
    cases hsort : s.sortSource p (some path) text with
    | ok outcome =>
      obtain ⟨copy, tree, hcommit⟩ := WorkingCopy.exists_commit
        (c := ⟨path, dryRun, text, outcome.sortedSource, false⟩) hfile
      refine .inl ⟨by simpa [hsort] using hbreaks, { outcome with written := copy.committed }, tree, ?_⟩
      simp only [Sorter.sortFile, WorkingCopy.checkOut, hfile, htext, hsort, hcommit]
    | error fault =>
      obtain ⟨cause, rfl, -⟩ := (Sorter.sortSource_error_iff hs).mp hsort
      refine .inr ⟨.unsorted path (.source cause), ?_, ?_⟩
      · simp only [Sorter.sortFile, WorkingCopy.checkOut, hfile, htext, hsort]
      · simpa [hsort, UnitFault.message?] using hbreaks

theorem sortOne_cases (hfile : t.read path = .ok content) (hsorter : b.sorter.canSort = true)
    (hgoes : b.interruptAt ≠ some (b.begun + 1)) :
    (breaksOff content = true ∧
      ∃ fault, b.sortOne t path = (.broken fault, { b with begun := b.begun + 1 }, t)) ∨
    (breaksOff content = false ∧
      ((∃ outcome tree, b.sortOne t path =
        (.ordered, { b with begun := b.begun + 1 }.addOutcome outcome, tree)) ∨
      ∃ message, b.sortOne t path =
        (.failed, { b with begun := b.begun + 1 }.addFailure path message, t))) := by
  rcases sortFile_cases hsorter hfile b.preferences b.dryRun with
    ⟨hreturns, outcome, tree, hend⟩ | ⟨fault, hend, hbreaks⟩
  · refine .inr ⟨hreturns, .inl ⟨outcome, tree, ?_⟩⟩
    simp only [sortOne, if_neg hgoes, hend]
  · cases hmessage : fault.message? with
    | none =>
      refine .inl ⟨hbreaks.mpr hmessage, fault, ?_⟩
      simp only [sortOne, if_neg hgoes, hend, hmessage]
    | some message =>
      refine .inr ⟨by simpa [hmessage] using hbreaks, .inr ⟨message, ?_⟩⟩
      simp only [sortOne, if_neg hgoes, hend, hmessage]

/-- Whether the work on a file ends as it should is decided by its bytes alone. In a text with escapes
that keep its lines, only its end can cut something off. -/
theorem returns_iff (hfile : t.read path = .ok content) (hsorter : b.sorter.canSort = true)
    (hgoes : b.interruptAt ≠ some (b.begun + 1)) :
    (b.Returns t path ↔ breaksOff content = false) ∧
    (breaksOff content = true →
      ∃ fault, b.sortOne t path = (.broken fault, { b with begun := b.begun + 1 }, t)) ∧
    (∀ text, String.fromUTF8? content = some text → Escape.KeepsLines text.toList →
      (breaksOff content = true ↔ ∃ fault, readUnit text = .error fault ∧ fault.isCutOff = true)) := by
  refine ⟨?_, ?_, fun text htext hlines => ?_⟩
  · rcases sortOne_cases hfile hsorter hgoes with ⟨hbreaks, fault, hend⟩ | ⟨hbreaks, hend⟩
    · simp [hbreaks, not_returns hend]
    · rcases hend with ⟨outcome, tree, hend⟩ | ⟨message, hend⟩
      · exact iff_of_true (.ordered hend) hbreaks
      · exact iff_of_true (.failed hend rfl (lookup_addFailure _ path message)) hbreaks
  · intro hbreaks
    rcases sortOne_cases hfile hsorter hgoes with ⟨-, hend⟩ | ⟨hreturns, -⟩
    · exact hend
    · simp [hbreaks] at hreturns
  · simp only [breaksOff, htext, Option.any_some]
    cases hread : readUnit text with
    | ok => simp
    | error fault =>
      have hcutOff := readUnit_failsBy hlines fault hread
      refine ⟨fun hunnamed => ⟨fault, rfl, hcutOff hunnamed⟩, ?_⟩
      rintro ⟨_, ⟨⟩, hcut⟩
      exact Fault.isUnnamed_of_isCutOff hcut

def oneFile (text : String) : FileTree :=
  { files := [(["A.java"], text.toUTF8)] }

theorem read_oneFile (text : String) (h : (oneFile text).resolve "A.java" = .ok ["A.java"]) :
    (oneFile text).read "A.java" = .ok text.toUTF8 := by
  simp only [FileTree.read, h]
  rfl

theorem returns_iff_openBody :
    (oneFile "class A \x7b void f").read "A.java" = .ok "class A \x7b void f".toUTF8 ∧
      Returns {} (oneFile "class A \x7b void f") "A.java" := by
  have hfile := read_oneFile "class A \x7b void f" (by decide +kernel)
  have hreturns : breaksOff "class A \x7b void f".toUTF8 = false := by
    simp only [breaksOff, fromUTF8?_toUTF8, Option.any_some]
    decide +kernel
  exact ⟨hfile, (returns_iff (b := {}) hfile rfl (by decide)).1.mpr hreturns⟩

/-- An expression that ends with the file ends the work on all files. -/
theorem open_expression_breaks_off :
    ¬Returns {} (oneFile "class A \x7b int x = y") "A.java" := by
  have hfile := read_oneFile "class A \x7b int x = y" (by decide +kernel)
  have hbreaks : breaksOff "class A \x7b int x = y".toUTF8 = true := by
    simp only [breaksOff, fromUTF8?_toUTF8, Option.any_some]
    decide +kernel
  rcases sortOne_cases (b := {}) hfile rfl (by decide) with ⟨-, fault, hend⟩ | ⟨hreturns, -⟩
  · exact not_returns hend
  · cases hbreaks.symm.trans hreturns

end Batch

end CallerFirst
