import CallerFirst.Batch
import CallerFirst.Proofs.Except
import CallerFirst.Proofs.WorkingCopy
import Mathlib.Algebra.GroupWithZero.Nat

/-!
# What a batch keeps account of

The counts, outcomes and failures of a batch are those of the files it worked on, whatever calls were
made on it, in whatever trees, and whenever the user interrupted (`Accounts`, kept by every call). Files
change only through outcomes that were written (`WrittenBy`), and a report changes its own file only.
-/

namespace CallerFirst

-- ---------------------------------------------------------------------------
-- One file
-- ---------------------------------------------------------------------------

namespace UnitEnd

def isOrdered : UnitEnd → Bool
  | ordered => true
  | _ => false

def isFailed : UnitEnd → Bool
  | failed => true
  | _ => false

def isDone (e : UnitEnd) : Bool :=
  e.isOrdered || e.isFailed

end UnitEnd

namespace Sorter

variable {s : Sorter} {p : Preferences} {t after : FileTree} {path : String} {o : Outcome}

theorem path_of_sortUnit {path : Option String} (h : s.sortUnit p path unit = .ok o) :
    o.path = path := by
  simp only [sortUnit, bind_eq_ok] at h
  obtain ⟨source, -, chars, -, h⟩ := h
  split at h <;> cases h <;> rfl

theorem path_of_sortSource {path : Option String} (h : s.sortSource p path text = .ok o) :
    o.path = path := by
  unfold sortSource at h
  split at h
  · split_ifs at h
    exact path_of_sortUnit (ok_of_mapError h)
  · cases h
    rfl
  · cases h

theorem sortFile_ok (h : s.sortFile p dryRun t path = (.ok o, after)) :
    o.path = some path ∧
      (after = t ∨ o.written = true ∧ dryRun = false ∧
        WorkingCopy.Replaced t after path o.sortedSource) := by
  unfold sortFile at h
  split at h
  · cases h
  · rename_i copy hcopy
    split at h
    · cases h
    · rename_i outcome hsort
      split at h
      · cases h
      · rename_i committed left hcommit
        cases h
        refine ⟨(path_of_sortSource hsort :), ?_⟩
        obtain ⟨text, rfl⟩ := WorkingCopy.checkOut_ok hcopy
        rcases WorkingCopy.commit_ok rfl hcommit with ⟨-, rfl⟩ | hwritten
        · exact .inl rfl
        · exact .inr hwritten

theorem sortFile_error (h : s.sortFile p dryRun t path = (.error fault, after)) : after = t := by
  unfold sortFile at h
  split at h
  · cases h
    rfl
  · split at h
    · cases h
      rfl
    · split at h
      · rename_i hcommit
        cases h
        exact WorkingCopy.commit_error hcommit
      · cases h

end Sorter

namespace Batch

variable {b after : Batch} {t tree : FileTree} {path : String} {ending : UnitEnd}

inductive Sorts (b : Batch) (t : FileTree) (path : String) : UnitEnd → Batch → FileTree → Prop
  | ordered (o : Outcome) (tree : FileTree) (hpath : o.path = some path)
      (hfiles : tree = t ∨ o.written = true ∧ b.dryRun = false ∧
        WorkingCopy.Replaced t tree path o.sortedSource) :
      Sorts b t path .ordered ({ b with begun := b.begun + 1 }.addOutcome o) tree
  | failed (message : String) :
      Sorts b t path .failed ({ b with begun := b.begun + 1 }.addFailure path message) t
  | interrupted (h : b.interruptAt = some (b.begun + 1)) :
      Sorts b t path .interrupted { b with begun := b.begun + 1 } t
  | broken (fault : UnitFault) : Sorts b t path (.broken fault) { b with begun := b.begun + 1 } t

theorem sorts (h : b.sortOne t path = (ending, after, tree)) : Sorts b t path ending after tree := by
  simp only [sortOne] at h
  split at h
  · rename_i hinterrupt
    cases h
    exact .interrupted hinterrupt
  · split at h
    · rename_i o left hsort
      cases h
      obtain ⟨hpath, hfiles⟩ := Sorter.sortFile_ok hsort
      exact .ordered o tree hpath hfiles
    · rename_i fault left hsort
      obtain rfl := Sorter.sortFile_error hsort
      split at h
      · cases h
        exact .failed _
      · cases h
        exact .broken fault

end Batch

-- ---------------------------------------------------------------------------
-- Counts
-- ---------------------------------------------------------------------------

namespace Metrics

def of (outcomes : List Outcome) (failed : Nat) : Metrics where
  seen := outcomes.length + failed
  changed := outcomes.countP fun o => o.skipped.isNone && o.changed
  unchanged := outcomes.countP fun o => o.skipped.isNone && !o.changed
  skipped := outcomes.countP (·.skipped.isSome)
  failed
  methods := (outcomes.map (·.ordering.length)).sum
  calls := (outcomes.map (·.edgeCount)).sum

theorem record_of (outcomes : List Outcome) (failed : Nat) (o : Outcome) :
    (of outcomes failed).record o = of (outcomes ++ [o]) failed := by
  cases hskipped : o.skipped <;> cases hchanged : o.changed <;>
    simp [of, record, hskipped, hchanged, Nat.add_right_comm]

theorem recordFailure_of (outcomes : List Outcome) (failed : Nat) :
    (of outcomes failed).recordFailure = of outcomes (failed + 1) := by
  simp [of, recordFailure, Nat.add_assoc]

theorem length_of (outcomes : List Outcome) (failed : Nat) :
    (of outcomes failed).changed + (of outcomes failed).unchanged + (of outcomes failed).skipped =
      outcomes.length := by
  induction outcomes with
  | nil => rfl
  | cons o rest ih =>
    simp only [of, List.countP_cons, List.length_cons] at ih ⊢
    cases o.skipped <;> cases o.changed <;> simp <;> omega

end Metrics

namespace Batch

/-- Files that were worked on, in that order, each with how that ended. -/
abbrev History := List (String × UnitEnd)

variable {b after : Batch} {t tree : FileTree} {path : String} {ending : UnitEnd} {history : History}

/-- The account of a batch is that of the files it worked on. -/
structure Accounts (b : Batch) (history : History) : Prop where
  metrics : b.metrics = .of b.outcomes (history.countP (·.2.isFailed))
  outcomes : b.outcomes.map Outcome.path = (history.filter (·.2.isOrdered)).map (some ·.1)
  failures : ∀ path, path ∈ b.failures.map Prod.fst ↔ (path, .failed) ∈ history
  nodup : (b.failures.map Prod.fst).Nodup

theorem Accounts.of_eq (hb : Accounts b history) (hmetrics : after.metrics = b.metrics)
    (houtcomes : after.outcomes = b.outcomes) (hfailures : after.failures = b.failures) :
    Accounts after history := by
  constructor
  · rw [hmetrics, houtcomes, hb.metrics]
  · rw [houtcomes, hb.outcomes]
  · rw [hfailures]
    exact hb.failures
  · rw [hfailures]
    exact hb.nodup

/-- Work that came to nothing does not count. -/
theorem Accounts.append (hb : Accounts b history) (h : ending.isDone = false) (path : String) :
    Accounts b (history ++ [(path, ending)]) := by
  obtain ⟨hordered, hfailed⟩ : ending.isOrdered = false ∧ ending.isFailed = false := by
    simpa [UnitEnd.isDone] using h
  constructor
  · simp [hb.metrics, hfailed]
  · simp [hb.outcomes, hordered]
  · intro other
    have hne : ending ≠ .failed := by
      rintro rfl
      cases hfailed
    simp [hb.failures, hne.symm]
  · exact hb.nodup

theorem Sorts.accounts (h : Sorts b t path ending after tree) (hb : Accounts b history) :
    Accounts after (history ++ [(path, ending)]) := by
  cases h with
  | ordered o tree hpath =>
    constructor
    · simp [addOutcome, hb.metrics, Metrics.record_of, UnitEnd.isFailed]
    · simp [addOutcome, hb.outcomes, hpath, UnitEnd.isOrdered]
    · simp [addOutcome, hb.failures]
    · exact hb.nodup
  | failed message =>
    constructor
    · simp [addFailure, hb.metrics, Metrics.recordFailure_of, UnitEnd.isFailed]
    · simp [addFailure, hb.outcomes, UnitEnd.isOrdered]
    · intro other
      rw [addFailure, Entries.mem_keys_put, hb.failures]
      simp [or_comm]
    · exact Entries.nodup_keys_put hb.nodup _ _
  | interrupted => exact (hb.append rfl path).of_eq rfl rfl rfl
  | broken fault => exact (hb.append rfl path).of_eq rfl rfl rfl

-- ---------------------------------------------------------------------------
-- Files
-- ---------------------------------------------------------------------------

def WrittenBy (t tree : FileTree) (history : History) (outcomes : List Outcome) (names : Names) : Prop :=
  ∃ o ∈ outcomes, ∃ path, (path, .ordered) ∈ history ∧ o.path = some path ∧ o.written = true ∧
    t.resolve path = .ok names ∧ tree.content? names = some o.sortedSource.toUTF8

/-- Files change through new outcomes only, and not at all in a dry run. -/
structure Changes (b : Batch) (t : FileTree) (history : History) (after : Batch) (tree : FileTree) :
    Prop where
  outcomes : ∃ new, after.outcomes = b.outcomes ++ new ∧ ∀ names,
    tree.content? names = t.content? names ∨ b.dryRun = false ∧ WrittenBy t tree history new names
  names : t.SameNames tree
  dryRun : after.dryRun = b.dryRun

theorem Changes.refl (b : Batch) (t : FileTree) : Changes b t [] b t :=
  ⟨⟨[], by simp, fun _ => .inl rfl⟩, .refl t, rfl⟩

theorem Changes.trans {mid : Batch} {between : FileTree} {first second : History}
    (hfirst : Changes b t first mid between) (hsecond : Changes mid between second after tree) :
    Changes b t (first ++ second) after tree := by
  obtain ⟨new, hnew, hwritten⟩ := hfirst.outcomes
  obtain ⟨new', hnew', hwritten'⟩ := hsecond.outcomes
  refine ⟨⟨new ++ new', by rw [hnew', hnew, List.append_assoc], fun names => ?_⟩,
    hfirst.names.trans hsecond.names, hsecond.dryRun.trans hfirst.dryRun⟩
  rcases hwritten' names with hsame | ⟨hreal, o, ho, path, hpath, hof, hw, hnames, hcontent⟩
  · rcases hwritten names with hstill | ⟨hreal, o, ho, path, hpath, hof, hw, hnames, hcontent⟩
    · exact .inl (hsame.trans hstill)
    · exact .inr ⟨hreal, o, List.mem_append_left _ ho, path, List.mem_append_left _ hpath, hof, hw,
        hnames, hsame.trans hcontent⟩
  · exact .inr ⟨hfirst.dryRun ▸ hreal, o, List.mem_append_right _ ho, path,
      List.mem_append_right _ hpath, hof, hw, hfirst.names.resolve path ▸ hnames, hcontent⟩

theorem Sorts.changes (h : Sorts b t path ending after tree) :
    Changes b t [(path, ending)] after tree := by
  cases h with
  | ordered o tree hpath hfiles =>
    rcases hfiles with rfl | ⟨hwritten, hreal, hreplaced⟩
    · exact ⟨⟨[o], rfl, fun _ => .inl rfl⟩, .refl _, rfl⟩
    · refine ⟨⟨[o], rfl, fun names => ?_⟩, hreplaced.names, rfl⟩
      by_cases hnames : t.resolve path = .ok names
      · refine .inr ⟨hreal, o, List.mem_singleton_self o, path, List.mem_singleton_self _, hpath,
          hwritten, hnames, ?_⟩
        obtain ⟨found, hfound, -, hcontent⟩ := FileTree.read_eq_ok_iff.mp hreplaced.read
        rw [hreplaced.names.resolve, hnames] at hfound
        cases hfound
        exact hcontent
      · exact .inl (hreplaced.others names hnames)
  | failed => exact ⟨⟨[], by simp [addFailure], fun _ => .inl rfl⟩, .refl t, rfl⟩
  | interrupted => exact ⟨⟨[], by simp, fun _ => .inl rfl⟩, .refl t, rfl⟩
  | broken => exact ⟨⟨[], by simp, fun _ => .inl rfl⟩, .refl t, rfl⟩

-- ---------------------------------------------------------------------------
-- Runs
-- ---------------------------------------------------------------------------

/-- What a run works on: all files, or those up to one that ends it. -/
def worked (b : Batch) (t : FileTree) : List String → History
  | [] => []
  | path :: rest =>
    match b.sortOne t path with
    | (ending, after, tree) =>
      (path, ending) :: if ending.isDone then after.worked tree rest else []

inductive Works : Batch → FileTree → History → Batch → FileTree → Prop
  | nothing (b : Batch) (t : FileTree) : Works b t [] b t
  | file {b mid after : Batch} {t between tree : FileTree} {path : String} {ending : UnitEnd}
      {history : History} (h : Sorts b t path ending mid between)
      (hrest : Works mid between history after tree) :
      Works b t ((path, ending) :: history) after tree

theorem Works.accounts {new : History} (h : Works b t new after tree) (hb : Accounts b history) :
    Accounts after (history ++ new) := by
  induction h generalizing history with
  | nothing => simpa using hb
  | file hfile hrest ih => simpa using ih (hfile.accounts hb)

theorem Works.changes (h : Works b t history after tree) : Changes b t history after tree := by
  induction h with
  | nothing b t => exact .refl b t
  | file hfile hrest ih => exact hfile.changes.trans ih

section
variable {mid : Batch} {between : FileTree} (hone : b.sortOne t path = (ending, mid, between))
include hone

theorem worked_cons (rest : List String) : b.worked t (path :: rest) =
    (path, ending) :: if ending.isDone then mid.worked between rest else [] := by
  simp only [worked, hone]

theorem sortAll_of_isDone (hdone : ending.isDone = true) (progress : Progress) (rest : List String) :
    ∃ next : Progress, next.processed = progress.processed + 1 ∧
      sortAll progress b t (path :: rest) = sortAll next mid between rest := by
  cases ending with
  | ordered =>
    exact ⟨{ progress with processed := progress.processed + 1 }, rfl, by simp only [sortAll, hone]⟩
  | failed =>
    exact ⟨{ progress with processed := progress.processed + 1, failed := progress.failed + 1 }, rfl,
      by simp only [sortAll, hone]⟩
  | _ => cases hdone

theorem sortAll_of_not_isDone (hdone : ending.isDone = false) (progress : Progress)
    (rest : List String) :
    ∃ last : Progress,
      sortAll progress b t (path :: rest) = (last, { mid with interrupted := true }, between) ∨
      sortAll progress b t (path :: rest) = (last, mid, between) ∧ last.fault.isSome = true := by
  cases ending with
  | interrupted => exact ⟨progress, .inl (by simp only [sortAll, hone])⟩
  | broken fault =>
    exact ⟨{ progress with fault := some fault }, .inr ⟨by simp only [sortAll, hone], rfl⟩⟩
  | _ => cases hdone

end

theorem works_sortAll (progress : Progress) (b : Batch) (t : FileTree) (files : List String) :
    ∃ last, Works b t (b.worked t files) last (sortAll progress b t files).2.2 ∧
      ((sortAll progress b t files).2.1 = last ∨
        (sortAll progress b t files).2.1 = { last with interrupted := true }) := by
  induction files generalizing progress b t with
  | nil => exact ⟨b, .nothing b t, .inl rfl⟩
  | cons path rest ih =>
    rcases hone : b.sortOne t path with ⟨ending, mid, between⟩
    rw [worked_cons hone]
    cases hdone : ending.isDone with
    | true =>
      obtain ⟨next, -, hnext⟩ := sortAll_of_isDone hone hdone progress rest
      obtain ⟨last, hworks, hlast⟩ := ih next mid between
      rw [hnext]
      exact ⟨last, .file (sorts hone) hworks, hlast⟩
    | false =>
      refine ⟨mid, ?_⟩
      obtain ⟨last, hend | ⟨hend, -⟩⟩ := sortAll_of_not_isDone hone hdone progress rest <;> rw [hend]
      · exact ⟨.file (sorts hone) (.nothing mid between), .inr rfl⟩
      · exact ⟨.file (sorts hone) (.nothing mid between), .inl rfl⟩

theorem Sorts.next (h : Sorts b t path ending after tree) :
    after.begun = b.begun + 1 ∧ after.interruptAt = b.interruptAt := by
  cases h <;> exact ⟨rfl, rfl⟩

theorem sortAll_interrupted {n : Nat} {files : List String} (hn : n < files.length)
    (hinterrupt : b.interruptAt = some (b.begun + n + 1)) (progress : Progress)
    (hfault : (sortAll progress b t files).1.fault = none) :
    ∃ done : History, b.worked t files = done ++ [(files[n], .interrupted)] ∧
      done.map Prod.fst = files.take n ∧ (∀ e ∈ done, e.2.isDone = true) ∧
      (sortAll progress b t files).1.processed = progress.processed + n ∧
      (sortAll progress b t files).2.1.interrupted = true := by
  induction files generalizing progress b t n with
  | nil => cases hn
  | cons path rest ih =>
    cases n with
    | zero =>
      have hone : b.sortOne t path = (.interrupted, { b with begun := b.begun + 1 }, t) := by
        simp only [sortOne, hinterrupt, Nat.add_zero, ↓reduceIte]
      refine ⟨[], ?_⟩
      simp [worked_cons hone, sortAll, hone, UnitEnd.isDone, UnitEnd.isOrdered, UnitEnd.isFailed]
    | succ n =>
      rcases hone : b.sortOne t path with ⟨ending, mid, between⟩
      have hsorts := sorts hone
      obtain ⟨hbegun, hkept⟩ := hsorts.next
      have hlater : mid.interruptAt = some (mid.begun + n + 1) := by
        rw [hkept, hinterrupt, hbegun]
        congr 1
        omega
      have hdone : ending.isDone = true := by
        cases hsorts with
        | ordered => rfl
        | failed => rfl
        | interrupted h => simp [hinterrupt] at h
        | broken fault => simp [sortAll, hone] at hfault
      obtain ⟨next, hprocessed, hnext⟩ := sortAll_of_isDone hone hdone progress rest
      rw [hnext] at hfault ⊢
      obtain ⟨done, hworked, hpaths, hall, hcount, hflag⟩ := ih (by simpa using hn) hlater next hfault
      refine ⟨(path, ending) :: done, ?_, by simp [hpaths],
        List.forall_mem_cons.mpr ⟨hdone, hall⟩, by omega, hflag⟩
      simp [worked_cons hone, hdone, hworked]

-- ---------------------------------------------------------------------------
-- Calls on a batch
-- ---------------------------------------------------------------------------

theorem run_cases (b : Batch) (t : FileTree) (paths : List String) (reportPath : String) :
    (b.run t paths reportPath).progress = (b.sortPaths t paths).1 ∧
    (b.run t paths reportPath).batch = (b.sortPaths t paths).2.1 ∧
    ((b.run t paths reportPath).tree = (b.sortPaths t paths).2.2 ∨
      ∃ content, (b.sortPaths t paths).2.2.writeDeep reportPath content =
        .ok (b.run t paths reportPath).tree) := by
  rcases hsort : b.sortPaths t paths with ⟨progress, after, tree⟩
  simp only [run, hsort]
  split
  · exact ⟨rfl, rfl, .inl rfl⟩
  · split
    · exact ⟨rfl, rfl, .inl rfl⟩
    · split
      · rename_i hreport
        exact ⟨rfl, rfl, .inr ⟨_, hreport⟩⟩
      · exact ⟨rfl, rfl, .inl rfl⟩

theorem works_run (b : Batch) (t : FileTree) (paths : List String) (reportPath : String) :
    ∃ last, Works b t (b.worked t (t.sources paths)) last (b.sortPaths t paths).2.2 ∧
      ((b.run t paths reportPath).batch = last ∨
        (b.run t paths reportPath).batch = { last with interrupted := true }) := by
  rw [(run_cases b t paths reportPath).2.1]
  exact works_sortAll _ b t (t.sources paths)

theorem content?_run (hnames : (b.run t paths reportPath).tree.resolve reportPath ≠ .ok names) :
    (b.run t paths reportPath).tree.content? names = (b.sortPaths t paths).2.2.content? names := by
  rcases (run_cases b t paths reportPath).2.2 with htree | ⟨content, hreport⟩
  · rw [htree]
  · obtain ⟨found, hfound, hkept⟩ := FileTree.content?_writeDeep hreport
    refine hkept names ?_
    rintro rfl
    exact hnames hfound

def withInterrupt (b : Batch) (n : Option Nat) : Batch :=
  { b with interruptAt := n }

/-- A batch after calls, one after the other, each in a tree of its own and with an interruption of its
own, and the files it worked on. -/
inductive Reached : Batch → History → Prop
  | fresh (preferences : Preferences) (sorter : Sorter) (dryRun : Bool) :
      Reached { preferences, sorter, dryRun } []
  | sortOne {b : Batch} {history : History} (h : Reached b history) (n : Option Nat) (t : FileTree)
      (path : String) :
      Reached ((b.withInterrupt n).sortOne t path).2.1
        (history ++ [(path, ((b.withInterrupt n).sortOne t path).1)])
  | run {b : Batch} {history : History} (h : Reached b history) (n : Option Nat) (t : FileTree)
      (paths : List String) (reportPath : String) :
      Reached ((b.withInterrupt n).run t paths reportPath).batch
        (history ++ (b.withInterrupt n).worked t (t.sources paths))

theorem Accounts.withInterrupt (hb : Accounts b history) (n : Option Nat) :
    Accounts (b.withInterrupt n) history :=
  hb.of_eq rfl rfl rfl

theorem accounts_run (hb : Accounts b history) (t : FileTree) (paths : List String)
    (reportPath : String) :
    Accounts (b.run t paths reportPath).batch (history ++ b.worked t (t.sources paths)) := by
  obtain ⟨last, hworks, hlast | hlast⟩ := works_run b t paths reportPath <;> rw [hlast]
  · exact hworks.accounts hb
  · exact (hworks.accounts hb).of_eq rfl rfl rfl

theorem Reached.accounts (h : Reached b history) : Accounts b history := by
  induction h with
  | fresh => exact ⟨rfl, rfl, by simp, List.nodup_nil⟩
  | sortOne h n t path ih => exact (sorts rfl).accounts (ih.withInterrupt n)
  | run h n t paths reportPath ih => exact accounts_run (ih.withInterrupt n) t paths reportPath

/-- The counts add up, and failures are noted under the paths that failed. -/
structure Balanced (b : Batch) (history : History) : Prop where
  seen : b.metrics.seen =
    b.metrics.changed + b.metrics.unchanged + b.metrics.skipped + b.metrics.failed
  outcomes : b.metrics.seen = b.outcomes.length + b.metrics.failed
  methods : b.metrics.methods = (b.outcomes.map (·.ordering.length)).sum
  calls : b.metrics.calls = (b.outcomes.map (·.edgeCount)).sum
  hasFailures : b.hasFailures = true ↔ 0 < b.metrics.failed
  failures : ∀ path, path ∈ b.failures.map Prod.fst ↔ (path, .failed) ∈ history

theorem Accounts.balanced (h : Accounts b history) : Balanced b history := by
  constructor
  · have hlength := Metrics.length_of b.outcomes (history.countP (·.2.isFailed))
    rw [← h.metrics] at hlength
    rw [hlength, h.metrics]
    rfl
  · rw [h.metrics]
    rfl
  · rw [h.metrics]
    rfl
  · rw [h.metrics]
    rfl
  · rw [h.metrics, Metrics.of, List.countP_pos_iff, hasFailures, Bool.not_eq_true',
      List.isEmpty_eq_false_iff_exists_mem]
    constructor
    · rintro ⟨⟨path, message⟩, hmem⟩
      exact ⟨(path, .failed), (h.failures path).mp (List.mem_map_of_mem hmem), rfl⟩
    · rintro ⟨⟨path, ending⟩, hmem, hfailed⟩
      cases ending with
      | failed =>
        obtain ⟨noted, hnoted, -⟩ := List.mem_map.mp ((h.failures path).mpr hmem)
        exact ⟨noted, hnoted⟩
      | _ => cases hfailed
  · exact h.failures

/-- What a run does besides the account. The file of the report is left out. -/
structure RunsInOrder (b : Batch) (t : FileTree) (files : List String) (reportPath : String) (r : Run) :
    Prop where
  changes : ∃ tree, Changes b t (b.worked t files) r.batch tree ∧
    ∀ names, r.tree.resolve reportPath ≠ .ok names → r.tree.content? names = tree.content? names
  /-- Interrupted at a file, the run has worked on those before it, and no other file is touched. -/
  interrupted : ∀ (n : Nat) (hn : n < files.length),
    b.interruptAt = some (b.begun + n + 1) → r.progress.fault = none →
    r.batch.interrupted = true ∧ r.progress.processed = n ∧
    (∃ done : History, b.worked t files = done ++ [(files[n], .interrupted)] ∧
      done.map Prod.fst = files.take n ∧ ∀ e ∈ done, e.2.isDone = true) ∧
    ∀ names, r.tree.resolve reportPath ≠ .ok names →
      r.tree.content? names = t.content? names ∨ ∃ path ∈ files.take n, t.resolve path = .ok names

theorem runsInOrder (b : Batch) (t : FileTree) (paths : List String) (reportPath : String) :
    RunsInOrder b t (t.sources paths) reportPath (b.run t paths reportPath) := by
  obtain ⟨hprogress, hbatch, -⟩ := run_cases b t paths reportPath
  have hchanges : Changes b t (b.worked t (t.sources paths)) (b.run t paths reportPath).batch
      (b.sortPaths t paths).2.2 := by
    obtain ⟨last, hworks, hlast | hlast⟩ := works_run b t paths reportPath <;> rw [hlast]
    · exact hworks.changes
    · exact ⟨hworks.changes.outcomes, hworks.changes.names, hworks.changes.dryRun⟩
  refine ⟨⟨(b.sortPaths t paths).2.2, hchanges, fun names => content?_run⟩,
    fun n hn hinterrupt hfault => ?_⟩
  rw [hprogress, sortPaths] at hfault
  obtain ⟨done, hworked, hpaths, hdone, hprocessed, hflag⟩ :=
    sortAll_interrupted hn hinterrupt _ hfault
  refine ⟨?_, ?_, ⟨done, hworked, hpaths, hdone⟩, fun names hnames => ?_⟩
  · rw [hbatch, sortPaths]
    exact hflag
  · rw [hprogress, sortPaths]
    simpa using hprocessed
  · obtain ⟨new, -, hwritten⟩ := hchanges.outcomes
    rw [content?_run hnames]
    refine (hwritten names).imp_right ?_
    rintro ⟨-, o, -, path, hpath, -, -, hresolved, -⟩
    rw [hworked] at hpath
    have hmem : (path, .ordered) ∈ done := by simpa using hpath
    exact ⟨path, hpaths ▸ List.mem_map_of_mem hmem, hresolved⟩

/-- Whatever calls were made on a batch, its counts add up, and the next call changes files only
through outcomes that were written. A run that the user interrupts stops there. -/
theorem calls_accounted (h : Reached b history) :
    Balanced b history ∧
    ∀ (n : Option Nat) (t : FileTree),
      (∀ path, Changes (b.withInterrupt n) t [(path, ((b.withInterrupt n).sortOne t path).1)]
        ((b.withInterrupt n).sortOne t path).2.1 ((b.withInterrupt n).sortOne t path).2.2) ∧
      ∀ paths reportPath, RunsInOrder (b.withInterrupt n) t (t.sources paths) reportPath
        ((b.withInterrupt n).run t paths reportPath) :=
  ⟨h.accounts.balanced, fun n t => ⟨fun _ => (sorts rfl).changes, runsInOrder (b.withInterrupt n) t⟩⟩

def afterFailure : Batch :=
  ((({} : Batch).withInterrupt none).sortOne {} "missing.java").2.1

def twoFiles : FileTree :=
  { files := [
      (["A.java"], "class A\x7bvoid b()\x7b\x7dvoid a()\x7bb();\x7d\x7d".toUTF8),
      (["B.java"], "class B\x7bvoid b()\x7b\x7dvoid a()\x7bb();\x7d\x7d".toUTF8)] }

theorem calls_accounted_interrupted :
    ∃ history, Reached afterFailure history ∧
      let r := (afterFailure.withInterrupt (some 3)).run twoFiles ["."] ""
      r.batch.interrupted = true ∧ r.progress.processed = 1 ∧
      r.batch.metrics.seen = 2 ∧ r.batch.metrics.changed = 1 ∧ r.batch.metrics.failed = 1 ∧
      r.batch.metrics.seen = r.batch.outcomes.length + r.batch.metrics.failed ∧
      r.tree.content? ["B.java"] = twoFiles.content? ["B.java"] := by
  have hbefore : Reached afterFailure _ :=
    .sortOne (.fresh {} .preferred false) none {} "missing.java"
  have hafter := hbefore.run (some 3) twoFiles ["."] ""
  obtain ⟨hflag, hprocessed, -, huntouched⟩ :=
    (((calls_accounted hbefore).2 (some 3) twoFiles).2 ["."] "").interrupted 1 (by decide +kernel)
      (by decide +kernel) (Option.isNone_iff_eq_none.mp (by decide +kernel))
  refine ⟨_, hbefore, hflag, hprocessed, by decide +kernel, by decide +kernel, by decide +kernel,
    (calls_accounted hafter).1.outcomes, ?_⟩
  refine (huntouched ["B.java"] (by decide +kernel)).resolve_right ?_
  decide +kernel

/-- The report of a dry run goes to its file, even if that is one of the sources. -/
theorem dry_run_report_over_source :
    ¬∀ (b : Batch) (t : FileTree) (paths : List String) (reportPath : String), b.dryRun = true →
      ∀ path ∈ t.sources paths, (b.run t paths reportPath).tree.read path = t.read path := by
  intro h
  have hsame := h { dryRun := true } { files := [(["report.json"], "class A\x7b\x7d".toUTF8)] }
    ["report.json"] "report.json" rfl "report.json" (by decide +kernel)
  revert hsame
  decide +kernel

end Batch

end CallerFirst
