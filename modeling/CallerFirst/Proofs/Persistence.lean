import CallerFirst.Program
import CallerFirst.Proofs.WorkingCopy
import CallerFirst.Proofs.Yaml.Documents
import Mathlib.Algebra.Group.Int.Defs

/-!
# Preferences survive persistence

Preferences written as options are read back as they were (`Preferences.ofValue_toFields`). So are
preferences that are saved to a file, as long as every rank can be written
(`Preferences.survives_persistence`): the options make up a map of words, truth values and numbers,
which the text of a file gives back.
-/

namespace CallerFirst

/-! ### Priorities -/

namespace Priority

theorem read_name (p : Priority) : read p.name = .ok p := by
  have hname : ofName? (Text.upper (Text.strip p.name)) = some p := by
    cases p <;> decide +kernel
  rw [read, hname]

theorem delimiter_not_mem_name (p : Priority) : delimiter ∉ p.name.toList := by
  cases p <;> decide

theorem trim_name (p : Priority) : Text.trim p.name.toList = p.name.toList := by
  cases p <;> decide +kernel

theorem isEmpty_name (p : Priority) : p.name.toList.isEmpty = false := by
  cases p <;> rfl

theorem toList_encode (ps : List Priority) :
    (encode ps).toList = [delimiter].intercalate (ps.map (·.name.toList)) := by
  rw [encode, String.toList_intercalate, List.map_map]
  rfl

/-- The parts of joined names; no name at all gives one empty part, which does not count. -/
theorem parts_encode (ps : List Priority) :
    ((Text.split delimiter (encode ps).toList).map Text.trim).filter (!·.isEmpty) =
      ps.map (·.name.toList) := by
  cases ps with
  | nil => rfl
  | cons p ps =>
    have hsplit : Text.split delimiter (encode (p :: ps)).toList =
        (p :: ps).map (·.name.toList) := by
      rw [toList_encode]
      refine Text.split_intercalate (by simp) fun part hpart => ?_
      obtain ⟨q, -, rfl⟩ := List.mem_map.1 hpart
      exact delimiter_not_mem_name q
    have htrim : ((p :: ps).map (·.name.toList)).map Text.trim = (p :: ps).map (·.name.toList) := by
      rw [List.map_map]
      exact List.map_congr_left fun q _ => trim_name q
    rw [hsplit, htrim]
    refine List.filter_eq_self.2 fun part hpart => ?_
    obtain ⟨q, -, rfl⟩ := List.mem_map.1 hpart
    simp [isEmpty_name]

theorem decode_encode (ps : List Priority) : decode (encode ps) = .ok ps := by
  rw [decode, parts_encode]
  induction ps with
  | nil => rfl
  | cons p ps ih =>
    rw [List.map_cons, List.mapM_cons, String.ofList_toList, read_name, ih]
    rfl

theorem isWordChar_encode (ps : List Priority) :
    ∀ c ∈ (encode ps).toList, Yaml.isWordChar c = true := by
  have hname (p : Priority) : ∀ c ∈ p.name.toList, Yaml.isWordChar c = true :=
    List.all_eq_true.1 (by cases p <;> decide)
  rw [toList_encode]
  induction ps with
  | nil => simp
  | cons p ps ih =>
    cases ps with
    | nil => simpa using hname p
    | cons q ps =>
      rw [List.map_cons, List.map_cons, List.intercalate_cons_cons]
      simp only [List.forall_mem_append]
      exact ⟨⟨hname p, List.all_eq_true.1 rfl⟩, ih⟩

theorem name_prefix_encode (p : Priority) (ps : List Priority) :
    p.name.toList <+: (encode (p :: ps)).toList := by
  rw [toList_encode]
  cases ps with
  | nil => simp
  | cons q ps =>
    rw [List.map_cons, List.map_cons, List.intercalate_cons_cons, List.append_assoc]
    exact List.prefix_append _ _

theorem isScalar_encode (ps : List Priority) : Yaml.IsScalar (.text (encode ps)) := by
  cases ps with
  | nil => exact .empty
  | cons p ps =>
    obtain ⟨rest, hrest⟩ := name_prefix_encode p ps
    refine .word ⟨?_, List.all_eq_true.2 (isWordChar_encode (p :: ps)), ?_⟩
    · rw [← hrest]
      cases p <;> rfl
    · intro hreserved
      -- not even the start of a reserved word is a name
      have hnone (p : Priority) : (Yaml.nullWords ++ Yaml.boolWords).all
          fun w => !p.name.toList.isPrefixOf w.toList := by
        cases p <;> decide +kernel
      have hname := List.all_eq_true.1 (hnone p) _ hreserved
      rw [List.isPrefixOf_iff_prefix.2 ⟨rest, hrest⟩] at hname
      contradiction

end Priority

/-! ### Ranks -/

namespace CategoryRanks

theorem ofName?_name (c : Category) : Category.ofName? c.name = some c := by
  cases c <;> rfl

theorem setByName_name (r : CategoryRanks) (c : Category) (rank : Int) :
    setByName r (.text c.name, .int rank) = .ok (r.set c rank) := by
  have hname : (Value.text c.name).text?.bind Category.ofName? = some c := ofName?_name c
  rw [setByName, hname]

theorem foldlM_setByName (r : CategoryRanks) (rank : Category → Int) (cs : List Category) :
    (cs.map fun c => (Value.text c.name, Value.int (rank c))).foldlM setByName r =
      .ok (cs.foldl (fun r c => r.set c (rank c)) r) := by
  induction cs generalizing r with
  | nil => rfl
  | cons c cs ih =>
    rw [List.map_cons, List.foldlM_cons, setByName_name]
    exact ih (r.set c (rank c))

theorem ofValue_toValue (r : CategoryRanks) : ofValue r.toValue = .ok r := by
  have hall : Category.all.foldl (fun acc c => acc.set c (r.get c)) {} = r := by
    cases r
    simp only [Category.all, List.foldl_cons, List.foldl_nil, set, get]
  have hfold := foldlM_setByName {} r.get Category.all
  rw [hall] at hfold
  rw [toValue, ofValue, if_neg (by simp [Value.isEmpty, Category.all])]
  exact hfold

theorem isNewKey_name {c : Category} {cs : List Category} (hc : c ∉ cs)
    (rank : Category → Int) :
    Yaml.IsNewKey c.name (cs.map fun c => (.text c.name, .int (rank c))) where
  word := by cases c <;> decide
  length := by cases c <;> decide
  fresh := by
    rintro pair hpair heq
    obtain ⟨d, hd, rfl⟩ := List.mem_map.1 hpair
    have hname : d.name = c.name := by simpa using heq
    have hsame : some d = some c := by rw [← ofName?_name d, hname, ofName?_name]
    exact hc (Option.some.inj hsame ▸ hd)

theorem isRecord_ranks {rank : Category → Int} (h : ∀ c, Integer.isWritable (rank c) = true)
    {cs : List Category} (hcs : cs.Nodup) :
    Yaml.IsRecord (cs.map fun c => (.text c.name, .int (rank c))) := by
  induction cs with
  | nil => exact .nil
  | cons c cs ih =>
    obtain ⟨hc, hcs⟩ := List.nodup_cons.1 hcs
    exact .scalar (isNewKey_name hc rank) (.int (h c)) (ih hcs)

end CategoryRanks

namespace Preferences

theorem readStrategy_name (s : Strategy) : readStrategy (.text s.name) = .ok s := by
  cases s <;> rfl

theorem readStartpoints_name (s : Startpoints) : readStartpoints (.text s.name) = .ok s := by
  cases s <;> rfl

theorem ofFields_toFields (p : Preferences) : ofFields p.toFields = .ok p := by
  have hpriorities : readPriorities (.text (Priority.encode p.priorities)) = .ok p.priorities :=
    Priority.decode_encode p.priorities
  have hfield {α : Type} (name : String) {v : Value} (h : Value.field? p.toFields name = some v)
      (default : α) (read : Value → Except OptionFault α) :
      readOption p.toFields name default read = read v := by
    rw [readOption, h]
  rw [ofFields]
  simp only [hfield "ordering_priorities" rfl, hfield "invocation_strategy" rfl,
    hfield "startpoint_strategy" rfl, hfield "respect_before_after" rfl,
    hfield "cluster_getter_setter" rfl, hfield "cluster_overloaded" rfl,
    hfield "member_category_order" rfl]
  rw [hpriorities, readStrategy_name, readStartpoints_name, CategoryRanks.ofValue_toValue]
  rfl

theorem ofValue_toFields (p : Preferences) : ofValue (.map p.toFields) = .ok p := by
  rw [← ofFields_toFields p]
  rfl

theorem isRecord_toFields {p : Preferences}
    (h : ∀ c, Integer.isWritable (p.categoryRanks.get c) = true) : Yaml.IsRecord p.toFields := by
  have hstrategy : Yaml.IsWord p.strategy.name := by cases p.strategy <;> decide
  have hstartpoints : Yaml.IsWord p.startpoints.name := by cases p.startpoints <;> decide
  exact .scalar ⟨by decide, by decide, by simp⟩ (Priority.isScalar_encode p.priorities) <|
    .scalar ⟨by decide, by decide, by simp⟩ (.word hstrategy) <|
    .scalar ⟨by decide, by decide, by simp⟩ (.word hstartpoints) <|
    .scalar ⟨by decide, by decide, by simp⟩ (.bool p.respectBeforeAfter) <|
    .scalar ⟨by decide, by decide, by simp⟩ (.bool p.clusterGetterSetter) <|
    .scalar ⟨by decide, by decide, by simp⟩ (.bool p.clusterOverloaded) <|
    .record ⟨by decide, by decide, by simp⟩ (by simp [Category.all])
      (CategoryRanks.isRecord_ranks h (by decide)) .nil

/-! ### Files -/

theorem unifyBreaks_of_not_mem {text : List Char} (h : '\r' ∉ text) :
    Text.unifyBreaks text = text := by
  induction text using Text.unifyBreaks.induct with
  | case1 => rfl
  | case2 rest ih => simp at h
  | case3 rest h ih => simp at h
  | case4 c rest hpair hreturn ih =>
    rw [Text.unifyBreaks, ih (List.not_mem_of_not_mem_cons h)]
    · exact hpair
    · exact hreturn

theorem ofYaml_toYaml {p : Preferences} (h : ∀ c, Integer.isWritable (p.categoryRanks.get c) = true)
    (path : String) : ofYaml path p.toYaml = .ok p := by
  have hrecord := isRecord_toFields h
  have hbreaks : '\r' ∉ p.toYaml.toList := by
    intro hm
    rw [toYaml, Yaml.toList_write] at hm
    exact absurd (Yaml.isLineChar_linesText hrecord 0 _ hm) (by decide)
  rw [ofYaml, unifyBreaks_of_not_mem hbreaks, toYaml, Yaml.read_write hrecord (by simp [toFields])]
  exact ofValue_toFields p

theorem save_of_isWritable {p : Preferences}
    (h : ∀ c, Integer.isWritable (p.categoryRanks.get c) = true) : p.save = .ok p.toYaml := by
  rw [save, if_pos (List.all_eq_true.2 fun c _ => h c)]

theorem save_of_not_isWritable {p : Preferences} {c : Category}
    (h : Integer.isWritable (p.categoryRanks.get c) = false) : p.save = .error .longNumber := by
  have hc : c ∈ Category.all := by cases c <;> decide
  rw [save, if_neg]
  intro hall
  simp [List.all_eq_true.1 hall c hc] at h

theorem load_of_read {p : Preferences}
    (h : ∀ c, Integer.isWritable (p.categoryRanks.get c) = true) {t : FileTree} {path : String}
    (hread : t.read path = .ok p.toYaml.toUTF8) : load t path = .ok p := by
  rw [load, hread]
  simp only [WorkingCopy.fromUTF8?_toUTF8, ofYaml_toYaml h]
  rfl

theorem load_of_read_empty {t : FileTree} {path : String} (hread : t.read path = .ok .empty) :
    load t path = .ok {} := by
  rw [load, hread]
  rfl

theorem saveTo_of_ok {p : Preferences} {t opened : FileTree} {path text : String}
    (hopen : t.writeDeep path .empty = .ok opened) (hsave : p.save = .ok text) :
    ∃ after, p.saveTo t path = .ok { tree := after } ∧ t.Written after path text.toUTF8 := by
  obtain ⟨after, hwrite, hwritten⟩ :=
    (FileTree.written_of_writeDeep hopen).write text.toUTF8
  refine ⟨after, ?_, hwritten⟩
  simp only [saveTo, hopen, hsave, ok_bind, hwrite]
  rfl

theorem saveTo_of_error {p : Preferences} {t opened : FileTree} {path : String} {fault : OptionFault}
    (hopen : t.writeDeep path .empty = .ok opened) (hsave : p.save = .error fault) :
    p.saveTo t path = .ok { fault := some fault, tree := opened } := by
  simp only [saveTo, hopen, hsave, ok_bind]
  rfl

/-- Preferences are read back from their options, and from any file that they are saved to; the
preferences that are loaded are saved as the same text. If a rank has too many digits, saving fails
and leaves the file empty, which is a file of the usual preferences. -/
theorem survives_persistence (p : Preferences) :
    ofValue (.map p.toFields) = .ok p ∧
      ((∀ c, (p.categoryRanks.get c).natAbs < 10 ^ Integer.digitLimit) →
        ∃ text, p.save = .ok text ∧ ∀ (t opened : FileTree) (path : String),
          t.writeDeep path .empty = .ok opened →
            ∃ after, p.saveTo t path = .ok { tree := after } ∧ t.Written after path text.toUTF8 ∧
              ∃ q, load after path = .ok q ∧ q = p ∧ q.save = .ok text) ∧
      ((∃ c, 10 ^ Integer.digitLimit ≤ (p.categoryRanks.get c).natAbs) →
        p.save = .error .longNumber ∧ ∀ (t opened : FileTree) (path : String),
          t.writeDeep path .empty = .ok opened →
            p.saveTo t path = .ok { fault := some .longNumber, tree := opened } ∧
              t.Written opened path .empty ∧ load opened path = .ok {}) := by
  refine ⟨ofValue_toFields p, fun hshort => ?_, fun ⟨c, hlong⟩ => ?_⟩
  · have hranks (c : Category) := Integer.isWritable_iff.2 (hshort c)
    have hsave := save_of_isWritable hranks
    refine ⟨p.toYaml, hsave, fun t opened path hopen => ?_⟩
    obtain ⟨after, hafter, hwritten⟩ := saveTo_of_ok hopen hsave
    exact ⟨after, hafter, hwritten, p, load_of_read hranks hwritten.read, rfl, hsave⟩
  · have hsave : p.save = .error .longNumber := by
      refine save_of_not_isWritable (c := c) ?_
      rw [← Bool.not_eq_true, Integer.isWritable_iff]
      exact Nat.not_lt.2 hlong
    refine ⟨hsave, fun t opened path hopen => ?_⟩
    have hwritten := FileTree.written_of_writeDeep hopen
    exact ⟨saveTo_of_error hopen hsave, hwritten, load_of_read_empty hwritten.read⟩

def repeated : Preferences :=
  { priorities := [.lexical, .fanInFanOutRate, .lexical]
    categoryRanks := { fields := -40, methods := 1000 } }

def unordered : Preferences :=
  { priorities := [] }

/-- A rank with one digit more than can be written. -/
def longRank : Preferences :=
  { categoryRanks := { fields := 10 ^ Integer.digitLimit } }

def withRepeated : FileTree :=
  { files := [(["stepdown.yaml"], repeated.toYaml.toUTF8)] }

theorem survives_persistence_repeated :
    (∃ text after, repeated.save = .ok text ∧
      repeated.saveTo {} "config/stepdown.yaml" = .ok { tree := after } ∧
      ∃ q, load after "config/stepdown.yaml" = .ok q ∧ q = repeated ∧ q.save = .ok text) ∧
    (∃ text after, unordered.save = .ok text ∧
      unordered.saveTo withRepeated "stepdown.yaml" = .ok { tree := after } ∧
      ∃ q, load after "stepdown.yaml" = .ok q ∧ q = unordered ∧ q.save = .ok text) ∧
    longRank.saveTo withRepeated "stepdown.yaml" =
      .ok { fault := some .longNumber, tree := { files := [(["stepdown.yaml"], .empty)] } } := by
  have hopen : FileTree.writeDeep {} "config/stepdown.yaml" .empty =
      .ok { files := [(["config", "stepdown.yaml"], .empty)], directories := [["config"]] } := rfl
  have hopen' : withRepeated.writeDeep "stepdown.yaml" .empty =
      .ok { files := [(["stepdown.yaml"], .empty)] } := rfl
  obtain ⟨-, hrepeated, -⟩ := survives_persistence repeated
  obtain ⟨text, hsave, hsaved⟩ := hrepeated fun c => by cases c <;> decide +kernel
  obtain ⟨after, hafter, -, hload⟩ := hsaved _ _ _ hopen
  obtain ⟨-, hunordered, -⟩ := survives_persistence unordered
  obtain ⟨text', hsave', hsaved'⟩ := hunordered fun c => by cases c <;> decide +kernel
  obtain ⟨after', hafter', -, hload'⟩ := hsaved' _ _ _ hopen'
  obtain ⟨-, hlong⟩ := (survives_persistence longRank).2.2 ⟨.fields, by decide +kernel⟩
  exact ⟨⟨text, after, hsave, hafter, hload⟩, ⟨text', after', hsave', hafter', hload'⟩,
    (hlong _ _ _ hopen').1⟩

/-- Preferences with a long rank are valid, but saving them empties the file, and what is loaded then
are other preferences. -/
theorem longRank_valid_not_saved :
    ofValue (.map longRank.toFields) = .ok longRank ∧ (¬∃ text, longRank.save = .ok text) ∧
      ∃ after, longRank.saveTo withRepeated "stepdown.yaml" =
          .ok { fault := some .longNumber, tree := after } ∧
        ∃ q, load after "stepdown.yaml" = .ok q ∧ q ≠ longRank := by
  have hlong : Integer.isWritable (longRank.categoryRanks.get .fields) = false := by decide +kernel
  have hopen : withRepeated.writeDeep "stepdown.yaml" .empty =
      .ok { files := [(["stepdown.yaml"], .empty)] } := rfl
  have hsave := save_of_not_isWritable hlong
  refine ⟨ofValue_toFields longRank, ?_, _, saveTo_of_error hopen hsave, {}, ?_, ?_⟩
  · rintro ⟨text, htext⟩
    rw [hsave] at htext
    cases htext
  · exact load_of_read_empty (FileTree.read_of_writeDeep hopen)
  · intro h
    have hranks := congrArg (·.categoryRanks.fields) h
    exact absurd hranks (by decide +kernel)

end Preferences

end CallerFirst
