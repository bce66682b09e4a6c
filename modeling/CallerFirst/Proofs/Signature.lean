import CallerFirst.Proofs.Java.WrittenType
import CallerFirst.Proofs.Text
import Std.Data.String.ToInt

/-!
# Keys can be read back

The key of a method joins a name and types with signs that also stand within type arguments, and
those are dropped before. What is left holds none of the signs, so name and types can be read back off
the key (`name_ofMethod`, `parameters_ofMethod`). `keys_unambiguous`: methods share a key exactly when
they agree in both, and none shares one with a block or a field.
-/

namespace CallerFirst

namespace Signature

variable {m a b : Method}

-- ---------------------------------------------------------------------------
-- Names
-- ---------------------------------------------------------------------------

theorem ne_open_of_isName {name : String} (h : Text.IsName name) :
    ∀ c ∈ name.toList, (c != '(') = true := by
  intro c hc
  rw [bne_iff_ne]
  rintro rfl
  exact absurd (Text.isIdentifierPart_of_mem h hc) (by decide)

theorem name_ofMethod (h : Text.IsName m.name) : (ofMethod m).name = m.name := by
  simp [name, ofMethod, render, List.takeWhile_append_of_pos (ne_open_of_isName h)]

/-- Keys of blocks and fields start with a sign, and no identifier does. -/
theorem isSynthetic_ofMethod (h : Text.IsName m.name) : (ofMethod m).isSynthetic = false := by
  obtain ⟨c, rest, hname, hstart⟩ := Text.exists_cons_of_isName h
  have hc : '#' ≠ c := by
    rintro rfl
    exact absurd hstart (by decide)
  simp [isSynthetic, ofMethod, render, hname, initializerStart, fieldInitializerStart,
    List.isPrefixOf, hc]

-- ---------------------------------------------------------------------------
-- Types of parameters
-- ---------------------------------------------------------------------------

def partsOf (text : List Char) : List (List Char) :=
  if text = [] then [] else (Text.split ',' text).map (·.dropWhile (· == ' '))

def parameters (s : Signature) : List String :=
  (partsOf (s.key.toList.dropWhile (· != '(')).tail.dropLast).map String.ofList

theorem intercalate_blank (part : List Char) (parts : List (List Char)) :
    [',', ' '].intercalate (part :: parts) = [','].intercalate (part :: parts.map (' ' :: ·)) := by
  induction parts generalizing part with
  | nil => rfl
  | cons next parts ih =>
    rw [List.intercalate_cons_cons, ih, List.map_cons, List.intercalate_cons_cons]
    cases parts <;> simp [List.intercalate_cons_cons]

theorem dropWhile_blank {part : List Char} (h : ' ' ∉ part) : part.dropWhile (· == ' ') = part := by
  cases part with
  | nil => rfl
  | cons c rest =>
    have hc : c ≠ ' ' := fun heq => h (heq ▸ List.mem_cons_self)
    simp [hc]

theorem partsOf_intercalate {parts : List (List Char)}
    (h : ∀ part ∈ parts, part ≠ [] ∧ ',' ∉ part ∧ ' ' ∉ part) :
    partsOf ([',', ' '].intercalate parts) = parts := by
  cases parts with
  | nil => rfl
  | cons part parts =>
    obtain ⟨⟨hne, hcomma, hblank⟩, hparts⟩ := List.forall_mem_cons.mp h
    have hjoined : [','].intercalate (part :: parts.map (' ' :: ·)) ≠ [] := by
      cases parts <;> simp [List.intercalate_cons_cons, hne]
    have hcommas : ∀ p ∈ part :: parts.map (' ' :: ·), ',' ∉ p := by
      refine List.forall_mem_cons.mpr ⟨hcomma, List.forall_mem_map.mpr fun p hp => ?_⟩
      simpa using (hparts p hp).2.1
    have hdrop : (parts.map (' ' :: ·)).map (·.dropWhile (· == ' ')) = parts := by
      rw [List.map_map]
      refine (List.map_congr_left fun p hp => ?_).trans (List.map_id parts)
      simpa using dropWhile_blank (hparts p hp).2.2
    rw [intercalate_blank, partsOf, if_neg hjoined,
      Text.split_intercalate (List.cons_ne_nil _ _) hcommas, List.map_cons, dropWhile_blank hblank,
      hdrop]

theorem toList_key_ofMethod (m : Method) :
    (ofMethod m).key.toList = m.name.toList ++ '(' :: ([',', ' '].intercalate
      ((m.parameterTypes.map stripTypeArguments).map String.toList) ++ [')']) := by
  simp [ofMethod, render, String.toList_intercalate]

theorem strip_isPart (h : m.Written Text.IsName) :
    ∀ part ∈ (m.parameterTypes.map stripTypeArguments).map String.toList,
      part ≠ [] ∧ ',' ∉ part ∧ ' ' ∉ part := by
  rw [List.map_map, List.forall_mem_map]
  intro text htext
  obtain ⟨hne, hplain⟩ := (h.types text htext).strip
  refine ⟨hne, fun hc => ?_, fun hc => ?_⟩
  all_goals exact absurd (hplain _ hc) (by decide)

theorem parameters_ofMethod (h : m.Written Text.IsName) :
    (ofMethod m).parameters = m.parameterTypes.map stripTypeArguments := by
  rw [parameters, toList_key_ofMethod, List.dropWhile_append_of_pos (ne_open_of_isName h.name),
    List.dropWhile_cons_of_neg (by simp), List.tail_cons, List.dropLast_concat,
    partsOf_intercalate (strip_isPart h), List.map_map]
  simp [Function.comp_def]

theorem ofMethod_eq_iff (ha : a.Written Text.IsName) (hb : b.Written Text.IsName) :
    ofMethod a = ofMethod b ↔ a.name = b.name ∧
      a.parameterTypes.map stripTypeArguments = b.parameterTypes.map stripTypeArguments := by
  constructor
  · intro h
    rw [← name_ofMethod ha.name, ← parameters_ofMethod ha, h]
    exact ⟨name_ofMethod hb.name, parameters_ofMethod hb⟩
  · rintro ⟨hname, htypes⟩
    rw [ofMethod, ofMethod, render, render, hname, htypes]

-- ---------------------------------------------------------------------------
-- Blocks and fields
-- ---------------------------------------------------------------------------

theorem numbered_inj {start : String} {i j : Int}
    (h : (⟨start ++ toString i⟩ : Signature) = ⟨start ++ toString j⟩) : i = j := by
  have hkey := congrArg (·.key.toList) h
  rw [String.toList_append, String.toList_append, List.append_cancel_left_eq] at hkey
  exact Int.repr_inj.mp (String.toList_inj.mp hkey)

theorem ofInitializer_inj {i j : Int} (h : ofInitializer i = ofInitializer j) : i = j :=
  numbered_inj h

theorem ofFieldInitializer_inj {i j : Int} (h : ofFieldInitializer i = ofFieldInitializer j) : i = j :=
  numbered_inj h

theorem ofInitializer_ne_ofFieldInitializer (i j : Int) : ofInitializer i ≠ ofFieldInitializer j := by
  intro h
  have hkey := congrArg (·.key.toList) h
  simp [ofInitializer, ofFieldInitializer, initializerStart, fieldInitializerStart] at hkey

theorem isSynthetic_numbered (i : Int) :
    (ofInitializer i).isSynthetic = true ∧ (ofFieldInitializer i).isSynthetic = true := by
  simp [isSynthetic, ofInitializer, ofFieldInitializer]

theorem mem_key_ofMethod (m : Method) : '(' ∈ (ofMethod m).key.toList := by
  simp [toList_key_ofMethod]

theorem not_mem_toString (i : Int) : '(' ∉ (toString i).toList := by
  have hdigits (n : Nat) : '(' ∉ n.repr.toList := by
    rw [Nat.toList_repr]
    intro h
    exact absurd (Nat.isDigit_of_mem_toDigits (by decide) (by decide) h) (by decide)
  rw [show toString i = i.repr from rfl, Int.repr_eq_if]
  split
  · exact hdigits i.toNat
  · simpa using hdigits (-i).toNat

theorem numbered_ne_ofMethod {start : String} (h : '(' ∉ start.toList) (i : Int) (m : Method) :
    ⟨start ++ toString i⟩ ≠ ofMethod m := by
  intro heq
  have hmem := mem_key_ofMethod m
  rw [← heq, String.toList_append, List.mem_append] at hmem
  exact hmem.elim h (not_mem_toString i)

theorem ofInitializer_ne_ofMethod (i : Int) (m : Method) : ofInitializer i ≠ ofMethod m :=
  numbered_ne_ofMethod (by decide) i m

theorem ofFieldInitializer_ne_ofMethod (i : Int) (m : Method) : ofFieldInitializer i ≠ ofMethod m :=
  numbered_ne_ofMethod (by decide) i m

-- ---------------------------------------------------------------------------
-- All keys
-- ---------------------------------------------------------------------------

/-- Methods share a key exactly when their names and their types up to type arguments agree, however deep
the arguments are nested and for any number of parameters. The name can be read off the key, and the
keys of methods, of blocks and of fields are told apart. -/
theorem keys_unambiguous (ha : a.Written Text.IsName) (hb : b.Written Text.IsName) :
    (ofMethod a = ofMethod b ↔ a.name = b.name ∧
        a.parameterTypes.map stripTypeArguments = b.parameterTypes.map stripTypeArguments) ∧
      (ofMethod a).name = a.name ∧
      (ofMethod a).isSynthetic = false ∧
      (∀ i, ofInitializer i ≠ ofMethod a ∧ ofFieldInitializer i ≠ ofMethod a) ∧
      Function.Injective ofInitializer ∧
      Function.Injective ofFieldInitializer ∧
      ∀ i j, ofInitializer i ≠ ofFieldInitializer j := by
  refine ⟨ofMethod_eq_iff ha hb, name_ofMethod ha.name, isSynthetic_ofMethod ha.name, fun i => ?_, ?_, ?_,
    ofInitializer_ne_ofFieldInitializer⟩
  · exact ⟨ofInitializer_ne_ofMethod i a, ofFieldInitializer_ne_ofMethod i a⟩
  · exact fun _ _ => ofInitializer_inj
  · exact fun _ _ => ofFieldInitializer_inj

/-- `Map<String,? super int[]>.Entry<?>[]` -/
def entries : Java.TypeRef :=
  .named (.mk "Map" [
    .exact (.named (.mk "String" []) [] 0), .bounded .super_ (.basic "int" 1)])
    [.mk "Entry" [.wildcard]] 1

/-- `java.util.List<Map<String,? super int[]>.Entry<?>[]>` -/
def entryLists : Java.TypeRef :=
  .named (.mk "java" []) [.mk "util" [], .mk "List" [.exact entries]] 0

def putAll : Method where
  name := "put"
  parameters := [
    { typeText := entries.render }, { typeText := entryLists.render ++ "...", varargs := true }]

def putPlain : Method where
  name := "put"
  parameters := [{ typeText := "Map" }, { typeText := "java.util.List" }]

theorem keys_unambiguous_put :
    putAll.Written Text.IsName ∧ putPlain.Written Text.IsName ∧
      putAll.parameterTypes = ["Map<String,? super int[]>.Entry<?>[]",
        "java.util.List<Map<String,? super int[]>.Entry<?>[]>..."] ∧
      ofMethod putAll = ofMethod putPlain ∧ (ofMethod putAll).name = "put" ∧
      (ofMethod putAll).isSynthetic = false ∧ ofInitializer 0 ≠ ofMethod putAll := by
  have hall : putAll.Written Text.IsName := by
    refine ⟨by decide, List.forall_mem_cons.mpr ⟨?_, List.forall_mem_singleton.mpr ?_⟩⟩
    · exact ⟨entries, by decide, .inl rfl⟩
    · exact ⟨entryLists, by decide, .inr rfl⟩
  have hplain : putPlain.Written Text.IsName := by
    refine ⟨by decide, List.forall_mem_cons.mpr ⟨?_, List.forall_mem_singleton.mpr ?_⟩⟩
    · exact ⟨.named (.mk "Map" []) [] 0, by decide, .inl (by decide)⟩
    · exact ⟨.named (.mk "java" []) [.mk "util" [], .mk "List" []] 0, by decide, .inl (by decide)⟩
  obtain ⟨hkeys, hname, hmethod, hnumbered, -⟩ := keys_unambiguous hall hplain
  exact ⟨hall, hplain, by decide, hkeys.mpr ⟨rfl, by decide⟩, hname, hmethod, (hnumbered 0).1⟩

end Signature

end CallerFirst
