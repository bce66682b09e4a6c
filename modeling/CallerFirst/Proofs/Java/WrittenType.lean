import CallerFirst.Java.TypeRef
import CallerFirst.Proofs.Java.Token.Words
import CallerFirst.Signature

/-!
# Types in headers

Type arguments may hold any sign, and blanks. In front of the first of them, the text of a type is made of
the names of the type itself, dots and brackets, so that no blank, comma or parenthesis is left where the
arguments are dropped (`TypeRef.Writes.strip`).
-/

namespace CallerFirst

namespace Java

-- ---------------------------------------------------------------------------
-- Names and texts
-- ---------------------------------------------------------------------------

/-- Names of a type, those in its arguments aside. -/
def TypeRef.ownNames : TypeRef → List String
  | .basic name _ => [name]
  | .named first more _ => (first :: more).map Segment.name

def TypeRef.Named (spelled : String → Prop) (t : TypeRef) : Prop :=
  ∀ name ∈ t.ownNames, spelled name

instance {spelled : String → Prop} [DecidablePred spelled] (t : TypeRef) :
    Decidable (t.Named spelled) :=
  inferInstanceAs (Decidable (∀ name ∈ t.ownNames, spelled name))

theorem TypeRef.Named.addDimensions {spelled : String → Prop} {t : TypeRef} (h : t.Named spelled)
    (n : Nat) : (t.addDimensions n).Named spelled := by
  cases t <;> exact h

/-- Texts of types whose names have a property. Behind a type that stands for any number of arguments are
three dots. The text of a missing type, `void`, is that of a basic type. -/
def TypeRef.Writes (spelled : String → Prop) (text : String) : Prop :=
  ∃ t : TypeRef, t.Named spelled ∧ (text = t.render ∨ text = t.render ++ "...")

end Java

structure Method.Written (spelled : String → Prop) (m : Method) : Prop where
  name : spelled m.name
  types : ∀ text ∈ m.parameterTypes, Java.TypeRef.Writes spelled text

namespace Java

-- ---------------------------------------------------------------------------
-- In front of the first argument
-- ---------------------------------------------------------------------------

/-- Parts of identifiers, and the signs between and behind the names of a type. -/
def isTypeChar (c : Char) : Bool :=
  Text.isIdentifierPart c || ['.', '[', ']'].contains c

def PlainFront (text : List Char) : Prop :=
  ∀ c ∈ text.takeWhile (· != '<'), isTypeChar c = true

variable {a b text : List Char}

theorem plainFront_of_forall (h : ∀ c ∈ text, isTypeChar c = true) : PlainFront text :=
  fun c hc => h c (List.takeWhile_subset _ hc)

theorem plainFront_of_isName {name : String} (h : Text.IsName name) : PlainFront name.toList :=
  plainFront_of_forall fun c hc => by simp [isTypeChar, Text.isIdentifierPart_of_mem h hc]

theorem plainFront_open (text : List Char) : PlainFront ('<' :: text) := by
  simp [PlainFront]

theorem PlainFront.append (ha : PlainFront a) (hb : PlainFront b) : PlainFront (a ++ b) := by
  intro c hc
  rw [List.takeWhile_append] at hc
  split at hc
  · rename_i hlength
    rcases List.mem_append.mp hc with hc | hc
    · rw [← (List.takeWhile_prefix _).eq_of_length hlength] at hc
      exact ha c hc
    · exact hb c hc
  · exact ha c hc

theorem Segment.plainFront_render {s : Segment} (h : Text.IsName s.name) :
    PlainFront s.render.toList := by
  obtain ⟨name, arguments⟩ := s
  have hname := plainFront_of_isName h
  cases arguments with
  | nil => exact hname
  | cons a rest =>
    simpa [Segment.render, Segment.name] using
      hname.append (plainFront_open ((a.render ++ renderArguments rest).toList ++ ['>']))

theorem plainFront_renderSegments {more : List Segment} (h : ∀ s ∈ more, Text.IsName s.name) :
    PlainFront (renderSegments more).toList := by
  induction more with
  | nil => simp [renderSegments, PlainFront]
  | cons s rest ih =>
    obtain ⟨hs, hrest⟩ := List.forall_mem_cons.mp h
    have hdot : PlainFront ['.'] := plainFront_of_forall (by simp [isTypeChar])
    simpa [renderSegments] using (hdot.append (s.plainFront_render hs)).append (ih hrest)

namespace TypeRef

variable {t : TypeRef} {typeText : String}

theorem plainFront_brackets (n : Nat) : PlainFront (brackets n).toList := by
  rw [brackets, String.toList_ofList]
  refine plainFront_of_forall fun c hc => ?_
  obtain ⟨pair, hpair, hc⟩ := List.mem_flatten.mp hc
  obtain rfl := List.eq_of_mem_replicate hpair
  rcases List.mem_pair.mp hc with rfl | rfl <;> decide

theorem plainFront_render (h : t.Named Text.IsName) : PlainFront t.render.toList := by
  cases t with
  | basic name n =>
    have hname := plainFront_of_isName (h name List.mem_cons_self)
    simpa [render] using hname.append (plainFront_brackets n)
  | named first more n =>
    obtain ⟨hfirst, hmore⟩ := List.forall_mem_cons.mp (List.forall_mem_map.mp h)
    simpa [render] using ((first.plainFront_render hfirst).append
      (plainFront_renderSegments hmore)).append (plainFront_brackets n)

theorem exists_name_render (t : TypeRef) :
    ∃ name ∈ t.ownNames, ∃ rest, t.render.toList = name.toList ++ rest := by
  cases t with
  | basic name n => exact ⟨name, List.mem_cons_self, _, by rw [render, String.toList_append]⟩
  | named first more n =>
    obtain ⟨name, arguments⟩ := first
    refine ⟨name, List.mem_cons_self, ?_⟩
    cases arguments <;> simp [render, Segment.render, List.append_assoc]

theorem Writes.strip (h : Writes Text.IsName typeText) :
    (Signature.stripTypeArguments typeText).toList ≠ [] ∧
      ∀ c ∈ (Signature.stripTypeArguments typeText).toList, isTypeChar c = true := by
  obtain ⟨t, hnames, htext⟩ := h
  have hplain : PlainFront typeText.toList := by
    have hdots : PlainFront "...".toList := plainFront_of_forall (by simp [isTypeChar])
    rcases htext with rfl | rfl
    · exact plainFront_render hnames
    · rw [String.toList_append]
      exact (plainFront_render hnames).append hdots
  obtain ⟨name, hname, rest, hrender⟩ := t.exists_name_render
  obtain ⟨behind, hbehind⟩ : ∃ behind, typeText.toList = name.toList ++ behind := by
    rcases htext with rfl | rfl
    · exact ⟨rest, hrender⟩
    · exact ⟨rest ++ "...".toList, by rw [String.toList_append, hrender, List.append_assoc]⟩
  rw [Signature.stripTypeArguments, String.toList_ofList]
  refine ⟨?_, hplain⟩
  obtain ⟨c, cs, hc, hstart⟩ := Text.exists_cons_of_isName (hnames name hname)
  have hne : c ≠ '<' := by
    rintro rfl
    exact absurd hstart (by decide)
  simp [hbehind, hc, hne]

end TypeRef

end Java

end CallerFirst
