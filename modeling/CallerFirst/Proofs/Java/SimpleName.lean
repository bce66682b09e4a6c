import CallerFirst.Java.TypeRef
import CallerFirst.Proofs.Java.Token.Words
import CallerFirst.Proofs.Search

/-!
# The simple name of a type

A round of stripping removes type arguments without arguments of their own. Stripping round by round
comes to the same as one pass that counts the brackets that are open (`dropArguments_eq`), so that
nothing from inside of brackets is left. `simple_render`: the simple name of a type that was written as
text is its last name, with as many pairs of brackets as the type itself has dimensions.
-/

namespace CallerFirst.Java

open StateTransition

-- ---------------------------------------------------------------------------
-- One pass with a count
-- ---------------------------------------------------------------------------

/-- Puts text in front of a result unless it stands within brackets. -/
def keep : (depth : Nat) → List Char → Option (List Char) → Option (List Char)
  | 0, text, result => result.map (text ++ ·)
  | _ + 1, _, result => result

/-- The text outside of all angle brackets when `depth` of them are open, if they match. -/
def outside : (depth : Nat) → List Char → Option (List Char)
  | 0, [] => some []
  | _ + 1, [] => none
  | depth, '<' :: rest => outside (depth + 1) rest
  | 0, '>' :: _ => none
  | depth + 1, '>' :: rest => outside depth rest
  | depth, c :: rest => keep depth [c] (outside depth rest)

def Unbracketed (text : List Char) : Prop :=
  '<' ∉ text ∧ '>' ∉ text

instance (text : List Char) : Decidable (Unbracketed text) :=
  inferInstanceAs (Decidable ('<' ∉ text ∧ '>' ∉ text))

def Closes (text bare : List Char) : Prop :=
  ∀ depth rest, outside depth (text ++ rest) = keep depth bare (outside depth rest)

variable {text bare a b : List Char} {c : Char} {depth n : Nat}

@[simp] theorem outside_open : outside depth ('<' :: text) = outside (depth + 1) text := by
  cases depth <;> rfl

theorem outside_cons (hopen : c ≠ '<') (hclose : c ≠ '>') :
    outside depth (c :: text) = keep depth [c] (outside depth text) := by
  rw [outside]
  all_goals simp [hopen, hclose]

theorem keep_nil (depth : Nat) (result : Option (List Char)) : keep depth [] result = result := by
  cases depth <;> simp [keep]

theorem keep_append (depth : Nat) (a b : List Char) (result : Option (List Char)) :
    keep depth (a ++ b) result = keep depth a (keep depth b result) := by
  cases depth with
  | zero => simp [keep, Function.comp_def]
  | succ depth => rfl

theorem unbracketed_cons : Unbracketed (c :: text) ↔ c ≠ '<' ∧ c ≠ '>' ∧ Unbracketed text := by
  simp only [Unbracketed, List.mem_cons, not_or]
  tauto

theorem closes_nil : Closes [] [] :=
  fun depth rest => (keep_nil depth (outside depth rest)).symm

theorem closes_of_unbracketed (h : Unbracketed text) : Closes text text := by
  induction text with
  | nil => exact closes_nil
  | cons c text ih =>
    obtain ⟨hopen, hclose, h⟩ := unbracketed_cons.mp h
    intro depth rest
    rw [List.cons_append, outside_cons hopen hclose, ih h, ← keep_append, List.singleton_append]

theorem Closes.append (h : Closes text a) (h' : Closes rest b) : Closes (text ++ rest) (a ++ b) :=
  fun depth behind => by rw [List.append_assoc, h, h', keep_append]

theorem Closes.enclosed (h : Closes text bare) : Closes ('<' :: text ++ ['>']) [] := by
  intro depth rest
  rw [List.append_assoc, List.cons_append, outside_open, h, keep_nil]
  rfl

theorem Closes.outside_eq (h : Closes text bare) : outside 0 text = some bare := by
  have := h 0 []
  simpa [outside, keep] using this

-- ---------------------------------------------------------------------------
-- One round
-- ---------------------------------------------------------------------------

namespace TypeRef

theorem dropInnermost_none_cons (hopen : c ≠ '<') :
    dropInnermost none (c :: text) = c :: dropInnermost none text := by
  rw [dropInnermost]
  exact hopen

theorem dropInnermost_some_cons {held : List Char} (hopen : c ≠ '<') (hclose : c ≠ '>') :
    dropInnermost (some held) (c :: text) = dropInnermost (some (c :: held)) text := by
  rw [dropInnermost]
  · exact hopen
  · exact hclose

/-- What a round holds back: an open bracket and plain text behind it. -/
def Held (held : List Char) : Prop :=
  ∃ plain, held = plain ++ ['<'] ∧ Unbracketed plain

theorem outside_held {held : List Char} (h : Held held) :
    outside depth (held.reverse ++ text) = outside (depth + 1) text := by
  obtain ⟨plain, rfl, hopen, hclose⟩ := h
  have hplain : Unbracketed plain.reverse := by simpa [Unbracketed] using ⟨hopen, hclose⟩
  rw [List.reverse_append, List.append_assoc]
  show outside depth ('<' :: (plain.reverse ++ text)) = _
  rw [outside_open, closes_of_unbracketed hplain]
  rfl

/-- A round removes nothing that stands outside of brackets, and all that it removes stands within. -/
theorem outside_dropInnermost (held : Option (List Char)) (text : List Char)
    (hheld : ∀ h ∈ held, Held h) (depth : Nat) :
    outside depth (dropInnermost held text) = outside depth ((held.getD []).reverse ++ text) := by
  have hnew : Held ['<'] := ⟨[], rfl, by simp [Unbracketed]⟩
  fun_induction dropInnermost held text generalizing depth with
  | case1 => rfl
  | case2 held => simp
  | case3 rest ih =>
    rw [ih (by simpa using hnew)]
    rfl
  | case4 c rest hopen ih =>
    have hrest := ih (by simp)
    simp only [Option.getD_none, List.reverse_nil, List.nil_append] at hrest ⊢
    by_cases hclose : c = '>'
    · subst hclose
      cases depth with
      | zero => rfl
      | succ depth => exact hrest depth
    · rw [outside_cons hopen hclose, outside_cons hopen hclose, hrest]
  | case5 held rest ih =>
    -- an open bracket behind another one: what was held back stays, and another depth begins
    have hheld := hheld held rfl
    rw [Option.getD_some, outside_held hheld, outside_held hheld, ih (by simpa using hnew)]
    exact (outside_held hnew).trans outside_open.symm
  | case6 held rest ih =>
    rw [ih (by simp), Option.getD_some, outside_held (hheld held rfl)]
    rfl
  | case7 held c rest hopen hclose ih =>
    obtain ⟨plain, rfl, hplain⟩ := hheld held rfl
    rw [ih (by simpa using ⟨c :: plain, rfl, unbracketed_cons.mpr ⟨hopen, hclose, hplain⟩⟩)]
    simp

theorem length_le_of_shorter (h : a = b ∨ a.length < b.length) : a.length ≤ b.length :=
  h.elim (fun h => h ▸ le_rfl) le_of_lt

theorem dropInnermost_shorter (held : Option (List Char)) (text : List Char) :
    dropInnermost held text = (held.getD []).reverse ++ text ∨
      (dropInnermost held text).length < ((held.getD []).reverse ++ text).length := by
  fun_induction dropInnermost held text with
  | case1 => simp
  | case2 held => simp
  | case3 rest ih => exact ih
  | case4 c rest _ ih => simpa using ih
  | case5 held rest ih =>
    refine ih.imp (fun h => by simp [h]) fun h => ?_
    simp only [Option.getD_some, List.length_append, List.length_reverse, List.length_cons,
      List.length_nil] at h ⊢
    omega
  | case6 held rest ih =>
    -- what was held back is gone, and the closing bracket with it
    have hle := length_le_of_shorter ih
    simp only [Option.getD_none, Option.getD_some, List.reverse_nil, List.nil_append,
      List.length_append, List.length_cons] at hle ⊢
    exact .inr (by omega)
  | case7 held c rest _ _ ih => simpa using ih

theorem dropInnermost_held_lt (held : List Char) (h : outside (depth + 1) text = some bare) :
    (dropInnermost (some held) text).length < held.length + text.length := by
  induction text generalizing depth held with
  | nil => cases h
  | cons c rest ih =>
    by_cases hopen : c = '<'
    · subst hopen
      rw [outside_open] at h
      have hrest := ih ['<'] h
      simp only [dropInnermost, List.length_append, List.length_reverse, List.length_cons,
        List.length_nil] at hrest ⊢
      omega
    · by_cases hclose : c = '>'
      · subst hclose
        have hrest := length_le_of_shorter (dropInnermost_shorter none rest)
        simp only [Option.getD_none, List.reverse_nil, List.nil_append, dropInnermost,
          List.length_cons] at hrest ⊢
        omega
      · rw [outside_cons hopen hclose] at h
        rw [dropInnermost_some_cons hopen hclose, List.length_cons, Nat.add_left_comm, Nat.add_comm]
        exact ih (c :: held) h

theorem eq_outside_of_fixed (hfixed : dropInnermost none text = text)
    (h : outside 0 text = some bare) : text = bare := by
  induction text generalizing bare with
  | nil => exact Option.some.inj h
  | cons c rest ih =>
    by_cases hopen : c = '<'
    · subst hopen
      rw [outside_open] at h
      have hlt := dropInnermost_held_lt ['<'] h
      have hsame : dropInnermost (some ['<']) rest = '<' :: rest := hfixed
      rw [hsame, List.length_cons, List.length_singleton, Nat.add_comm] at hlt
      exact absurd hlt (lt_irrefl _)
    · by_cases hclose : c = '>'
      · subst hclose
        cases h
      · rw [dropInnermost_none_cons hopen] at hfixed
        rw [outside_cons hopen hclose] at h
        obtain ⟨bare, hrest, rfl⟩ := Option.map_eq_some_iff.mp h
        exact congrArg (c :: ·) (ih (List.cons.inj hfixed).2 hrest)

-- ---------------------------------------------------------------------------
-- All rounds
-- ---------------------------------------------------------------------------

def strip (text : List Char) : Option (List Char) :=
  if dropInnermost none text = text then none else some (dropInnermost none text)

theorem dropArguments_eq_runFor (fuel : Nat) (text : List Char) :
    dropArguments fuel text = runFor strip fuel text := by
  induction fuel generalizing text with
  | zero => rfl
  | succ fuel ih =>
    rw [dropArguments, runFor, strip]
    split
    · simp [*]
    · simp [*]

theorem strip_shorter {next : List Char} (h : strip text = some next) :
    next.length < text.length := by
  unfold strip at h
  split at h
  · cases h
  · rename_i hne
    obtain rfl := Option.some.inj h
    simpa using (dropInnermost_shorter none text).resolve_left (by simpa using hne)

theorem dropArguments_mem_eval (text : List Char) :
    dropArguments text.length text ∈ eval strip text := by
  rw [dropArguments_eq_runFor]
  exact runFor_mem_eval List.length (fun _ _ => strip_shorter) le_rfl

theorem outside_strip {next : List Char} (h : strip text = some next) :
    outside depth next = outside depth text := by
  unfold strip at h
  split at h
  · cases h
  · obtain rfl := Option.some.inj h
    exact outside_dropInnermost none text (by simp) depth

/-- All rounds together leave what one pass with a count leaves. -/
theorem dropArguments_eq (h : outside 0 text = some bare) : dropArguments text.length text = bare := by
  have heval := dropArguments_mem_eval text
  have hkept := eval_keeps (P := fun next => outside 0 next = some bare)
    (fun _ _ hnext h => (outside_strip hnext).trans h) heval h
  have hstop := (mem_eval.mp heval).2
  refine eq_outside_of_fixed ?_ hkept
  by_contra hne
  simp [strip, hne] at hstop

-- ---------------------------------------------------------------------------
-- Names
-- ---------------------------------------------------------------------------

def Spelled (names : List String) : Prop :=
  ∀ name ∈ names, Text.isIdentifier name.toList = true

theorem spelled_append {names names' : List String} :
    Spelled (names ++ names') ↔ Spelled names ∧ Spelled names' :=
  List.forall_mem_append

theorem not_mem_of_isIdentifier {name : List Char} (h : Text.isIdentifier name = true)
    (hc : Text.isIdentifierPart c = false) : c ∉ name :=
  fun hmem => Bool.false_ne_true (hc.symm.trans (Text.isIdentifierPart_of_mem h hmem))

theorem unbracketed_of_isIdentifier {name : List Char} (h : Text.isIdentifier name = true) :
    Unbracketed name :=
  ⟨not_mem_of_isIdentifier h (by decide), not_mem_of_isIdentifier h (by decide)⟩

end TypeRef

mutual
def TypeRef.names : TypeRef → List String
  | .basic name _ => [name]
  | .named first more _ => first.names ++ segmentNames more
def Segment.names : Segment → List String
  | .mk name arguments => name :: argumentNames arguments
def TypeArgument.names : TypeArgument → List String
  | .wildcard => []
  | .bounded _ type => type.names
  | .exact type => type.names
def segmentNames : List Segment → List String
  | [] => []
  | s :: rest => s.names ++ segmentNames rest
def argumentNames : List TypeArgument → List String
  | [] => []
  | a :: rest => a.names ++ argumentNames rest
end

theorem Segment.name_mem_names (s : Segment) : s.name ∈ s.names := by
  cases s
  exact List.mem_cons_self

theorem name_mem_segmentNames {more : List Segment} {s : Segment} (h : s ∈ more) :
    s.name ∈ segmentNames more := by
  induction more with
  | nil => cases h
  | cons first more ih =>
    rw [segmentNames, List.mem_append]
    rcases List.mem_cons.mp h with rfl | h
    · exact .inl s.name_mem_names
    · exact .inr (ih h)

-- ---------------------------------------------------------------------------
-- Types as text
-- ---------------------------------------------------------------------------

def segmentPath (more : List Segment) : List Char :=
  more.flatMap fun s => '.' :: s.name.toList

def TypeRef.path : TypeRef → List Char
  | .basic name n => name.toList ++ (brackets n).toList
  | .named first more n => first.name.toList ++ segmentPath more ++ (brackets n).toList

theorem TypeRef.toList_brackets (n : Nat) :
    (brackets n).toList = (List.replicate n ['[', ']']).flatten := by
  rw [brackets, String.toList_ofList]

theorem TypeRef.unbracketed_brackets (n : Nat) : Unbracketed (brackets n).toList := by
  rw [toList_brackets]
  refine ⟨fun h => ?_, fun h => ?_⟩
  all_goals
    obtain ⟨pair, hpair, hmem⟩ := List.mem_flatten.mp h
    obtain rfl := List.eq_of_mem_replicate hpair
    simp at hmem

mutual
theorem TypeRef.closes_render : (t : TypeRef) → TypeRef.Spelled t.names →
    Closes t.render.toList t.path
  | .basic name n, h => by
    have hname := TypeRef.unbracketed_of_isIdentifier (h name List.mem_cons_self)
    simpa [TypeRef.render, TypeRef.path] using (closes_of_unbracketed hname).append
      (closes_of_unbracketed (TypeRef.unbracketed_brackets n))
  | .named first more n, h => by
    obtain ⟨hfirst, hmore⟩ := TypeRef.spelled_append.mp h
    simpa [TypeRef.render, TypeRef.path] using ((first.closes_render hfirst).append
      (closes_renderSegments more hmore)).append (closes_of_unbracketed (TypeRef.unbracketed_brackets n))
theorem Segment.closes_render : (s : Segment) → TypeRef.Spelled s.names →
    Closes s.render.toList s.name.toList
  | .mk name [], h =>
    closes_of_unbracketed (TypeRef.unbracketed_of_isIdentifier (h name List.mem_cons_self))
  | .mk name (a :: rest), h => by
    have hname := TypeRef.unbracketed_of_isIdentifier (h name List.mem_cons_self)
    obtain ⟨ha, hrest⟩ := TypeRef.spelled_append.mp (List.forall_mem_cons.mp h).2
    obtain ⟨_, ha⟩ := a.closes_render ha
    obtain ⟨_, hrest⟩ := closes_renderArguments rest hrest
    simpa [Segment.render, Segment.name] using
      (closes_of_unbracketed hname).append (ha.append hrest).enclosed
theorem TypeArgument.closes_render : (a : TypeArgument) → TypeRef.Spelled a.names →
    ∃ bare, Closes a.render.toList bare
  | .wildcard, _ => by
    have hmark : Unbracketed ['?'] := by decide
    exact ⟨_, closes_of_unbracketed hmark⟩
  | .bounded bound type, h => by
    have hword : Unbracketed ("? " ++ bound.word ++ " ").toList := by cases bound <;> decide
    exact ⟨_, by simpa [TypeArgument.render] using
      (closes_of_unbracketed hword).append (type.closes_render h)⟩
  | .exact type, h => ⟨_, type.closes_render h⟩
theorem closes_renderSegments : (more : List Segment) → TypeRef.Spelled (segmentNames more) →
    Closes (renderSegments more).toList (segmentPath more)
  | [], _ => closes_nil
  | s :: rest, h => by
    obtain ⟨hs, hrest⟩ := TypeRef.spelled_append.mp h
    have hdot : Unbracketed ['.'] := by decide
    simpa [renderSegments, segmentPath] using (closes_of_unbracketed hdot).append
      ((s.closes_render hs).append (closes_renderSegments rest hrest))
theorem closes_renderArguments : (arguments : List TypeArgument) →
    TypeRef.Spelled (argumentNames arguments) →
    ∃ bare, Closes (renderArguments arguments).toList bare
  | [], _ => ⟨_, closes_nil⟩
  | a :: rest, h => by
    obtain ⟨ha, hrest⟩ := TypeRef.spelled_append.mp h
    obtain ⟨_, ha⟩ := a.closes_render ha
    obtain ⟨_, hrest⟩ := closes_renderArguments rest hrest
    have hcomma : Unbracketed [','] := by decide
    exact ⟨_, by simpa [renderArguments] using (closes_of_unbracketed hcomma).append (ha.append hrest)⟩
end

namespace TypeRef

-- ---------------------------------------------------------------------------
-- The last name
-- ---------------------------------------------------------------------------

theorem splitBrackets_brackets (n : Nat) : splitBrackets (brackets n).toList = (n, []) := by
  rw [toList_brackets]
  induction n with
  | zero => rfl
  | succ n ih => simp [List.replicate_succ, splitBrackets, ih]

theorem splitBrackets_append (h : '[' ∉ text) (rest : List Char) :
    splitBrackets (text ++ rest) = ((splitBrackets rest).1, text ++ (splitBrackets rest).2) := by
  induction text with
  | nil => rfl
  | cons c text ih =>
    obtain ⟨hc, h⟩ := not_or.mp (mt List.mem_cons.mpr h)
    rw [List.cons_append, splitBrackets, ih h]
    · rfl
    · rintro _ rfl
      exact absurd rfl hc

theorem takeWhile_reverse (h : '.' ∉ text) : text.reverse.takeWhile (· != '.') = text.reverse := by
  refine List.takeWhile_eq_self_iff.mpr fun c hc => ?_
  simpa using fun heq : c = '.' => h (heq ▸ List.mem_reverse.mp hc)

theorem lastSegment_of_not_mem (h : '.' ∉ text) : lastSegment text = text := by
  rw [lastSegment, takeWhile_reverse h, List.reverse_reverse]

theorem lastSegment_append (h : '.' ∉ text) (front : List Char) :
    lastSegment (front ++ '.' :: text) = text := by
  simp [lastSegment, List.takeWhile_append, takeWhile_reverse h]

def lastName : TypeRef → String
  | basic name _ => name
  | named first more _ => (more.getLastD first).name

theorem lastSegment_path {first : Segment} {more : List Segment}
    (hfirst : '.' ∉ first.name.toList) (hmore : ∀ s ∈ more, '.' ∉ s.name.toList) :
    lastSegment (first.name.toList ++ segmentPath more) = (more.getLastD first).name.toList := by
  rcases List.eq_nil_or_concat more with rfl | ⟨front, last, rfl⟩
  · simpa [segmentPath] using lastSegment_of_not_mem hfirst
  · have hlast := hmore last (by simp)
    simpa [segmentPath] using
      lastSegment_append hlast (first.name.toList ++ segmentPath front)

theorem simple_eq_of_path {base : List Char} {t : TypeRef} (hspelled : Spelled t.names)
    (hpath : t.path = base ++ (brackets t.dimensions).toList) (hbase : '[' ∉ base)
    (hlast : lastSegment base = t.lastName.toList) :
    simple t.render = t.lastName ++ brackets t.dimensions := by
  have hdrop : dropArguments t.render.length t.render.toList = base ++ (brackets t.dimensions).toList :=
    hpath ▸ dropArguments_eq (t.closes_render hspelled).outside_eq
  rw [simple, hdrop, splitBrackets_append hbase, splitBrackets_brackets]
  simp [hlast]

/-- Stripping a type that was written as text comes to its end, and the simple name is the last name with
one pair of brackets for each dimension of the type itself. -/
theorem simple_render (t : TypeRef) (h : ∀ name ∈ t.names, Text.isIdentifier name.toList = true) :
    dropArguments t.render.length t.render.toList ∈ eval strip t.render.toList ∧
      simple t.render = t.lastName ++ brackets t.dimensions := by
  refine ⟨dropArguments_mem_eval t.render.toList, ?_⟩
  cases t with
  | basic name n =>
    have hname := h name List.mem_cons_self
    exact simple_eq_of_path h rfl (not_mem_of_isIdentifier hname (by decide))
      (lastSegment_of_not_mem (not_mem_of_isIdentifier hname (by decide)))
  | named first more n =>
    obtain ⟨hfirst, hmore⟩ := spelled_append.mp h
    have hfirst := hfirst _ first.name_mem_names
    have hmore (s : Segment) (hs : s ∈ more) := hmore _ (name_mem_segmentNames hs)
    refine simple_eq_of_path h rfl ?_ (lastSegment_path (not_mem_of_isIdentifier hfirst (by decide))
      fun s hs => not_mem_of_isIdentifier (hmore s hs) (by decide))
    rw [List.mem_append, not_or, segmentPath, List.mem_flatMap]
    refine ⟨not_mem_of_isIdentifier hfirst (by decide), ?_⟩
    rintro ⟨s, hs, hmem⟩
    exact (List.mem_cons.mp hmem).elim (by decide)
      (not_mem_of_isIdentifier (hmore s hs) (by decide))

/-- `java.util.Map<java.lang.String[],? extends List<int[]>>.Entry<?>[][]` -/
def nestedArguments : TypeRef :=
  .named (.mk "java" []) [
    .mk "util" [],
    .mk "Map" [
      .exact (.named (.mk "java" []) [.mk "lang" [], .mk "String" []] 1),
      .bounded .extends_ (.named (.mk "List" [.exact (.basic "int" 1)]) [] 0)],
    .mk "Entry" [.wildcard]] 2

theorem simple_render_nestedArguments :
    (∀ name ∈ nestedArguments.names, Text.isIdentifier name.toList = true) ∧
      nestedArguments.render =
        "java.util.Map<java.lang.String[],? extends List<int[]>>.Entry<?>[][]" ∧
      dropArguments nestedArguments.render.length nestedArguments.render.toList ∈
        eval strip nestedArguments.render.toList ∧
      simple nestedArguments.render = "Entry[][]" := by
  have hnames : ∀ name ∈ nestedArguments.names, Text.isIdentifier name.toList = true := by decide
  obtain ⟨hends, hsimple⟩ := simple_render nestedArguments hnames
  exact ⟨hnames, by decide, hends, hsimple.trans (by decide)⟩

end TypeRef

end CallerFirst.Java
