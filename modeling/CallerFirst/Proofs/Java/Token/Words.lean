import CallerFirst.Proofs.Java.Token.Reads

/-!
# Identifiers

`ofSource_spells`: a token that is an identifier, or the name of a basic type, is spelled as an
identifier. Such a text is not empty, and no sign and no parenthesis stands in it.
-/

namespace CallerFirst

def Text.isIdentifier : List Char → Bool
  | [] => false
  | c :: rest => isIdentifierStart c && rest.all isIdentifierPart

abbrev Text.IsName (text : String) : Prop :=
  isIdentifier text.toList = true

theorem Text.isIdentifierPart_of_mem {name : List Char} (h : isIdentifier name = true) (hc : c ∈ name) :
    isIdentifierPart c = true := by
  cases name with
  | nil => cases hc
  | cons first rest =>
    simp only [isIdentifier, Bool.and_eq_true, List.all_eq_true] at h
    rcases List.mem_cons.mp hc with rfl | hc
    · simp [isIdentifierPart, h.1]
    · exact h.2 c hc

theorem Text.exists_cons_of_isName {text : String} (h : IsName text) :
    ∃ c rest, text.toList = c :: rest ∧ isIdentifierStart c = true := by
  unfold IsName at h
  cases htext : text.toList with
  | nil => simp [htext, isIdentifier] at h
  | cons c rest =>
    rw [htext, isIdentifier, Bool.and_eq_true] at h
    exact ⟨c, rest, rfl, h.1⟩

namespace Java

def TokenKind.isName : TokenKind → Bool
  | .identifier | .basicType => true
  | _ => false

namespace Token

variable {c : Char} {a b : List Char} {kind : TokenKind} {i n : Nat} {ts : List Lexeme}

def Spells (spelled : String → Prop) (t : Token) : Prop :=
  t.kind.isName = true → spelled t.text

theorem pieceAt_name (hpiece : pieceAt i c a = .ok (.token kind n)) (hkind : kind.isName = true) :
    Text.isIdentifier ((c :: a).take n) = true := by
  unfold pieceAt at hpiece
  -- tokens of all other branches are of another kind
  refine of_ite ?_ (fun _ => of_ite ?_ fun _ => of_ite ?_ fun _ => of_ite ?_ fun _ => of_ite ?_ fun _ =>
    of_ite ?_ fun _ => of_ite ?_ fun _ => of_ite ?_ fun _ => of_ite ?_ fun _ => of_ite ?_ fun _ h => ?_)
    hpiece
  · rintro - ⟨⟩
  · rintro - ⟨⟩
  · intro _ h
    split at h <;> cases h
  · rintro - ⟨⟩
    cases hkind
  · rintro - ⟨⟩
    cases hkind
  · intro _ h
    obtain ⟨_, -, h⟩ := numberPiece_eq_ok h
    cases h
    cases hkind
  · rintro - ⟨⟩
    cases hkind
  · intro _ h
    split at h <;> cases h
    cases hkind
  · intro _ h
    obtain ⟨_, -, h⟩ := numberPiece_eq_ok h
    cases h
    cases hkind
  · intro hstart h
    obtain rfl : (a.takeWhile Text.isIdentifierPart).length + 1 = n := by
      simpa using (Piece.token.inj (Except.ok.inj h)).2
    have htake : a.take (a.takeWhile Text.isIdentifierPart).length = a.takeWhile Text.isIdentifierPart :=
      (List.prefix_iff_eq_take.mp (List.takeWhile_prefix _)).symm
    simp only [List.take_succ_cons, htake, Text.isIdentifier, hstart, Bool.true_and, List.all_eq_true]
    exact fun d hd => List.mem_takeWhile_imp hd
  · split at h <;> cases h
    cases hkind

theorem Reads.isIdentifier (h : Reads a ts b) :
    ∀ t ∈ ts, t.1.isName = true → Text.isIdentifier t.2.toList = true := by
  induction h with
  | done => simp
  | blank _ _ ih => exact ih
  | @piece c a p ts b _ hp _ ih =>
    intro t ht hkind
    rcases List.mem_append.mp ht with ht | ht
    · cases p with
      | gap => cases ht
      | token kind n =>
        obtain rfl := List.mem_singleton.mp ht
        simpa using pieceAt_name hp hkind
    · exact ih t ht hkind

theorem ofSource_spells (h : ofSource source = .ok tokens) :
    ∀ t ∈ tokens, t.Spells fun name => Text.isIdentifier name.toList = true := by
  unfold ofSource at h
  split at h
  · intro t ht hkind
    have hreads := scan_iff_reads.mp ⟨tokens, h, rfl⟩
    exact hreads.isIdentifier t.lexeme (List.mem_map_of_mem ht) hkind
  · cases h
  · cases h

end Token

end Java

end CallerFirst
