import CallerFirst.Proofs.Yaml.Lines
import CallerFirst.Yaml.Reader

/-!
# Reading what was written

The tokens of a written map make up one document, whose value is the map: `read` undoes `write` for
maps whose keys are different words (`read_write`).
-/

namespace CallerFirst.Yaml

/-! ### Nodes -/

def scalarNode (v : Value) : Node :=
  .scalar (scalarTag v) ⟨scalarText v, false⟩

mutual
def valueNode : Value → Node
  | .map entries => .map Tag.map (pairNodes entries)
  | v => scalarNode v
def pairNodes : List (Value × Value) → List (Node × Node)
  | [] => []
  | (key, v) :: rest => (scalarNode key, valueNode v) :: pairNodes rest
end

theorem valueNode_scalar {v : Value} (hv : IsScalar v) : valueNode v = scalarNode v := by
  cases hv <;> rfl

section

variable {tokens : List Token} {handles : List (String × String)} {anchors : List (String × Node)}
  {v : Value} {fuel : Nat}

theorem scalarTag_bare (hv : IsScalar v) :
    ({} : Properties).scalarTag (scalarText v) (isWrittenPlain v) = scalarTag v := by
  rcases hv.toList_writeScalar with ⟨hplain, -⟩ | rfl
  · rw [hplain, ← hv.implicitTag_scalarText hplain]
    rfl
  · rfl

theorem node_scalar (hv : IsScalar v) (mayLoose : Bool) (fuel : Nat) :
    node true mayLoose (fuel + 1) ⟨scalarToken v :: tokens, handles, anchors⟩ =
      .ok (scalarNode v, ⟨tokens, handles, anchors⟩) := by
  rw [scalarNode, ← scalarTag_bare hv]
  rfl

theorem node_map (mayLoose : Bool) {pairs : List (Node × Node)} {rest : List Token}
    (h : blockPairs fuel ⟨tokens, handles, anchors⟩ = .ok (pairs, ⟨rest, handles, anchors⟩)) :
    node true mayLoose (fuel + 1) ⟨.blockMap :: tokens, handles, anchors⟩ =
      .ok (.map Tag.map pairs, ⟨rest, handles, anchors⟩) := by
  show (do
    let read ← blockPairs fuel ⟨tokens, handles, anchors⟩
    return (Node.map Tag.map read.1, read.2)) = _
  rw [h]
  rfl

theorem blockPairs_cons {key : Value} (hkey : IsScalar key) {value : Node} {first : Token}
    {rest more : List Token} {pairs : List (Node × Node)} (hfirst : endsBlockPart first = false)
    (hvalue : node true true fuel ⟨first :: tokens, handles, anchors⟩ =
      .ok (value, ⟨rest, handles, anchors⟩))
    (hrest : blockPairs (fuel + 2) ⟨rest, handles, anchors⟩ =
      .ok (pairs, ⟨more, handles, anchors⟩)) :
    blockPairs (fuel + 3)
        ⟨.key :: scalarToken key :: .value :: first :: tokens, handles, anchors⟩ =
      .ok ((scalarNode key, value) :: pairs, ⟨more, handles, anchors⟩) := by
  have hkeyed : nodeUnless endsBlockPart true true (fuel + 2)
      ⟨scalarToken key :: .value :: first :: tokens, handles, anchors⟩ =
      .ok (scalarNode key, ⟨.value :: first :: tokens, handles, anchors⟩) :=
    node_scalar hkey true fuel
  have hvalued : valueUnless endsBlockPart true (fuel + 2)
      ⟨.value :: first :: tokens, handles, anchors⟩ = .ok (value, ⟨rest, handles, anchors⟩) := by
    rw [← hvalue]
    show (do if endsBlockPart first then return _ else node true true fuel _) = _
    rw [hfirst]
    rfl
  rw [blockPairs]
  show (do
    let key ← nodeUnless endsBlockPart true true (fuel + 2)
      ⟨scalarToken key :: .value :: first :: tokens, handles, anchors⟩
    let value ← valueUnless endsBlockPart true (fuel + 2) key.2
    let pairs ← blockPairs (fuel + 2) value.2
    return ((key.1, value.1) :: pairs.1, pairs.2)) = _
  simp only [hkeyed, hvalued, hrest, ok_bind]
  rfl

theorem blockPairs_pairTokens {entries : List (Value × Value)} (h : IsRecord entries)
    {fuel : Nat} (hfuel : (pairTokens entries).length < fuel) (more : List Token) :
    blockPairs fuel ⟨pairTokens entries ++ .blockEnd :: more, handles, anchors⟩ =
      .ok (pairNodes entries, ⟨more, handles, anchors⟩) := by
  -- a pair has at least three tokens of its own, which pays for the steps down to its nodes
  induction h generalizing fuel more with
  | nil =>
    obtain ⟨fuel, rfl⟩ := Nat.exists_eq_add_of_le' hfuel
    rfl
  | @scalar key v rest hkey hv hrest ih =>
    simp only [pairTokens, valueTokens_scalar hv, List.length_cons, List.length_append] at hfuel
    obtain ⟨fuel, rfl⟩ := Nat.exists_eq_add_of_le' (show 4 ≤ fuel by omega)
    rw [pairNodes, valueNode_scalar hv, pairTokens, valueTokens_scalar hv]
    exact blockPairs_cons (.word hkey.word) rfl (node_scalar hv true _) (ih (by omega) more)
  | @record key inner rest hkey hne hinner hrest ihinner ih =>
    simp only [pairTokens, valueTokens, List.length_cons, List.length_append] at hfuel
    obtain ⟨fuel, rfl⟩ := Nat.exists_eq_add_of_le' (show 4 ≤ fuel by omega)
    rw [pairNodes, valueNode, pairTokens, valueTokens]
    simp only [List.cons_append, List.append_assoc, List.nil_append]
    exact blockPairs_cons (.word hkey.word) rfl (node_map true (ihinner (by omega) _))
      (ih (by omega) more)

theorem document_pairTokens {entries : List (Value × Value)} (h : IsRecord entries) :
    document (.blockMap :: (pairTokens entries ++ [.blockEnd, .streamEnd])) =
      .ok (some (.map Tag.map (pairNodes entries))) := by
  have hnode :
      documentNode { tokens := .blockMap :: (pairTokens entries ++ [.blockEnd, .streamEnd]) } =
        .ok (.map Tag.map (pairNodes entries), { tokens := [.streamEnd] }) := by
    rw [documentNode]
    exact node_map false (blockPairs_pairTokens h (by simp; omega) [.streamEnd])
  rw [document]
  show (do
    let read ← (do
      let read ← documentNode _
      return (some read.1, read.2))
    finish read.2.tokens
    return read.1) = _
  rw [hnode]
  rfl

end

/-! ### Maps of values -/

theorem eq_of_sameKey {key : String} {v : Value} (h : sameKey (.text key) v = true) :
    v = .text key := by
  cases v <;> simp_all [sameKey, number?]

theorem insertPair_new {entries : List (Value × Value)} {pair : Value × Value}
    (h : ∀ e ∈ entries, sameKey e.1 pair.1 = false) :
    insertPair entries pair = entries ++ [pair] := by
  rw [insertPair, if_neg]
  simpa using h

theorem foldl_insertPair (acc : List (Value × Value)) {entries : List (Value × Value)}
    (h : (acc ++ entries).Pairwise fun a b => sameKey a.1 b.1 = false) :
    entries.foldl insertPair acc = acc ++ entries := by
  induction entries generalizing acc with
  | nil => simp
  | cons pair rest ih =>
    have hnew := (List.pairwise_append.1 h).2.2
    rw [List.foldl_cons, insertPair_new fun e he => hnew e he pair List.mem_cons_self,
      ih _ (by simpa using h)]
    simp

theorem IsRecord.pairwise {entries : List (Value × Value)} (h : IsRecord entries) :
    entries.Pairwise fun a b => sameKey a.1 b.1 = false := by
  have hnew {key : String} {rest : List (Value × Value)} (hkey : IsNewKey key rest) :
      ∀ pair ∈ rest, sameKey (.text key) pair.1 = false := fun pair hpair =>
    Bool.eq_false_iff.2 fun heq => hkey.fresh pair hpair (eq_of_sameKey heq)
  induction h with
  | nil => exact .nil
  | scalar hkey _ _ ih => exact .cons (hnew hkey) ih
  | record hkey _ _ _ _ ih => exact .cons (hnew hkey) ih

/-! ### Values of nodes -/

theorem build_scalar {v : Value} (hv : IsScalar v) (depth level : Nat) :
    build (depth + 1) level (scalarNode v) = { value := v } := by
  have hbuild : build (depth + 1) level (scalarNode v) =
      .ofExcept level (scalarValue (scalarTag v) ⟨scalarText v, false⟩) := by
    cases hv <;> rfl
  rw [hbuild, hv.scalarValue_scalarText]
  rfl

theorem mergedPairs?_cons {key value : Node} {rest others own : List (Node × Node)}
    (hkey : (key.tag? == some Tag.merge) = false)
    (hrest : Node.mergedPairs? rest = some (others, own)) :
    Node.mergedPairs? ((key, value) :: rest) = some (others, (key, value) :: own) := by
  -- the definition has no equation of its own, as it looks into values that are lists
  cases value <;>
  · conv_lhs => whnf
    simp only [hrest, hkey]
    rfl

theorem mergedPairs?_pairNodes {entries : List (Value × Value)} (h : IsRecord entries) :
    Node.mergedPairs? (pairNodes entries) = some ([], pairNodes entries) := by
  induction h with
  | nil => rfl
  | scalar _ _ _ ih => exact mergedPairs?_cons rfl ih
  | record _ _ _ _ _ ih => exact mergedPairs?_cons rfl ih

def builtPairs (depth level : Nat) (pairs : List (Node × Node)) : Built (List (Value × Value)) :=
  .sequence (pairs.map fun (k, v) =>
    .entry level (build depth level k.asKey) (build depth level v))

theorem build_map {entries : List (Value × Value)} (h : IsRecord entries) {depth level : Nat}
    (hpairs : builtPairs depth (level + 1) (pairNodes entries) = { value := entries }) :
    build (depth + 1) level (.map Tag.map (pairNodes entries)) = { value := .map entries } := by
  have hmerged : (Node.map Tag.map (pairNodes entries)).merged? = some (pairNodes entries) := by
    rw [Node.merged?, mergedPairs?_pairNodes h]
    rfl
  rw [build]
  · simp only [hmerged]
    show Built.map Value.map ((builtPairs depth (level + 1) (pairNodes entries)).map
      (·.foldl insertPair [])) = _
    simp only [hpairs, Built.map, foldl_insertPair [] h.pairwise, List.nil_append]
  · simp

theorem builtPairs_cons {depth level : Nat} {key : String} (hkey : IsWord key) {v : Value}
    {node : Node} {rest : List (Node × Node)} {entries : List (Value × Value)}
    (hv : build (depth + 1) level node = { value := v })
    (hrest : builtPairs (depth + 1) level rest = { value := entries }) :
    builtPairs (depth + 1) level ((scalarNode (.text key), node) :: rest) =
      { value := (.text key, v) :: entries } := by
  have hkeyed : build (depth + 1) level (scalarNode (.text key)).asKey = { value := .text key } :=
    build_scalar (.word hkey) depth level
  have hcons : builtPairs (depth + 1) level ((scalarNode (.text key), node) :: rest) =
      { value := (Built.entry level { value := .text key } { value := v }).value ::
          (builtPairs (depth + 1) level rest).value
        faults := (Built.entry level { value := .text key } { value := v }).faults ++
          (builtPairs (depth + 1) level rest).faults } := by
    rw [← hkeyed, ← hv]
    rfl
  rw [hcons, hrest]
  rfl

/-- The pairs of a written map are found without faults, if the map is not deeper than `depth`. -/
theorem builtPairs_pairNodes {entries : List (Value × Value)} (h : IsRecord entries)
    {depth : Nat} (hdepth : Node.heightOfPairs (pairNodes entries) ≤ depth) (level : Nat) :
    builtPairs depth level (pairNodes entries) = { value := entries } := by
  -- the height of the pairs leaves one level for each key and value
  induction h generalizing depth level with
  | nil => rfl
  | @scalar key v rest hkey hv hrest ih =>
    simp only [pairNodes, valueNode_scalar hv, Node.heightOfPairs, scalarNode, Node.height] at hdepth
    obtain ⟨depth, rfl⟩ := Nat.exists_eq_add_of_le' (show 1 ≤ depth by omega)
    rw [pairNodes, valueNode_scalar hv]
    exact builtPairs_cons hkey.word (build_scalar hv depth level) (ih (by omega) level)
  | @record key inner rest hkey hne hinner hrest ihinner ih =>
    simp only [pairNodes, valueNode, Node.heightOfPairs, scalarNode, Node.height] at hdepth
    obtain ⟨depth, rfl⟩ := Nat.exists_eq_add_of_le' (show 1 ≤ depth by omega)
    rw [pairNodes, valueNode]
    exact builtPairs_cons hkey.word (build_map hinner (ihinner (by omega) (level + 1)))
      (ih (by omega) level)

theorem build_pairNodes {entries : List (Value × Value)} (h : IsRecord entries) (level : Nat) :
    build (Node.map Tag.map (pairNodes entries)).height level (.map Tag.map (pairNodes entries)) =
      { value := .map entries } := by
  rw [Node.height]
  exact build_map h (builtPairs_pairNodes h (Nat.le_refl _) (level + 1))

/-! ### Texts -/

def isLineChar (c : Char) : Bool :=
  isWordChar c || c == ' ' || c == ':' || c == '\'' || c == '\n'

theorem isAllowed_of_isLineChar {c : Char} (h : isLineChar c = true) : isAllowed c = true := by
  have hvisible : c = '\n' ∨ (0x20 ≤ c.toNat ∧ c.toNat ≤ 0x7e) := by
    simp only [isLineChar, isWordChar, Char.isAlphanum, Bool.or_eq_true, beq_iff_eq] at h
    rcases h with (((((((h | h) | rfl) | rfl) | rfl) | rfl) | rfl) | rfl) | rfl
    · have := toNat_of_isAlpha h
      omega
    · have : 48 ≤ c.toNat ∧ c.toNat ≤ 57 := Char.isDigit_iff_toNat.1 h
      omega
    all_goals decide
  rcases hvisible with rfl | ⟨hlow, hhigh⟩
  · rfl
  · simp [isAllowed, hlow, hhigh]

theorem isLineChar_linesText {entries : List (Value × Value)} (h : IsRecord entries) (depth : Nat) :
    ∀ c ∈ linesText depth entries, isLineChar c = true := by
  have hword (word : List Char) (hword : ∀ c ∈ word, isWordChar c = true) :
      ∀ c ∈ word, isLineChar c = true := fun c hc => by simp [isLineChar, hword c hc]
  have hindent (depth : Nat) : ∀ c ∈ List.replicate depth ' ', isLineChar c = true := by
    simpa using fun _ => by decide
  induction h generalizing depth with
  | nil => simp [linesText, writeEntries]
  | @scalar key v rest hkey hv hrest ih =>
    have hvalue : ∀ c ∈ (writeScalar v).toList, isLineChar c = true := by
      rcases hv.toList_writeScalar with ⟨-, htext⟩ | rfl
      · exact htext ▸ hword _ hv.isWordChar
      · exact List.all_eq_true.1 rfl
    rw [linesText_scalar hkey.word depth rest hv]
    simp only [List.forall_mem_append, List.forall_mem_cons]
    exact ⟨hindent depth, hword _ hkey.word.isWordChar, by decide, by decide, hvalue, by decide,
      ih depth⟩
  | @record key inner rest hkey hne hinner hrest ihinner ih =>
    rw [linesText_record hkey.word depth rest]
    simp only [List.forall_mem_append, List.forall_mem_cons]
    exact ⟨hindent depth, hword _ hkey.word.isWordChar, by decide, by decide, ihinner (depth + 2),
      ih depth⟩

theorem read_write {entries : List (Value × Value)} (h : IsRecord entries) (hne : entries ≠ []) :
    read (write entries).toList = .ok (.map entries) := by
  have hallowed : (write entries).toList.all isAllowed = true := by
    rw [toList_write, List.all_eq_true]
    exact fun c hc => isAllowed_of_isLineChar (isLineChar_linesText h 0 c hc)
  have hnode : Node.ofText (write entries).toList =
      .ok (some (.map Tag.map (pairNodes entries))) := by
    rw [Node.ofText, ofText_write h hne]
    simp [hallowed, document_pairTokens h]
  rw [read, hnode]
  simp only [ok_bind, build_pairNodes h]
  rfl

end CallerFirst.Yaml
