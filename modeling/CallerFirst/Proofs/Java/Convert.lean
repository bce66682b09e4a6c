import CallerFirst.Java.Convert
import CallerFirst.Member
import Mathlib.Data.List.TakeDrop

/-!
# Members of a body and their places

The nodes of a body stand in the order of its pairs: each has the span of its pair, the number of its
place in the body, and the category of its declaration (`membersFrom_gives`).
-/

namespace CallerFirst

def Node.header? : Node → Option Method
  | .method _ header _ => some header
  | _ => none

namespace Java

def Declaration.category (isStatic : Bool) : Declaration → Category
  | method header .. => if header.isConstructor then .constructors else .methods
  | field .. => .fields
  | enumConstant .. => .enumConstants
  | annotationMember .. => .annotationMembers
  | block _ => if isStatic then .staticInitializers else .initializers
  | type _ => .types

def Pair.category (pair : Pair Declaration) : Category :=
  (pair.declaration.getD (.block [])).category pair.isStatic

/-- Variables in force behind a member, when `current` are in force in front of it. -/
def Declaration.leaves (outer current : Variables) : Declaration → Variables
  | .method _ annotations parameters body =>
    localsOfAll annotations ++ localsOfAll parameters ++ localsOfAll body ++ outer
  | .block statements => localsOfAll statements ++ outer
  | .type _ => current
  | _ => outer

namespace Convert

def Gives (x : Convert α) (P : α → Prop) : Prop :=
  ∀ p a p', x.run p = .ok (a, p') → P a

namespace Gives

variable {P : α → Prop} {Q : β → Prop}

theorem pure (h : P a) : Gives (Pure.pure a : Convert α) P := by
  rintro p b p' ⟨⟩
  exact h

theorem bind {x : Convert β} {f : β → Convert α} (hx : Gives x Q)
    (hf : ∀ b, Q b → Gives (f b) P) : Gives (x >>= f) P := by
  intro p a p' h
  rw [StateT.run_bind] at h
  cases hb : x.run p with
  | error fault => simp [hb, Bind.bind, Except.bind] at h
  | ok b =>
    refine hf b.1 (hx p b.1 b.2 hb) b.2 a p' ?_
    simpa [hb, Bind.bind, Except.bind] using h

theorem behind {x : Convert β} {f : β → Convert α} (hf : ∀ b, Gives (f b) P) : Gives (x >>= f) P :=
  bind (Q := fun _ => True) (fun _ _ _ _ => trivial) fun b _ => hf b

theorem mono {x : Convert α} {Q : α → Prop} (h : Gives x P) (hPQ : ∀ a, P a → Q a) : Gives x Q :=
  fun p a p' hrun => hPQ a (h p a p' hrun)

theorem lift (x : Except Fault α) : Gives (liftM x : Convert α) fun a => x = .ok a := by
  intro p a p' h
  cases x with
  | error => cases h
  | ok b =>
    cases h
    rfl

end Gives

-- ---------------------------------------------------------------------------
-- Members
-- ---------------------------------------------------------------------------

/-- What a body shows of a member: its place and its category. -/
def outline (n : Node) : Place × Option Category :=
  (n.place, n.category?)

def outlineAt (index : Nat) (pair : Pair Declaration) : Place × Option Category :=
  (placeOf index pair, some pair.category)

variable {source : Source} {s : Scopes} {outer current : Variables}

theorem outline_emptyBlock {pair : Pair Declaration} (h : pair.declaration = none) :
    outline (emptyBlock index pair) = outlineAt index pair := by
  simp [outline, outlineAt, emptyBlock, Node.place, Node.place?, Node.category?, Pair.category, h,
    Declaration.category]

theorem typeNode_gives_type (index : Nat) (span : Option (Nat × Nat)) (binding : TypeBinding)
    (t : TypeDeclaration) :
    Gives (typeNode source s index span binding t) fun n =>
      ∃ header members, n = .type (placeOf index ⟨none, span, false⟩) header members := by
  cases t
  rw [typeNode]
  exact .behind fun _ => .behind fun _ => .behind fun _ => .pure ⟨_, _, rfl⟩

structure Becomes (outer current : Variables) (index : Nat) (pair : Pair Declaration)
    (d : Declaration) (found : Node × Variables) : Prop where
  place : found.1.place = placeOf index pair
  category : found.1.category? = some (d.category pair.isStatic)
  header : found.1.header? = methodOf? d
  leaves : found.2 = d.leaves outer current

theorem member_becomes (index : Nat) (pair : Pair Declaration) (d : Declaration) :
    Gives (member source s outer index pair current d) (Becomes outer current index pair d) := by
  cases d with
  | type declaration =>
    rw [member]
    refine .bind (typeNode_gives_type _ _ _ _) fun n hn => .pure ?_
    obtain ⟨header, members, rfl⟩ := hn
    exact ⟨rfl, rfl, rfl, rfl⟩
  | method | block | field =>
    rw [member]
    exact .behind fun _ => .pure ⟨rfl, rfl, rfl, rfl⟩
  | enumConstant =>
    rw [member]
    exact .behind fun _ => .behind fun _ => .pure ⟨rfl, rfl, rfl, rfl⟩
  | annotationMember =>
    rw [member]
    exact .pure ⟨rfl, rfl, rfl, rfl⟩

theorem member_gives {pair : Pair Declaration} (h : pair.declaration = some d) :
    Gives (member source s outer index pair current d)
      fun found => outline found.1 = outlineAt index pair :=
  (member_becomes index pair d).mono fun found hfound => by
    simp [outline, outlineAt, Pair.category, h, hfound.place, hfound.category]

theorem splitBlocks_eq {pairs : List (Pair Declaration)}
    (h : pairs.filterMap (·.declaration) = d :: declarations) :
    ∃ blocks pair rest, pairs = blocks ++ pair :: rest ∧ splitBlocks pairs = (blocks, pair :: rest) ∧
      (∀ block ∈ blocks, block.declaration = none) ∧ pair.declaration = some d ∧
      rest.filterMap (·.declaration) = declarations := by
  induction pairs with
  | nil => cases h
  | cons first pairs ih =>
    cases hfirst : first.declaration with
    | some e =>
      rw [List.filterMap_cons_some hfirst] at h
      obtain ⟨rfl, hrest⟩ := List.cons.inj h
      exact ⟨[], first, pairs, rfl, by simp [splitBlocks, List.span_eq_takeWhile_dropWhile, hfirst],
        by simp, hfirst, hrest⟩
    | none =>
      rw [List.filterMap_cons_none hfirst] at h
      obtain ⟨blocks, pair, rest, rfl, hsplit, hblocks, hpair, hrest⟩ := ih h
      refine ⟨first :: blocks, pair, rest, rfl, ?_, by simpa [hfirst] using hblocks, hpair, hrest⟩
      simp only [splitBlocks, List.span_eq_takeWhile_dropWhile] at hsplit ⊢
      obtain ⟨h1, h2⟩ := Prod.mk.inj hsplit
      simp [hfirst, h1, h2]

theorem map_outline_blocks {blocks : List (Pair Declaration)}
    (h : ∀ block ∈ blocks, block.declaration = none) (index : Nat) :
    (blocks.mapIdx fun i pair => emptyBlock (index + i) pair).map outline =
      blocks.mapIdx fun i pair => outlineAt (index + i) pair := by
  refine List.ext_getElem? fun i => ?_
  simp only [List.getElem?_map, List.getElem?_mapIdx, Option.map_map]
  cases hi : blocks[i]? with
  | none => rfl
  | some block => exact congrArg some (outline_emptyBlock (h block (List.mem_of_getElem? hi)))

theorem membersFrom_gives {pairs : List (Pair Declaration)} (index : Nat) (current : Variables)
    (h : pairs.filterMap (·.declaration) = declarations) :
    Gives (membersFrom source s outer index pairs current declarations) fun nodes =>
      nodes.map outline = pairs.mapIdx fun i pair => outlineAt (index + i) pair := by
  induction declarations generalizing pairs index current with
  | nil =>
    rw [membersFrom]
    refine .pure (map_outline_blocks (fun block hblock => ?_) index)
    simpa using List.filterMap_eq_nil_iff.mp h block hblock
  | cons d declarations ih =>
    obtain ⟨blocks, pair, rest, rfl, hsplit, hblocks, hpair, hrest⟩ := splitBlocks_eq h
    rw [membersFrom, hsplit]
    refine .bind (member_gives hpair) fun found hfound => ?_
    refine .bind (ih _ _ hrest) fun nodes hnodes => .pure ?_
    rw [List.map_append, map_outline_blocks hblocks, List.map_cons, hfound, hnodes,
      List.mapIdx_append, List.mapIdx_cons]
    simp [Nat.add_assoc, Nat.add_comm, Nat.add_left_comm]

end Convert

end Java

end CallerFirst
