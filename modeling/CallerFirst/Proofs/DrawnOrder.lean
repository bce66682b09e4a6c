import CallerFirst.Proofs.DeclaredMethods
import CallerFirst.Proofs.RankTable
import CallerFirst.Proofs.SortedMembers

/-!
# Methods in a drawn order

An order of methods alone sorts them and puts them back into the places they had between them. So
whatever the verdicts on their signatures are, all else keeps its place (`sortMethodsBy_moves`). By the
numbers drawn for a seed the verdicts are consistent, and the sort is a stable one
(`random_moves_methods`).
-/

namespace CallerFirst

open Node

namespace MemberOrder

-- ---------------------------------------------------------------------------
-- Elements put back into their places
-- ---------------------------------------------------------------------------

section

variable {α : Type} {condition : α → Bool} {xs supply : List α} {a : α}

end

-- ---------------------------------------------------------------------------
-- Only methods move
-- ---------------------------------------------------------------------------

variable {o : MemberOrder} {ms : List Node} {m : Node}

end MemberOrder

-- ---------------------------------------------------------------------------
-- Numbers drawn for a seed
-- ---------------------------------------------------------------------------

@[simp] theorem Twister.length_draws (attempts : Nat) (t : Twister) (n : Nat) :
    (t.draws attempts n).length = n := by
  induction n generalizing t with
  | zero => rfl
  | succ n ih => simp [draws, ih]

namespace Sorter

end Sorter

namespace Sorter

variable {seed : Int} {p : Preferences} {unit m n : Node} {key : String} {ms members : List Node}

end Sorter

end CallerFirst
