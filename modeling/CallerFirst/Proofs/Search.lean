import Mathlib.Computability.StateTransition
import Mathlib.Tactic.Common

/-!
# Searches

A search takes pending nodes one by one, passes over those that it has found, and puts what the others
lead to among the pending ones. `Search.Follows.run`: with fuel for what there is to do it comes to its
end, and finds what is reached from where it started, in whatever order it goes.
-/

namespace CallerFirst

open StateTransition

section Rounds

variable {σ : Type} {round : σ → Option σ} {s s' t : σ}

/-- The state behind some rounds, or behind all if there are not so many. -/
def runFor (round : σ → Option σ) : Nat → σ → σ
  | 0, s => s
  | n + 1, s =>
    match round s with
    | none => s
    | some s' => runFor round n s'

theorem eval_of_stopped (h : round s = none) : s ∈ eval round s :=
  mem_eval.mpr ⟨.refl, h⟩

theorem eval_of_round (h : round s = some s') (ht : t ∈ eval round s') : t ∈ eval round s :=
  reaches_eval (.single h) ▸ ht

theorem runFor_of_round (h : round s = some s') : runFor round (n + 1) s = runFor round n s' := by
  simp [runFor, h]

theorem eval_keeps {P : σ → Prop} (hround : ∀ s s', round s = some s' → P s → P s')
    (ht : t ∈ eval round s) (h : P s) : P t := by
  have hreaches := (mem_eval.mp ht).1
  clear ht
  induction hreaches with
  | refl => exact h
  | tail _ hlast ih => exact hround _ _ hlast ih

/-- Where every round leaves less to do, as many rounds as there is to do lead to the end. -/
theorem runFor_mem_eval (todo : σ → Nat) (hround : ∀ s s', round s = some s' → todo s' < todo s)
    (hn : todo s ≤ n) : runFor round n s ∈ eval round s := by
  induction n generalizing s with
  | zero =>
    refine eval_of_stopped ?_
    cases hs : round s with
    | none => rfl
    | some s' => exact absurd (hround s s' hs) (by omega)
  | succ n ih =>
    cases hs : round s with
    | none => simpa [runFor, hs] using eval_of_stopped hs
    | some s' =>
      rw [runFor_of_round hs]
      exact eval_of_round hs (ih (by have := hround s s' hs; omega))

theorem runFor_empties {α : Type} {round : σ × List α → Option (σ × List α)} {stack : List α}
    (todo : List α → Nat) (hstop : ∀ s a stack, round (s, a :: stack) ≠ none)
    (hround : ∀ x y, round x = some y → todo y.2 < todo x.2) (hn : todo stack ≤ n) :
    ((runFor round n (s, stack)).1, []) ∈ eval round (s, stack) := by
  have heval : runFor round n (s, stack) ∈ eval round (s, stack) :=
    runFor_mem_eval (fun x => todo x.2) hround hn
  have hend := (mem_eval.mp heval).2
  generalize runFor round n (s, stack) = x at heval hend ⊢
  obtain ⟨t, stack'⟩ := x
  cases stack' with
  | nil => exact heval
  | cons a stack' => exact absurd hend (hstop t a stack')

end Rounds

section Explores

variable {α : Type} {R : α → α → Prop} {starts pending pending' found found' : List α} {v : α}

/-- A search on the way: all that was met is reached from where it started, and what is found leads
to nodes that are found or pending. -/
structure Explores (R : α → α → Prop) (starts pending found : List α) : Prop where
  sound : ∀ w, w ∈ pending ∨ w ∈ found → ∃ u ∈ starts, Relation.ReflTransGen R u w
  starts : ∀ u ∈ starts, u ∈ pending ∨ u ∈ found
  closed : ∀ u ∈ found, ∀ w, R u w → w ∈ pending ∨ w ∈ found

theorem Explores.init (starts : List α) : Explores R starts starts [] :=
  ⟨fun w hw => ⟨w, hw.resolve_right (by simp), .refl⟩, fun _ => .inl, by simp⟩

theorem Explores.start (h : Explores R starts [] found) (v : α) :
    Explores R (starts ++ [v]) [v] found where
  sound w hw := by
    rcases hw with hw | hw
    · exact ⟨w, List.mem_append_right _ hw, .refl⟩
    · obtain ⟨u, hu, huw⟩ := h.sound w (.inr hw)
      exact ⟨u, List.mem_append_left _ hu, huw⟩
  starts u hu := (List.mem_append.mp hu).symm.imp id fun hu => (h.starts u hu).resolve_left (by simp)
  closed u hu w huw := .inr ((h.closed u hu w huw).resolve_left (by simp))

theorem Explores.skip (h : Explores R starts (v :: pending) found) (hv : v ∈ found) :
    Explores R starts pending found := by
  have hrest {w : α} (hw : w ∈ v :: pending ∨ w ∈ found) : w ∈ pending ∨ w ∈ found := by
    rcases hw with hw | hw
    · rcases List.mem_cons.mp hw with rfl | hw
      · exact .inr hv
      · exact .inl hw
    · exact .inr hw
  exact ⟨fun w hw => h.sound w (hw.imp (.tail _) id), fun u hu => hrest (h.starts u hu),
    fun u hu w huw => hrest (h.closed u hu w huw)⟩

theorem Explores.find (h : Explores R starts (v :: pending) found)
    (hfound : ∀ w, w ∈ found' ↔ w = v ∨ w ∈ found)
    (hpending : ∀ w ∈ pending', w ∈ pending ∨ R v w)
    (hkept : ∀ w, w ∈ pending ∨ R v w → w ∈ pending' ∨ w ∈ found') :
    Explores R starts pending' found' := by
  have hmet {w : α} (hw : w ∈ v :: pending ∨ w ∈ found) : w ∈ pending' ∨ w ∈ found' := by
    rcases hw with hw | hw
    · rcases List.mem_cons.mp hw with rfl | hw
      · exact .inr ((hfound w).mpr (.inl rfl))
      · exact hkept w (.inl hw)
    · exact .inr ((hfound w).mpr (.inr hw))
  obtain ⟨u, hu, huv⟩ := h.sound v (.inl List.mem_cons_self)
  refine ⟨fun w hw => ?_, fun u hu => hmet (h.starts u hu), fun x hx w hxw => ?_⟩
  · rcases hw with hw | hw
    · rcases hpending w hw with hw | hvw
      · exact h.sound w (.inl (.tail _ hw))
      · exact ⟨u, hu, huv.tail hvw⟩
    · rcases (hfound w).mp hw with rfl | hw
      · exact ⟨u, hu, huv⟩
      · exact h.sound w (.inr hw)
  · rcases (hfound x).mp hx with rfl | hx
    · exact hkept w (.inr hxw)
    · exact hmet (h.closed x hx w hxw)

theorem Explores.mem_iff (h : Explores R starts [] found) :
    v ∈ found ↔ ∃ u ∈ starts, Relation.ReflTransGen R u v := by
  refine ⟨fun hv => h.sound v (.inr hv), ?_⟩
  rintro ⟨u, hu, huv⟩
  induction huv with
  | refl => exact (h.starts u hu).resolve_left (by simp)
  | tail _ hbc ih => exact (h.closed _ ih _ hbc).resolve_left (by simp)

end Explores

section Search

/-- A search whose states hold what is found, and how it takes a pending node that is not. -/
structure Search (σ α : Type) where
  found : σ → List α
  take : σ → α → List α → σ × List α

namespace Search

variable {σ α : Type} [DecidableEq α] {S : Search σ α} {R : α → α → Prop} {Inv : σ → Prop}
  {todo : σ → Nat} {starts pending : List α} {s t : σ} {v : α}

def round (S : Search σ α) : σ × List α → Option (σ × List α)
  | (_, []) => none
  | (s, v :: pending) => if v ∈ S.found s then some (s, pending) else some (S.take s v pending)

theorem round_of_mem (h : v ∈ S.found s) : S.round (s, v :: pending) = some (s, pending) :=
  if_pos h

theorem round_of_not_mem (h : v ∉ S.found s) :
    S.round (s, v :: pending) = some (S.take s v pending) :=
  if_neg h

/-- Taking a node finds it, gets pending what it leads to, and leaves as much less to do. -/
structure Takes (S : Search σ α) (R : α → α → Prop) (Inv : σ → Prop) (todo : σ → Nat) (s : σ) (v : α)
    (pending : List α) (next : σ × List α) : Prop where
  inv : Inv next.1
  found : ∀ w, w ∈ S.found next.1 ↔ w = v ∨ w ∈ S.found s
  fewer : next.2.length + todo next.1 ≤ pending.length + todo s
  led : ∀ w ∈ next.2, w ∈ pending ∨ R v w
  kept : ∀ w, w ∈ pending ∨ R v w → w ∈ next.2 ∨ w ∈ S.found next.1

/-- The search goes along `R`, and `todo` bounds what gets pending from a state on. -/
def Follows (S : Search σ α) (R : α → α → Prop) (Inv : σ → Prop) (todo : σ → Nat) : Prop :=
  ∀ s v pending, Inv s → v ∉ S.found s → S.Takes R Inv todo s v pending (S.take s v pending)

theorem Follows.run (h : S.Follows R Inv todo) (hinv : Inv s)
    (he : Explores R starts pending (S.found s)) (hn : pending.length + todo s ≤ n) :
    ∃ s', runFor S.round n (s, pending) = (s', []) ∧ (s', []) ∈ eval S.round (s, pending) ∧
      Inv s' ∧ Explores R starts [] (S.found s') := by
  induction n generalizing s pending with
  | zero =>
    obtain rfl : pending = [] := List.length_eq_zero_iff.mp (by omega)
    exact ⟨s, rfl, eval_of_stopped rfl, hinv, he⟩
  | succ n ih =>
    cases pending with
    | nil => exact ⟨s, rfl, eval_of_stopped rfl, hinv, he⟩
    | cons v pending =>
      by_cases hv : v ∈ S.found s
      · have hround : S.round (s, v :: pending) = _ := round_of_mem hv
        obtain ⟨s', hrun, heval, hend⟩ := ih hinv (he.skip hv) (by simp at hn; omega)
        exact ⟨s', (runFor_of_round hround).trans hrun, eval_of_round hround heval, hend⟩
      · have hround : S.round (s, v :: pending) = _ := round_of_not_mem hv
        have htakes := h s v pending hinv hv
        obtain ⟨s', hrun, heval, hend⟩ := ih htakes.inv (he.find htakes.found htakes.led htakes.kept)
          (by have := htakes.fewer; simp at hn; omega)
        exact ⟨s', (runFor_of_round hround).trans hrun, eval_of_round hround heval, hend⟩

theorem eval_keeps {P : σ → List α → Prop}
    (hskip : ∀ s v pending, v ∈ S.found s → P s (v :: pending) → P s pending)
    (htake : ∀ s v pending, v ∉ S.found s → P s (v :: pending) →
      P (S.take s v pending).1 (S.take s v pending).2)
    (ht : (t, []) ∈ eval S.round (s, pending)) (h : P s pending) : P t [] := by
  refine CallerFirst.eval_keeps (P := fun x => P x.1 x.2) ?_ ht h
  rintro ⟨s, pending⟩ s' hround h
  cases pending with
  | nil => cases hround
  | cons v pending =>
    by_cases hv : v ∈ S.found s
    · obtain rfl := Option.some.inj ((round_of_mem hv).symm.trans hround)
      exact hskip s v pending hv h
    · obtain rfl := Option.some.inj ((round_of_not_mem hv).symm.trans hround)
      exact htake s v pending hv h

end Search

end Search

end CallerFirst
