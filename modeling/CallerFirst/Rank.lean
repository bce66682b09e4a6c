import CallerFirst.Number.Binary64
import CallerFirst.Signature

/-!
# Ranks

A rank is a fraction, an infinity, or undefined. A table gives ranks to signatures, in the order in
which they were first put in.
-/

namespace CallerFirst

inductive Rank where
  | bottom
  | finite (value : Rat)
  | top
  /-- Neither below nor above anything. -/
  | undefined
  deriving DecidableEq

namespace Rank

instance (n : Nat) : OfNat Rank n := ⟨.finite n⟩

instance : Coe Int Rank := ⟨fun n => .finite n⟩

def lt : Rank → Rank → Bool
  | bottom, finite _ | bottom, top | finite _, top => true
  | finite a, finite b => a < b
  | _, _ => false

def compare (a b : Rank) : Int :=
  if lt a b then -1 else if lt b a then 1 else 0

/-- Quotient of two counts; infinite when nothing divides. -/
def ratio (a b : Nat) : Rank :=
  if b = 0 then .top else .finite ((a : Rat) / (b : Rat))

def ofBinary64 : Binary64 → Rank
  | .infinite negative => if negative then .bottom else .top
  | x => x.toRat?.elim .undefined .finite

def whole? : Rank → Option Int
  | finite value => if value.den = 1 then some value.num else none
  | _ => none

/-- A fraction with six places, ties to even. -/
def renderFraction (value : Rat) : String :=
  let millionths := Binary64.roundDiv (value.num.natAbs * 1000000) value.den
  let places := Nat.toDigits 10 (millionths % 1000000)
  (if value.num < 0 then "-" else "") ++ toString (millionths / 1000000) ++ "." ++
    String.ofList (List.replicate (6 - places.length) '0' ++ places)

def render (r : Rank) : String :=
  match r.whole?, r with
  | some n, _ => toString n
  | none, finite value => renderFraction value
  | none, top => "inf"
  | none, bottom => "-inf"
  | none, undefined => "nan"

end Rank

structure RankTable where
  entries : List (Signature × Rank) := []
  /-- Signatures without a rank come before all others, else behind them. -/
  unknownFirst : Bool := false

namespace RankTable

def get? (t : RankTable) (s : Signature) : Option Rank :=
  t.entries.lookup s

def contains (t : RankTable) (s : Signature) : Bool :=
  t.entries.any (·.1 == s)

/-- Gives a rank to a signature; one that had a rank keeps its place in the table. -/
def put (t : RankTable) (s : Signature) (r : Rank) : RankTable :=
  { t with
    entries :=
      if t.contains s then t.entries.map fun e => if e.1 = s then (s, r) else e
      else t.entries ++ [(s, r)] }

def ofList (entries : List (Signature × Rank)) (unknownFirst : Bool) : RankTable :=
  entries.foldl (fun t (s, r) => t.put s r) { unknownFirst }

/-- Three-way comparison by rank; two signatures without a rank are equal. -/
def compare (t : RankTable) (a b : Signature) : Int :=
  match t.get? a, t.get? b with
  | none, none => 0
  | none, some _ => if t.unknownFirst then -1 else 1
  | some _, none => if t.unknownFirst then 1 else -1
  | some x, some y => x.compare y

end RankTable

end CallerFirst
