/-
# Ranked items

What the evaluation of a ranking needs to know about an identifier: whether it is one of the positives,
and which score it got. Both are look-ups by the key of the identifier. An identifier may be apart,
which makes it equal to nothing, and a sequence has no key at all, so that no look-up takes it.
-/

import RankingEval.Datum.Numeric

namespace RankingEval.Ranking

/-- An item of a ranking: whether it is positive, and its score if the ranking has scores. -/
structure Item where
  /-- The item is one of the positives. -/
  positive : Bool
  /-- The score of the item. -/
  score : Option Float

/-- How an identifier is looked up. -/
inductive Identity where
  /-- By its key. -/
  | keyed (key : Key)
  /-- In vain: it is equal to nothing, not even to itself. -/
  | apart
  /-- Not at all, since it has no key; only comparison item by item finds it. -/
  | keyless (value : Datum)

/-- The identity of a datum. In a column of floats every NaN is apart. -/
def Identity.of (floats : Bool) (d : Datum) : Identity :=
  match d.key? with
  | none => .keyless d
  | some .nan => if floats then .apart else .keyed .nan
  | some k => .keyed k

/-- An identifier: how it is shown, and how it is looked up. -/
structure Identifier where
  /-- The value that is shown. -/
  value : Datum
  /-- How it is looked up. -/
  identity : Identity

/-- The identity as a key, if there is one. -/
def Identity.key? : Identity → Option Key
  | .keyed k => some k
  | _ => none

/-- The identity has no key, so that no set takes it. -/
def Identity.isKeyless : Identity → Bool
  | .keyless _ => true
  | _ => false

/-- Identifiers without the later ones of equal identity; those that are apart all stay. -/
def Identifier.distinct (ids : List Identifier) : List Identifier :=
  (ids.foldl
    (fun (kept, seen) id =>
      match id.identity.key? with
      | some k => if seen.contains k then (kept, seen) else (id :: kept, k :: seen)
      | none => (id :: kept, seen))
    (([] : List Identifier), ([] : List Key))).1.reverse

/-- The positives: a set of keys, or a list that counts repeated members. -/
inductive Positives where
  /-- A set: its keys, and how many of its members are apart. -/
  | set (keys : List Key) (apart : Nat)
  /-- A list, searched by key, or item by item for what has no key. -/
  | list (members : List Datum)

namespace Positives

/-- The set of some identifiers, each counted once. -/
def ofIdentities (ids : List Identity) : Except Failure Positives :=
  ids.foldlM
    (fun set id =>
      match set, id with
      | .set keys apart, .keyed k => .ok (if keys.contains k then set else .set (keys ++ [k]) apart)
      | .set keys apart, .apart => .ok (.set keys (apart + 1))
      | _, _ => .error .mistyped)
    (.set [] 0)

/-- The number of positives. -/
def count : Positives → Nat
  | set keys apart => keys.length + apart
  | list members => members.length

/-- The identifier is one of the positives. -/
def holds (p : Positives) (id : Identity) : Except Failure Bool :=
  match p, id with
  | set keys _, .keyed k => .ok (keys.contains k)
  | set _ _, .apart => .ok false
  | set _ _, .keyless _ => .error .mistyped
  | list members, .keyed k => .ok (members.any fun m => m.key? == some k)
  | list _, .apart => .ok false
  | list members, .keyless d => .ok (members.any fun m => m.same d)

end Positives

/-- Scores by key; a later entry hides an earlier one. -/
structure Scores where
  /-- The entries, the latest first. -/
  entries : List (Key × Except Failure Float)

namespace Scores

/-- The scores of some identifiers, each paired with its score. -/
def ofList (pairs : List (Identity × Except Failure Float)) : Except Failure Scores :=
  pairs.foldlM
    (fun scores (id, score) =>
      match id with
      | .keyed k => .ok ⟨(k, score) :: scores.entries⟩
      | .apart => .ok scores
      | .keyless _ => .error .mistyped)
    ⟨[]⟩

/-- The score of an identifier. -/
def get (s : Scores) (id : Identity) : Except Failure Float :=
  match id with
  | .keyed k =>
    match s.entries.lookup k with
    | some score => score
    | none => .error .entryMissing
  | .apart => .error .entryMissing
  | .keyless _ => .error .mistyped

end Scores

/-- The item that an identifier stands for. -/
def Item.of (positives : Positives) (scores : Option Scores) (id : Identity) : Except Failure Item := do
  let positive ← positives.holds id
  match scores with
  | none => return ⟨positive, none⟩
  | some table => return ⟨positive, some (← table.get id)⟩

end RankingEval.Ranking
