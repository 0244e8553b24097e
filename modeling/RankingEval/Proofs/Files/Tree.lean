/-
# Changes to trees of files

A path leads where it led before as long as the directories on its way stay. A text that is written is found at
its path, and a directory that is made hides nothing that was there.
-/

import Mathlib
import RankingEval.Files.Tree
import RankingEval.Proofs.Computation

namespace RankingEval.Files.Tree

variable {t t' : Tree} {p : Path} {place other : List String} {node : Node}

theorem lookup_put (nodes : List (List String × Node)) (place : List String) (node : Node)
    (other : List String) :
    (nodes.filter (fun entry => entry.1 != place) ++ [(place, node)]).lookup other =
      if other = place then some node else nodes.lookup other := by
  induction nodes with
  | nil => by_cases h : other = place <;> simp [h, List.lookup_cons, beq_eq_false_iff_ne.mpr]
  | cons entry nodes ih =>
      obtain ⟨taken, old⟩ := entry
      by_cases htaken : taken = place
      · rw [List.filter_cons_of_neg (by simp [htaken]), ih, htaken]
        by_cases h : other = place
        · rw [if_pos h, if_pos h]
        · rw [if_neg h, if_neg h, List.lookup_cons, beq_eq_false_iff_ne.mpr h]
      · rw [List.filter_cons_of_pos (by simpa using htaken), List.cons_append, List.lookup_cons, ih]
        by_cases h : other = place
        · rw [if_pos h, if_pos h, beq_eq_false_iff_ne.mpr (h ▸ Ne.symm htaken)]
        · rw [if_neg h, if_neg h, List.lookup_cons]

/-- What stands at a place after a node was put somewhere: the node at its own place, and what was there at any
other one. -/
theorem node?_put (t : Tree) (place : List String) (node : Node) (other : List String) :
    (t.put place node).node? other =
      if isStart other then some .directory else if other = place then some node else t.node? other := by
  by_cases hstart : isStart other = true
  · rw [node?, if_pos hstart, if_pos hstart]
  · rw [node?, if_neg hstart, if_neg hstart, put, lookup_put, node?, if_neg hstart]

theorem isStart_eq_false_of_node? (h : t.node? place ≠ some .directory) : isStart place = false := by
  rw [node?] at h
  split_ifs at h with hstart
  · exact absurd rfl h
  · exact Bool.eq_false_of_not_eq_true hstart

/-- Where no directory stands, a node can be put without any loss of directories. -/
theorem node?_put_of_directory (h : t.node? place ≠ some .directory) (node : Node)
    (hother : t.node? other = some .directory) : (t.put place node).node? other = some .directory := by
  have hne : other ≠ place := by
    rintro rfl
    exact h hother
  rw [node?_put, if_neg hne, hother, ite_self]

/-- Where nothing stands, a node can be put without any loss. -/
theorem node?_put_of_none (h : t.node? place = none) (new : Node) (hother : t.node? other = some node) :
    (t.put place new).node? other = some node := by
  have hne : other ≠ place := by
    rintro rfl
    cases h.symm.trans hother
  rw [node?_put, if_neg hne, hother]
  split_ifs with hstart
  · rw [node?, if_pos hstart] at hother
    exact hother
  · rfl

/-- Where one step leads from a directory. -/
def stepFrom (place : List String) (step : String) : Except Failure (List String) :=
  if step == ".." then above place else .ok (place ++ [step])

theorem follow_cons (t : Tree) (place : List String) (step : String) (rest : List String) :
    t.follow place (step :: rest) =
      match t.node? place with
      | none => .error .fileMissing
      | some .directory => stepFrom place step >>= fun next => t.follow next rest
      | some _ => .error .notADirectory := by
  rw [follow, stepFrom]
  split_ifs <;> rfl

/-- A path leads where it led as long as the directories stay. -/
theorem follow_of_directories (h : ∀ q, t.node? q = some .directory → t'.node? q = some .directory)
    {steps : List String} {reached : List String} (hfollow : t.follow place steps = .ok reached) :
    t'.follow place steps = .ok reached := by
  induction steps generalizing place with
  | nil => exact hfollow
  | cons step rest ih =>
      rw [follow_cons] at hfollow
      rcases hnode : t.node? place with _ | _ | text | table <;> rw [hnode] at hfollow
      · cases hfollow
      · rw [follow_cons, h place hnode]
        cases hnext : stepFrom place step with
        | error failure =>
            rw [hnext] at hfollow
            cases hfollow
        | ok next =>
            rw [hnext] at hfollow
            exact ih hfollow
      · cases hfollow
      · cases hfollow

theorem find_eq_ok_iff :
    t.find p = .ok node ↔ ∃ place, t.place p = .ok place ∧ t.node? place = some node := by
  rw [find, bind_eq_ok_iff]
  constructor
  · rintro ⟨place, hplace, hfound⟩
    split at hfound
    · rename_i found hnode
      cases hfound
      exact ⟨place, hplace, hnode⟩
    · cases hfound
  · rintro ⟨place, hplace, hnode⟩
    refine ⟨place, hplace, ?_⟩
    rw [hnode]
    rfl

/-- A text is written at the place of its path, where no directory may stand. -/
theorem exists_place_of_write {s : String} (h : t.write p s = .ok t') :
    ∃ place, t.place p = .ok place ∧ t.node? place ≠ some .directory ∧ t' = t.put place (.text s) := by
  obtain ⟨place, hplace, hwritten⟩ := bind_eq_ok_iff.mp h
  split at hwritten
  · cases hwritten
  · rename_i hfree
    cases hwritten
    exact ⟨place, hplace, hfree, rfl⟩

/-- A text that is written is found at its path. -/
theorem find_of_write {s : String} (h : t.write p s = .ok t') : t'.find p = .ok (.text s) := by
  obtain ⟨place, hplace, hfree, rfl⟩ := exists_place_of_write h
  rw [find_eq_ok_iff]
  refine ⟨place, follow_of_directories (fun q hq => node?_put_of_directory hfree _ hq) hplace, ?_⟩
  rw [node?_put, isStart_eq_false_of_node? hfree]
  simp

/-- A directory that is made hides nothing. -/
theorem find_of_makeDirectory (h : t.makeDirectory place = .ok t') (hfind : t.find p = .ok node) :
    t'.find p = .ok node := by
  rw [makeDirectory] at h
  split at h
  · cases h
    exact hfind
  · cases h
  · rename_i hnone
    cases h
    obtain ⟨reached, hplace, hnode⟩ := find_eq_ok_iff.mp hfind
    rw [find_eq_ok_iff]
    exact ⟨reached, follow_of_directories (fun q hq => node?_put_of_none hnone _ hq) hplace,
      node?_put_of_none hnone _ hnode⟩

end RankingEval.Files.Tree
