import NameTree.Record

/-!
Sets of ids as strictly ascending lists.
-/

namespace NameTree

def insertId (id : Int) : List Int → List Int
  | [] => [id]
  | other :: rest =>
    if id < other then id :: other :: rest
    else if id = other then other :: rest
    else other :: insertId id rest

def ascending (ids : List Int) : List Int := ids.foldr insertId []

theorem mem_insertId {id other : Int} {ids : List Int} :
    other ∈ insertId id ids ↔ other = id ∨ other ∈ ids := by
  induction ids with
  | nil => simp [insertId]
  | cons head rest ih =>
    unfold insertId
    split
    · simp
    · split
      · rename_i same
        subst same
        simp
      · simp only [List.mem_cons, ih]
        constructor
        · rintro (h | h | h) <;> simp [h]
        · rintro (h | h | h) <;> simp [h]

theorem pairwise_insertId {id : Int} {ids : List Int} (sorted : ids.Pairwise (· < ·)) :
    (insertId id ids).Pairwise (· < ·) := by
  induction ids with
  | nil => simp [insertId]
  | cons head rest ih =>
    rw [List.pairwise_cons] at sorted
    unfold insertId
    split
    · rename_i below
      refine List.pairwise_cons.mpr ⟨?_, List.pairwise_cons.mpr sorted⟩
      intro other member
      rcases List.mem_cons.mp member with same | later
      · omega
      · have := sorted.1 other later
        omega
    · split
      · exact List.pairwise_cons.mpr sorted
      · refine List.pairwise_cons.mpr ⟨?_, ih sorted.2⟩
        intro other member
        rcases mem_insertId.mp member with same | later
        · omega
        · exact sorted.1 other later

theorem mem_ascending {id : Int} {ids : List Int} : id ∈ ascending ids ↔ id ∈ ids := by
  induction ids with
  | nil => simp [ascending]
  | cons head rest ih =>
    have step : ascending (head :: rest) = insertId head (ascending rest) := rfl
    rw [step, mem_insertId, ih, List.mem_cons]

theorem pairwise_ascending (ids : List Int) : (ascending ids).Pairwise (· < ·) := by
  induction ids with
  | nil => simp [ascending]
  | cons head rest ih => exact pairwise_insertId ih

end NameTree
