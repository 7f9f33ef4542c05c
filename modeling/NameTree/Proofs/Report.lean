import Mathlib.Data.List.Sort
import NameTree.Proofs.Consistency
import NameTree.Proofs.Search

/-!
The report of the consistency check on any store, also one that is damaged. The check is a loop over
pairs of indexes that remembers the directories it has met; it ends after as many rounds as there
are directories, and one more. It gives an answer exactly when what is reached from the root is
recorded and forms a tree.
-/

namespace NameTree

namespace Store

/-- The loop over the directories bound in one index: each is noted, and its indexes are put before
those that are still to be visited. -/
def noteDirs (all : Arena "dir" DirRecord) (met : List Int) (pending : List (Index × Index)) :
    List Int → Except Fault (List Int × List (Index × Index))
  | [] => .ok (met, pending)
  | id :: ids =>
    if id ∈ met then .error (.cycle id)
    else
      match all.require id with
      | .error fault => .error fault
      | .ok record => noteDirs all (id :: met) ((record.files, record.dirs) :: pending) ids

/-- The loop over pending pairs of indexes, with the files and the directories met so far. It ends
in what it has met, or in the first fault. -/
inductive Sweeps (store : Store) : Nat → List (Index × Index) → List Int → List Int →
    Except Fault (List Int × List Int) → Prop where
  | finished {files dirs : List Int} : Sweeps store 0 [] files dirs (.ok (files, dirs))
  | fileFault {fileIndex dirIndex : Index} {pending : List (Index × Index)} {files dirs : List Int}
    {fault : Fault} (refused : requireFiles store.files fileIndex.ids = .error fault) :
    Sweeps store 1 ((fileIndex, dirIndex) :: pending) files dirs (.error fault)
  | dirFault {fileIndex dirIndex : Index} {pending : List (Index × Index)} {files dirs : List Int}
    {fault : Fault} (required : requireFiles store.files fileIndex.ids = .ok ())
    (refused : noteDirs store.dirs dirs pending dirIndex.ids = .error fault) :
    Sweeps store 1 ((fileIndex, dirIndex) :: pending) files dirs (.error fault)
  | visit {fileIndex dirIndex : Index} {pending later : List (Index × Index)}
    {files dirs noted : List Int} {rounds : Nat} {result : Except Fault (List Int × List Int)}
    (required : requireFiles store.files fileIndex.ids = .ok ())
    (taken : noteDirs store.dirs dirs pending dirIndex.ids = .ok (noted, later))
    (further : Sweeps store rounds later (fileIndex.ids ++ files) noted result) :
    Sweeps store (rounds + 1) ((fileIndex, dirIndex) :: pending) files dirs result

/-- The directories that were met are those whose records have been taken out. -/
structure Met (all rest : Arena "dir" DirRecord) (met : List Int) : Prop where
  recorded : ∀ id ∈ met, id ∈ all.ids
  left : ∀ id, rest.get? id = if id ∈ met then none else all.get? id

variable {store : Store} {all rest left : Arena "dir" DirRecord} {met ids : List Int}

theorem met_start (all : Arena "dir" DirRecord) : Met all all [] where
  recorded _ member := absurd member List.not_mem_nil
  left _ := by simp

theorem Met.insert (here : Met all rest met) {id : Int} {record : DirRecord}
    (found : rest.get? id = some record) :
    id ∉ met ∧ all.get? id = some record ∧ Met all (rest.erase id) (id :: met) := by
  rw [here.left] at found
  split at found
  · cases found
  · rename_i unmet
    refine ⟨unmet, found, ?_, ?_⟩
    · intro other member
      rcases List.mem_cons.mp member with rfl | old
      · exact Arena.mem_ids_iff.mpr ⟨record, found⟩
      · exact here.recorded other old
    · intro other
      rw [Arena.get?_erase, here.left]
      by_cases same : other = id <;> simp [same]

theorem Met.noteDirs_eq (here : Met all rest met) (pending : List (Index × Index))
    (ids : List Int) :
    noteDirs all met pending ids = (reach all rest ids).map fun taken =>
      (ids.reverse ++ met,
        (taken.1.map fun record => (record.files, record.dirs)).reverse ++ pending) := by
  induction ids generalizing rest met pending with
  | nil => rfl
  | cons id ids ih =>
    unfold noteDirs reach
    cases found : rest.get? id with
    | none =>
      rw [here.left] at found
      by_cases again : id ∈ met
      · simp [again, Arena.contains_iff.mpr (here.recorded id again), Except.map]
      · rw [if_neg again] at found
        have missing : all.contains id = false := by
          rw [← Bool.not_eq_true, Arena.contains_iff, Arena.mem_ids_iff, found]
          simp
        simp [again, Arena.require, found, missing, Except.map]
    | some record =>
      obtain ⟨unmet, held, onward⟩ := here.insert found
      simp only [if_neg unmet, Arena.require, held, ih onward]
      cases reach all (rest.erase id) ids <;> simp [Except.map]

theorem Met.of_reach (here : Met all rest met) {records : List DirRecord}
    (taken : reach all rest ids = .ok (records, left)) : Met all left (ids.reverse ++ met) where
  recorded id member := by
    rcases List.mem_append.mp member with new | old
    · obtain ⟨record, found⟩ := exists_record_of_reach taken (List.mem_reverse.mp new)
      exact Arena.mem_ids_iff.mpr ⟨record, (here.insert found).2.1⟩
    · exact here.recorded id old
  left id := by
    rw [(reach_eq_ok taken).2.2, here.left]
    by_cases new : id ∈ ids <;> simp [new]

theorem Met.exists_sweeps (here : Met store.dirs rest met) (pending : List (Index × Index))
    (files : List Int) :
    ∃ rounds ≤ rest.size + pending.length,
      (∃ fault, sweep store.files store.dirs rest pending files = .error fault ∧
        store.Sweeps rounds pending files met (.error fault)) ∨
      ∃ found left noted, sweep store.files store.dirs rest pending files = .ok (found, left) ∧
        store.Sweeps rounds pending files met (.ok (found, noted)) ∧ Met store.dirs left noted := by
  fun_induction sweep store.files store.dirs rest pending files generalizing met with
  | case1 rest files => exact ⟨0, Nat.zero_le _, Or.inr ⟨files, rest, met, rfl, .finished, here⟩⟩
  | case2 rest files fileIndex dirIndex later fault refused =>
    exact ⟨1, by rw [List.length_cons]; omega, Or.inl ⟨fault, rfl, .fileFault refused⟩⟩
  | case3 rest files fileIndex dirIndex later required fault refused =>
    have noted := here.noteDirs_eq later dirIndex.ids
    rw [refused] at noted
    exact ⟨1, by rw [List.length_cons]; omega, Or.inl ⟨fault, rfl, .dirFault required noted⟩⟩
  | case4 rest files fileIndex dirIndex later required records left taken ih =>
    have noted := here.noteDirs_eq later dirIndex.ids
    rw [taken] at noted
    have shrinks := size_of_reach taken
    obtain ⟨rounds, bounded, outcome⟩ := ih (here.of_reach taken)
    refine ⟨rounds + 1, ?_, ?_⟩
    · simp only [List.length_append, List.length_reverse, List.length_map,
        List.length_cons] at bounded ⊢
      omega
    · rcases outcome with ⟨fault, failed, further⟩ | ⟨found, rest', met', done, further, onward⟩
      · exact Or.inl ⟨fault, failed, .visit required noted further⟩
      · exact Or.inr ⟨found, rest', met', done, .visit required noted further, onward⟩

def unmet (store : Store) (met : List Int × List Int) : List Int :=
  ascending (store.files.ids.filter (· ∉ met.1) ++ store.dirs.ids.filter (· ∉ met.2))

theorem ascending_congr {ids others : List Int} (same : ∀ id, id ∈ ids ↔ id ∈ others) :
    ascending ids = ascending others :=
  (pairwise_ascending ids).eq_of_mem_iff (pairwise_ascending others) fun id => by
    rw [mem_ascending, mem_ascending, same]

theorem exists_sweeps_checkConsistency (store : Store) : ∃ rounds ≤ store.dirs.size + 1, ∃ result,
    store.Sweeps rounds [(store.rootFiles, store.rootDirs)] [] [] result ∧
      store.checkConsistency = result.map store.unmet := by
  have start : Met store.dirs store.dirs [] := met_start store.dirs
  obtain ⟨rounds, bounded, outcome⟩ := start.exists_sweeps [(store.rootFiles, store.rootDirs)] []
  refine ⟨rounds, bounded, ?_⟩
  unfold checkConsistency
  rcases outcome with ⟨fault, failed, sweeps⟩ | ⟨found, left, noted, done, sweeps, met⟩
  · exact ⟨_, sweeps, by rw [failed]; rfl⟩
  · refine ⟨_, sweeps, ?_⟩
    rw [done]
    refine congrArg Except.ok (ascending_congr fun id => ?_)
    have leftOver : id ∈ left.ids ↔ id ∈ store.dirs.ids ∧ id ∉ noted := by
      rw [Arena.mem_ids_iff, met.left, Arena.mem_ids_iff]
      by_cases member : id ∈ noted <;> simp [member]
    simp only [List.mem_append, List.mem_filter, decide_eq_true_iff, leftOver]

end Store

/-- The check ends on every store: with an answer exactly when what is reached is recorded and forms
a tree, and otherwise with a fault that something reached gives cause for. What it answers are the
records not referred to. -/
theorem consistency_check_is_exact (store : Store) :
    (∃ rounds ≤ store.dirs.size + 1, ∃ result,
        store.Sweeps rounds [(store.rootFiles, store.rootDirs)] [] [] result ∧
          store.checkConsistency = result.map store.unmet) ∧
      ((∃ orphans, store.checkConsistency = .ok orphans) ↔ store.RootedTree) ∧
      (∀ orphans, store.checkConsistency = .ok orphans →
        orphans.Pairwise (· < ·) ∧ ∀ id, id ∈ orphans ↔ store.Unreferenced id) ∧
      ∀ fault, store.checkConsistency = .error fault → store.Flaw fault :=
  ⟨store.exists_sweeps_checkConsistency, Store.exists_checkConsistency_iff,
    fun _ => Store.mem_of_checkConsistency, fun _ => Store.flaw_of_checkConsistency⟩

theorem consistency_check_is_exact_damaged :
    let store := Store.damaged
    let entangled :=
      { store with rootDirs := ⟨"root_dirs", none, ⟨[("d", 2), ("k", 4)], by decide⟩⟩ }
    store.checkConsistency = .ok [3, 4, 5] ∧ store.RootedTree ∧
      (∀ id, store.Unreferenced id ↔ id = 3 ∨ id = 4 ∨ id = 5) ∧
      entangled.checkConsistency = .error (.cycle 4) ∧ entangled.Flaw (.cycle 4) := by
  intro store entangled
  have done : store.checkConsistency = .ok [3, 4, 5] := by decide +kernel
  have failed : entangled.checkConsistency = .error (.cycle 4) := by decide +kernel
  obtain ⟨-, answered, answer, -⟩ := consistency_check_is_exact store
  obtain ⟨-, -, -, flaw⟩ := consistency_check_is_exact entangled
  refine ⟨done, answered.mp ⟨_, done⟩, ?_, failed, flaw _ failed⟩
  intro id
  rw [← (answer _ done).2 id]
  simp

end NameTree
