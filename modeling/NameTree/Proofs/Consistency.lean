import NameTree.Proofs.Resolution
import NameTree.Proofs.Tree
import NameTree.Store.Consistency

/-!
What the consistency check finds, on any store. A fault it ends in is there: a binding in a
directory that is reached leads to no record, or two of them lead to one directory. When it ends in
an answer there is no such flaw, and the answer lists the records that nothing reached refers to. An
intact store has neither flaws nor such records.
-/

namespace NameTree

def Kind.arena : Kind → String
  | .file => "file"
  | .dir => "dir"

namespace Store

def Reached (store : Store) (place : Place) : Prop := ∃ names, store.follow none names = some place

/-- The faults that a store gives cause for. -/
inductive Flaw (store : Store) : Fault → Prop where
  | missing {kind : Kind} {place : Place} {name : String} {id : Int} (reached : store.Reached place)
    (bound : store.binding? kind place name = some id) (missing : id ∉ store.ids kind) :
    store.Flaw (.mismatch id kind.arena)
  | shared {place elsewhere : Place} {name other : String} {id : Int}
    (reached : store.Reached place) (bound : store.binding? .dir place name = some id)
    (reachedAgain : store.Reached elsewhere)
    (boundAgain : store.binding? .dir elsewhere other = some id)
    (distinct : ¬ (elsewhere = place ∧ other = name)) : store.Flaw (.cycle id)

variable {store : Store}

theorem reached_root (store : Store) : store.Reached none := ⟨[], rfl⟩

theorem Reached.child {place : Place} {name : String} {id : Int} (reached : store.Reached place)
    (bound : store.binding? .dir place name = some id) : store.Reached (some id) := by
  obtain ⟨names, led⟩ := reached
  exact ⟨names ++ [name], follow_concat_eq_some_iff.mpr ⟨place, id, led, bound, rfl⟩⟩

section Reach

variable {all rest left : Arena "dir" DirRecord} {ids : List Int} {records : List DirRecord}
  {fault : Fault}

theorem requireFiles_eq_ok_iff {files : Arena "file" FileRecord} :
    requireFiles files ids = .ok () ↔ ∀ id ∈ ids, id ∈ files.ids := by
  induction ids with
  | nil => simp [requireFiles]
  | cons id ids ih =>
    cases found : files.get? id <;> simp [requireFiles, Arena.require, found, ih, Arena.mem_ids_iff]

theorem requireFiles_eq_error {files : Arena "file" FileRecord}
    (failed : requireFiles files ids = .error fault) :
    ∃ id ∈ ids, id ∉ files.ids ∧ fault = .mismatch id "file" := by
  induction ids with
  | nil => cases failed
  | cons id ids ih =>
    unfold requireFiles at failed
    split at failed
    · rename_i refused
      cases failed
      obtain ⟨absent, rfl⟩ := Arena.require_eq_error_iff.mp refused
      exact ⟨id, List.mem_cons_self, by simp [Arena.mem_ids_iff, absent], rfl⟩
    · obtain ⟨other, member, absent, same⟩ := ih failed
      exact ⟨other, List.mem_cons_of_mem _ member, absent, same⟩

theorem reach_eq_ok (done : reach all rest ids = .ok (records, left)) :
    ids.Nodup ∧ ids.map rest.get? = records.map some ∧
      ∀ id, left.get? id = if id ∈ ids then none else rest.get? id := by
  induction ids generalizing rest records left with
  | nil =>
    cases done
    simp
  | cons first ids ih =>
    unfold reach at done
    split at done
    · cases done
    · rename_i record found
      split at done
      · cases done
      · rename_i later left' next
        cases done
        obtain ⟨distinct, taken, remaining⟩ := ih next
        have notLater : first ∉ ids := by
          intro again
          have held : (rest.erase first).get? first ∈ later.map some :=
            taken ▸ List.mem_map_of_mem again
          simp [Arena.get?_erase] at held
        refine ⟨List.nodup_cons.mpr ⟨notLater, distinct⟩, ?_, ?_⟩
        · have same : ids.map rest.get? = ids.map (rest.erase first).get? := by
            refine List.map_congr_left fun id member => ?_
            have ne : id ≠ first := fun isFirst => notLater (isFirst ▸ member)
            rw [Arena.get?_erase, if_neg ne]
          rw [List.map_cons, List.map_cons, found, same, taken]
        · intro id
          rw [remaining, Arena.get?_erase]
          by_cases isFirst : id = first <;> by_cases isLater : id ∈ ids <;> simp [isFirst, isLater]

theorem exists_record_of_reach (taken : reach all rest ids = .ok (records, left)) {id : Int}
    (member : id ∈ ids) :
    ∃ record, rest.get? id = some record := by
  have inRest : rest.get? id ∈ records.map some :=
    (reach_eq_ok taken).2.1 ▸ List.mem_map_of_mem member
  obtain ⟨record, -, found⟩ := List.mem_map.mp inRest
  exact ⟨record, found.symm⟩

theorem reach_eq_error (failed : reach all rest ids = .error fault) :
    ∃ front id back, ids = front ++ id :: back ∧ (rest.get? id = none ∨ id ∈ front) ∧
      fault = if all.contains id then .cycle id else .mismatch id "dir" := by
  induction ids generalizing rest with
  | nil => cases failed
  | cons first ids ih =>
    unfold reach at failed
    split at failed
    · rename_i absent
      cases failed
      exact ⟨[], first, ids, rfl, Or.inl absent, rfl⟩
    · split at failed
      · rename_i next
        cases failed
        obtain ⟨front, id, back, split_, gone, same⟩ := ih next
        refine ⟨first :: front, id, back, by rw [split_]; rfl, ?_, same⟩
        rw [Arena.get?_erase] at gone
        by_cases isFirst : id = first
        · exact Or.inr (isFirst ▸ List.mem_cons_self)
        · rw [if_neg isFirst] at gone
          exact gone.imp_right (List.mem_cons_of_mem _)
      · cases failed

end Reach

/-- A stage of the check. The directories in `closed` have been visited and their bindings found
in order; those in `open_` are known but still to be visited, and `rest` holds the records of
all others. -/
structure Sweeping (store : Store) (rest : Arena "dir" DirRecord) (closed open_ : List Place)
    (reached : List Int) : Prop where
  root : none ∈ closed ∨ none ∈ open_
  rooted : ∀ place, place ∈ closed ∨ place ∈ open_ → store.Reached place
  apart : ∀ place ∈ open_, place ∉ closed
  distinct : open_.Nodup
  left : ∀ id, rest.get? id =
    if some id ∈ closed ∨ some id ∈ open_ then none else store.dirs.get? id
  dirs : ∀ id, (some id ∈ closed ∨ some id ∈ open_) ↔
    ∃ place ∈ closed, ∃ name, store.binding? .dir place name = some id
  files : ∀ id, id ∈ reached ↔ ∃ place ∈ closed, ∃ name, store.binding? .file place name = some id
  recorded : ∀ kind, ∀ place ∈ closed, ∀ name id, store.binding? kind place name = some id →
    id ∈ store.ids kind
  unique : ∀ place ∈ closed, ∀ elsewhere ∈ closed, ∀ name other id,
    store.binding? .dir place name = some id → store.binding? .dir elsewhere other = some id →
    elsewhere = place ∧ other = name

section Sweeping

variable {rest left : Arena "dir" DirRecord} {place : Place} {closed later : List Place}
  {reached : List Int} {fileIndex dirIndex : Index} {records : List DirRecord} {fault : Fault}

theorem sweeping_start (store : Store) : store.Sweeping store.dirs [] [none] [] where
  root := Or.inr List.mem_cons_self
  rooted place known := by
    simp only [List.not_mem_nil, List.mem_singleton, false_or] at known
    exact known ▸ reached_root store
  apart := by simp
  distinct := List.nodup_singleton none
  left := by simp
  dirs := by simp
  files := by simp
  recorded := by simp
  unique := by simp

theorem Sweeping.fresh_of_reach (stage : store.Sweeping rest closed later reached) {ids : List Int}
    (taken : reach store.dirs rest ids = .ok (records, left)) :
    ∀ id ∈ ids, ¬ (some id ∈ closed ∨ some id ∈ later) ∧ id ∈ store.ids .dir := by
  intro id member
  obtain ⟨record, found⟩ := exists_record_of_reach taken member
  rw [stage.left] at found
  split at found
  · cases found
  · rename_i unknown
    exact ⟨unknown, mem_ids_dir.mpr ⟨record, found⟩⟩

theorem Sweeping.visit (stage : store.Sweeping rest closed (place :: later) reached)
    (present : store.indexes place = .ok (fileIndex, dirIndex))
    (required : requireFiles store.files fileIndex.ids = .ok ())
    (taken : reach store.dirs rest dirIndex.ids = .ok (records, left)) :
    store.Sweeping left (place :: closed) ((dirIndex.ids.map some).reverse ++ later)
      (fileIndex.ids ++ reached) := by
  obtain ⟨fileIndex_at, dirIndex_at⟩ := indexes_eq_ok_iff.mp present
  obtain ⟨distinct, -, remaining⟩ := reach_eq_ok taken
  obtain ⟨notLater, laterDistinct⟩ := List.nodup_cons.mp stage.distinct
  have isFile (id : Int) : (∃ name, store.binding? .file place name = some id) ↔
      id ∈ fileIndex.ids :=
    exists_binding?_iff fileIndex_at
  have isDir (id : Int) : (∃ name, store.binding? .dir place name = some id) ↔ id ∈ dirIndex.ids :=
    exists_binding?_iff dirIndex_at
  have fresh := stage.fresh_of_reach taken
  have placeReached : store.Reached place := stage.rooted place (Or.inr List.mem_cons_self)
  have known (other : Place) :
      (other ∈ place :: closed ∨ other ∈ (dirIndex.ids.map some).reverse ++ later) ↔
      (other ∈ closed ∨ other ∈ place :: later) ∨ ∃ id ∈ dirIndex.ids, some id = other := by
    simp only [List.mem_cons, List.mem_append, List.mem_reverse, List.mem_map, or_assoc, or_comm,
      or_left_comm]
  -- a directory bound at the new place is not bound at one that was closed before
  have notBoth : ∀ elsewhere ∈ closed, ∀ name other id,
      store.binding? .dir place name = some id → store.binding? .dir elsewhere other ≠ some id := by
    intro elsewhere wasClosed name other id bound again
    have isKnown := (stage.dirs id).mpr ⟨elsewhere, wasClosed, other, again⟩
    exact (fresh id ((isDir id).mp ⟨name, bound⟩)).1 isKnown
  constructor
  case root => exact (known none).mpr (Or.inl stage.root)
  case rooted =>
    intro other isKnown
    rcases (known other).mp isKnown with old | ⟨id, member, rfl⟩
    · exact stage.rooted other old
    · obtain ⟨name, bound⟩ := (isDir id).mpr member
      exact placeReached.child bound
  case apart =>
    intro other isOpen isClosed
    rcases List.mem_append.mp isOpen with new | old
    · obtain ⟨id, member, rfl⟩ := List.mem_map.mp (List.mem_reverse.mp new)
      refine (fresh id member).1 ?_
      rcases List.mem_cons.mp isClosed with same | wasClosed
      · exact Or.inr (same ▸ List.mem_cons_self)
      · exact Or.inl wasClosed
    · rcases List.mem_cons.mp isClosed with same | wasClosed
      · exact notLater (same ▸ old)
      · exact stage.apart other (List.mem_cons_of_mem _ old) wasClosed
  case distinct =>
    rw [List.nodup_append]
    refine ⟨List.nodup_reverse.mpr (distinct.map (Option.some_injective Int)), laterDistinct, ?_⟩
    intro new isNew old isOld same
    obtain ⟨id, member, rfl⟩ := List.mem_map.mp (List.mem_reverse.mp isNew)
    exact (fresh id member).1 (Or.inr (List.mem_cons_of_mem _ (same ▸ isOld)))
  case left =>
    intro id
    rw [remaining, stage.left]
    simp only [known, Option.some.injEq, exists_eq_right]
    by_cases member : id ∈ dirIndex.ids <;> simp [member]
  case dirs =>
    intro id
    rw [known, stage.dirs]
    simp only [Option.some.injEq, exists_eq_right, List.mem_cons, exists_eq_or_imp, isDir]
    rw [or_comm]
  case files =>
    intro id
    rw [List.mem_append, stage.files]
    simp only [List.mem_cons, exists_eq_or_imp, isFile]
  case recorded =>
    intro kind other isClosed name id bound
    rcases List.mem_cons.mp isClosed with rfl | wasClosed
    · cases kind with
      | file => exact requireFiles_eq_ok_iff.mp required id ((isFile id).mp ⟨name, bound⟩)
      | dir => exact (fresh id ((isDir id).mp ⟨name, bound⟩)).2
    · exact stage.recorded kind other wasClosed name id bound
  case unique => exact unique_cons id dirIndex_at distinct notBoth stage.unique

theorem Sweeping.flaw_of_reach (stage : store.Sweeping rest closed (place :: later) reached)
    (dirIndex_at : store.index .dir place = .ok dirIndex)
    (failed : reach store.dirs rest dirIndex.ids = .error fault) : store.Flaw fault := by
  obtain ⟨front, id, back, listed, gone, same⟩ := reach_eq_error failed
  have placeReached : store.Reached place := stage.rooted place (Or.inr List.mem_cons_self)
  have member : id ∈ dirIndex.ids := by simp [listed]
  obtain ⟨name, bound⟩ := (exists_binding?_iff dirIndex_at).mpr member
  by_cases recorded : id ∈ store.ids .dir
  · have cyclic : fault = .cycle id := by
      rw [same, if_pos (Arena.contains_iff.mpr recorded)]
    rw [cyclic]
    rcases gone with absent | again
    · rw [stage.left] at absent
      split at absent
      · rename_i known
        obtain ⟨elsewhere, wasClosed, other, boundAgain⟩ := (stage.dirs id).mp known
        refine .shared placeReached bound (stage.rooted elsewhere (Or.inl wasClosed)) boundAgain ?_
        intro all
        rcases all with ⟨rfl, -⟩
        exact stage.apart _ List.mem_cons_self wasClosed
      · obtain ⟨record, found⟩ := mem_ids_dir.mp recorded
        rw [found] at absent
        cases absent
    · obtain ⟨name, other, found, foundAgain, ne⟩ := exists_names_of_repeated listed again
      rw [← binding?_of_index dirIndex_at] at found foundAgain
      exact .shared placeReached found placeReached foundAgain fun both => ne both.2
  · have absent : ¬ store.dirs.contains id = true :=
      fun held => recorded (Arena.contains_iff.mp held)
    rw [same, if_neg absent]
    exact .missing placeReached bound recorded

theorem Sweeping.flaw_of_requireFiles (stage : store.Sweeping rest closed (place :: later) reached)
    (fileIndex_at : store.index .file place = .ok fileIndex)
    (failed : requireFiles store.files fileIndex.ids = .error fault) : store.Flaw fault := by
  obtain ⟨id, member, missing, rfl⟩ := requireFiles_eq_error failed
  obtain ⟨name, bound⟩ := (exists_binding?_iff fileIndex_at).mpr member
  exact .missing (stage.rooted place (Or.inr List.mem_cons_self)) bound missing

theorem indexes_of_reach (stage : store.Sweeping rest closed (place :: later) reached)
    (taken : reach store.dirs rest dirIndex.ids = .ok (records, left)) :
    (dirIndex.ids.map some).map store.indexes = records.map fun r => .ok (r.files, r.dirs) := by
  obtain ⟨-, held, -⟩ := reach_eq_ok taken
  have aligned : ∀ (ids : List Int) (records : List DirRecord), ids.map rest.get? =
      records.map some →
      (ids.map some).map store.indexes = records.map fun r => .ok (r.files, r.dirs) := by
    intro ids
    induction ids with
    | nil =>
      intro records held
      rw [List.map_nil, eq_comm, List.map_eq_nil_iff] at held
      rw [held]
      rfl
    | cons id ids ih =>
      intro records held
      obtain ⟨record, others, rfl, found, heldOthers⟩ := List.map_eq_cons_iff.mp held.symm
      have recorded : store.dirs.get? id = some record := by
        rw [stage.left] at found
        split at found
        · cases found
        · exact found.symm
      have here : store.indexes (some id) = .ok (record.files, record.dirs) :=
        indexes_eq_ok_iff.mpr ⟨index_place recorded, index_place recorded⟩
      rw [List.map_cons, List.map_cons, here, ih others heldOthers.symm, List.map_cons]
  exact aligned dirIndex.ids records held

/-- The check ends when nothing is left to visit, or in a fault that the store gives cause for. -/
theorem sweep_outcome {rest : Arena "dir" DirRecord} {closed open_ : List Place}
    {pending : List (Index × Index)} {reached : List Int}
    (stage : store.Sweeping rest closed open_ reached)
    (aligned : open_.map store.indexes = pending.map .ok) :
    (∃ fault, sweep store.files store.dirs rest pending reached = .error fault ∧ store.Flaw fault) ∨
      ∃ found left visited, sweep store.files store.dirs rest pending reached = .ok (found, left) ∧
        store.Sweeping left visited [] found := by
  fun_induction sweep store.files store.dirs rest pending reached generalizing closed open_ with
  | case1 rest reached =>
    rw [List.map_nil, List.map_eq_nil_iff] at aligned
    subst aligned
    exact Or.inr ⟨reached, rest, closed, rfl, stage⟩
  | case2 rest reached fileIndex dirIndex later fault refused =>
    obtain ⟨place, places, rfl, here, -⟩ := List.map_eq_cons_iff.mp aligned
    exact Or.inl ⟨fault, rfl, stage.flaw_of_requireFiles (indexes_eq_ok_iff.mp here).1 refused⟩
  | case3 rest reached fileIndex dirIndex later required fault refused =>
    obtain ⟨place, places, rfl, here, -⟩ := List.map_eq_cons_iff.mp aligned
    exact Or.inl ⟨fault, rfl, stage.flaw_of_reach (indexes_eq_ok_iff.mp here).2 refused⟩
  | case4 rest reached fileIndex dirIndex later required records left taken ih =>
    obtain ⟨place, places, rfl, here, further⟩ := List.map_eq_cons_iff.mp aligned
    refine ih (stage.visit here required taken) ?_
    rw [List.map_append, List.map_reverse, indexes_of_reach stage taken, further, List.map_append,
      List.map_reverse, List.map_map]
    rfl

end Sweeping

theorem Sweeping.reached_iff {left : Arena "dir" DirRecord} {visited : List Place}
    {found : List Int} (stage : store.Sweeping left visited [] found) (place : Place) :
    place ∈ visited ↔ store.Reached place := by
  -- bindings lead from visited directories to visited ones only
  constructor
  · exact fun member => stage.rooted place (Or.inl member)
  · intro given
    rcases given with ⟨names, led⟩
    induction names using List.reverseRecOn generalizing place with
    | nil =>
      cases led
      exact stage.root.resolve_right List.not_mem_nil
    | append_singleton front name ih =>
      obtain ⟨parent, id, ledParent, bound, rfl⟩ := follow_concat_eq_some_iff.mp led
      have known := (stage.dirs id).mpr ⟨parent, ih parent ledParent, name, bound⟩
      exact known.resolve_right List.not_mem_nil

theorem checkConsistency_outcome (store : Store) :
    (∃ fault, store.checkConsistency = .error fault ∧ store.Flaw fault) ∨
      ∃ found left visited, store.checkConsistency =
          .ok (ascending (store.files.ids.filter (· ∉ found) ++ left.ids)) ∧
        store.Sweeping left visited [] found := by
  have aligned : [none].map store.indexes = [(store.rootFiles, store.rootDirs)].map .ok := rfl
  unfold checkConsistency
  rcases sweep_outcome (sweeping_start store) aligned with
    ⟨fault, failed, flaw⟩ | ⟨found, left, visited, done, stage⟩
  · exact Or.inl ⟨fault, by rw [failed], flaw⟩
  · exact Or.inr ⟨found, left, visited, by rw [done], stage⟩

/-- What is reached from the root has records, and the directories among it form a tree. -/
structure RootedTree (store : Store) : Prop where
  recorded : ∀ kind place name id, store.Reached place → store.binding? kind place name = some id →
    id ∈ store.ids kind
  bound_once : ∀ id, store.Reached (some id) → ∃! binding : Place × String,
    store.Reached binding.1 ∧ store.binding? .dir binding.1 binding.2 = some id

theorem exists_binding?_of_reached {id : Int} (reached : store.Reached (some id)) :
    ∃ place name, store.Reached place ∧ store.binding? .dir place name = some id := by
  obtain ⟨names, led⟩ := reached
  obtain ⟨front, leaf, place, -, ledFront, bound⟩ :=
    exists_concat_of_resolve? (follow_eq_some_dir_iff.mp led)
  exact ⟨place, leaf, ⟨front, ledFront⟩, bound⟩

theorem RootedTree.not_flaw (tree : store.RootedTree) (fault : Fault) : ¬ store.Flaw fault := by
  intro flaw
  cases flaw with
  | missing reached bound missing => exact missing (tree.recorded _ _ _ _ reached bound)
  | @shared place elsewhere name other id reached bound reachedAgain boundAgain distinct =>
    have same : (elsewhere, other) = (place, name) :=
      (tree.bound_once id (reached.child bound)).unique ⟨reachedAgain, boundAgain⟩ ⟨reached, bound⟩
    exact distinct (Prod.mk.inj same)

theorem Linked.rootedTree (linked : store.Linked) : store.RootedTree where
  recorded _ _ _ _ _ bound := linked.recorded bound
  bound_once id reached := by
    obtain ⟨place, name, reachedPlace, bound⟩ := exists_binding?_of_reached reached
    refine ⟨(place, name), ⟨reachedPlace, bound⟩, ?_⟩
    rintro ⟨elsewhere, other⟩ ⟨-, again⟩
    exact Prod.ext (linked.unique bound again).1 (linked.unique bound again).2

theorem Sweeping.rootedTree {left : Arena "dir" DirRecord} {visited : List Place} {found : List Int}
    (stage : store.Sweeping left visited [] found) : store.RootedTree where
  recorded kind place name id reached bound :=
    stage.recorded kind place ((stage.reached_iff place).mpr reached) name id bound
  bound_once id reached := by
    obtain ⟨place, name, reachedPlace, bound⟩ := exists_binding?_of_reached reached
    refine ⟨(place, name), ⟨reachedPlace, bound⟩, ?_⟩
    rintro ⟨elsewhere, other⟩ ⟨reachedAgain, again⟩
    obtain ⟨samePlace, sameName⟩ :=
      stage.unique place ((stage.reached_iff _).mpr reachedPlace) elsewhere
      ((stage.reached_iff _).mpr reachedAgain) name other id bound again
    exact Prod.ext samePlace sameName

theorem exists_checkConsistency_iff : (∃ orphans, store.checkConsistency = .ok orphans) ↔
    store.RootedTree := by
  rcases checkConsistency_outcome store with
    ⟨fault, failed, flaw⟩ | ⟨found, left, visited, done, stage⟩
  · simp only [failed, reduceCtorEq, exists_false, false_iff]
    exact fun tree => tree.not_flaw fault flaw
  · exact iff_of_true ⟨_, done⟩ stage.rootedTree

theorem flaw_of_checkConsistency {fault : Fault} (failed : store.checkConsistency = .error fault) :
    store.Flaw fault := by
  rcases checkConsistency_outcome store with ⟨other, refused, flaw⟩ | ⟨_, _, _, done, -⟩
  · rw [failed] at refused
    cases refused
    exact flaw
  · rw [failed] at done
    cases done

/-- A record that nothing reached refers to: a file that is bound nowhere, or a directory that no
names lead to. -/
def Unreferenced (store : Store) (id : Int) : Prop :=
  (id ∈ store.ids .file ∧ ¬ ∃ place name, store.Reached place ∧
    store.binding? .file place name = some id) ∨
    (id ∈ store.ids .dir ∧ ¬ store.Reached (some id))

theorem Sweeping.mem_unmet_iff {left : Arena "dir" DirRecord} {visited : List Place}
    {found : List Int} (stage : store.Sweeping left visited [] found) (id : Int) :
    id ∈ store.files.ids.filter (· ∉ found) ++ left.ids ↔ store.Unreferenced id := by
  have metFile : id ∈ found ↔ ∃ place name, store.Reached place ∧
      store.binding? .file place name = some id := by
    simp only [stage.files, stage.reached_iff, exists_and_left]
  have leftDir : id ∈ left.ids ↔ id ∈ store.ids .dir ∧ ¬ store.Reached (some id) := by
    rw [← stage.reached_iff, mem_ids_dir, Arena.mem_ids_iff, stage.left]
    by_cases member : some id ∈ visited <;> simp [member]
  rw [List.mem_append, List.mem_filter, decide_eq_true_iff, metFile, leftDir]
  rfl

theorem mem_of_checkConsistency {orphans : List Int} (done : store.checkConsistency = .ok orphans) :
    orphans.Pairwise (· < ·) ∧ ∀ id, id ∈ orphans ↔ store.Unreferenced id := by
  rcases checkConsistency_outcome store with
    ⟨fault, failed, -⟩ | ⟨found, left, visited, listed, stage⟩
  · rw [failed] at done
    cases done
  · rw [listed] at done
    cases done
    exact ⟨pairwise_ascending _, fun id => mem_ascending.trans (stage.mem_unmet_iff id)⟩

theorem Intact.checkConsistency (intact : store.Intact) : store.checkConsistency = .ok [] := by
  obtain ⟨orphans, done⟩ := exists_checkConsistency_iff.mpr intact.toLinked.rootedTree
  rw [done, Except.ok.injEq, List.eq_nil_iff_forall_not_mem]
  intro id listed
  rcases ((mem_of_checkConsistency done).2 id).mp listed with ⟨isFile, unbound⟩ | ⟨isDir, unreached⟩
  · obtain ⟨place, name, bound⟩ := intact.bound isFile
    exact unbound ⟨place, name, intact.exists_follow (hasPlace_of_binding? bound), bound⟩
  · have present : store.HasPlace (some id) := isDir
    exact unreached (intact.exists_follow present)

end Store
end NameTree
