import NameTree.Proofs.Checked
import NameTree.Proofs.Under
import NameTree.Store.Subtree

/-!
The search for a subtree, on any store. It enters each directory once and so ends after as many
rounds as there are directories, and one more. It finds exactly what lies under its top, unless a
directory there has no record or can be reached twice; then it ends in a fault that the store gives
cause for.
-/

namespace NameTree

namespace Store

/-- What lies under `top` has records, and it forms a tree. -/
structure SubtreeIsTree (store : Store) (top : Int) : Prop where
  recorded : ∀ id, store.Under top id → id ∈ store.ids .dir
  no_way_back : ∀ parent name, store.Under top parent →
    store.binding? .dir (some parent) name ≠ some top
  bound_once : ∀ id, store.Under top id → id ≠ top → ∃! edge : Int × String,
    store.Under top edge.1 ∧ store.binding? .dir (some edge.1) edge.2 = some id

/-- The faults that what lies under `top` gives cause for. -/
inductive SubtreeFlaw (store : Store) (top : Int) : Fault → Prop where
  | missing {id : Int} (under : store.Under top id) (missing : id ∉ store.ids .dir) :
    SubtreeFlaw store top (.mismatch id "dir")
  | back {parent : Int} {name : String} (under : store.Under top parent)
    (bound : store.binding? .dir (some parent) name = some top) : SubtreeFlaw store top (.cycle top)
  | shared {parent elsewhere id : Int} {name other : String} (under : store.Under top parent)
    (bound : store.binding? .dir (some parent) name = some id)
    (underAgain : store.Under top elsewhere)
    (boundAgain : store.binding? .dir (some elsewhere) other = some id)
    (distinct : ¬ (elsewhere = parent ∧ other = name)) : SubtreeFlaw store top (.cycle id)

/-- The loop over pending directories, with the directories seen and the files found so far. It ends
in these, or in the first fault. -/
inductive Explores (store : Store) : Nat → List Int → List Int → List Int →
    Except Fault (List Int × List Int) → Prop where
  | finished {seen files : List Int} : Explores store 0 [] seen files (.ok (files, seen))
  | missing {id : Int} {pending seen files : List Int} {fault : Fault}
    (refused : store.dirs.require id = .error fault) :
    Explores store 1 (id :: pending) seen files (.error fault)
  | cycle {id : Int} {pending seen files : List Int} {record : DirRecord} {fault : Fault}
    (found : store.dirs.require id = .ok record)
    (refused : meet seen record.dirs.ids = .error fault) :
    Explores store 1 (id :: pending) seen files (.error fault)
  | enter {id : Int} {pending seen met files : List Int} {record : DirRecord} {rounds : Nat}
    {result : Except Fault (List Int × List Int)} (found : store.dirs.require id = .ok record)
    (agreed : meet seen record.dirs.ids = .ok met)
    (further : Explores store rounds (record.dirs.ids.reverse ++ pending) met
      (record.files.ids ++ files) result) :
    Explores store (rounds + 1) (id :: pending) seen files result

variable {store : Store} {top : Int}

theorem SubtreeIsTree.not_flaw (tree : store.SubtreeIsTree top) (fault : Fault) :
    ¬ store.SubtreeFlaw top fault := by
  intro flaw
  cases flaw with
  | missing under missing => exact missing (tree.recorded _ under)
  | back under bound => exact tree.no_way_back _ _ under bound
  | @shared parent elsewhere id name other under bound underAgain boundAgain distinct =>
    have isChild : id ≠ top := fun same => tree.no_way_back _ _ under (same ▸ bound)
    have same : (elsewhere, other) = (parent, name) :=
      (tree.bound_once id (under.tail ⟨name, bound⟩) isChild).unique ⟨underAgain, boundAgain⟩
        ⟨under, bound⟩
    exact distinct (Prod.mk.inj same)

section Meet

variable {seen children met : List Int} {fault : Fault}

theorem meet_eq_ok_iff :
    meet seen children = .ok met ↔
      met = children.reverse ++ seen ∧ children.Nodup ∧ ∀ child ∈ children, child ∉ seen := by
  induction children generalizing seen with
  | nil => simp [meet, eq_comm]
  | cons child rest ih =>
    by_cases known : child ∈ seen
    · simp [meet, known]
    · simp only [meet, known, if_false, ih, List.reverse_cons, List.append_assoc,
        List.singleton_append, List.nodup_cons, List.mem_cons, not_or, forall_eq_or_imp,
        not_false_eq_true, true_and]
      constructor
      · intro given
        rcases given with ⟨same, distinct, apart⟩
        exact ⟨same, ⟨fun member => (apart child member).1 rfl, distinct⟩,
          fun id member => (apart id member).2⟩
      · intro given
        rcases given with ⟨same, ⟨fresh, distinct⟩, apart⟩
        refine ⟨same, distinct, fun id member => ⟨?_, apart id member⟩⟩
        intro equal
        exact fresh (equal ▸ member)

theorem meet_eq_error (failed : meet seen children = .error fault) :
    ∃ front child back, children = front ++ child :: back ∧ (child ∈ seen ∨ child ∈ front) ∧
      fault = .cycle child := by
  induction children generalizing seen with
  | nil => cases failed
  | cons first rest ih =>
    unfold meet at failed
    split at failed
    · rename_i known
      cases failed
      exact ⟨[], first, rest, rfl, Or.inl known, rfl⟩
    · obtain ⟨front, child, back, rfl, again, same⟩ := ih failed
      refine ⟨first :: front, child, back, rfl, ?_, same⟩
      rcases again with known | earlier
      · rcases List.mem_cons.mp known with rfl | known
        · exact Or.inr List.mem_cons_self
        · exact Or.inl known
      · exact Or.inr (List.mem_cons_of_mem _ earlier)

end Meet

/-- A stage of the search. The directories in `entered` have been entered, and what they bind was
seen in order; those in `pending` are seen but still to be entered, and `rest` holds the records of
all that were not entered. -/
structure Exploring (store : Store) (top : Int) (rest : Arena "dir" DirRecord)
    (entered pending seen files : List Int) : Prop where
  seen_iff : ∀ id, id ∈ seen ↔ id ∈ entered ∨ id ∈ pending
  apart : ∀ id ∈ pending, id ∉ entered
  distinct : pending.Nodup
  left : ∀ id, rest.get? id = if id ∈ entered then none else store.dirs.get? id
  under : ∀ id ∈ seen, store.Under top id
  origin : ∀ id, id ∈ seen ↔ id = top ∨ ∃ parent ∈ entered, store.Child parent id
  files : ∀ id, id ∈ files ↔
    ∃ parent ∈ entered, ∃ name, store.binding? .file (some parent) name = some id
  recorded : ∀ id ∈ entered, id ∈ store.ids .dir
  no_way_back : ∀ parent ∈ entered, ¬ store.Child parent top
  unique : ∀ parent ∈ entered, ∀ elsewhere ∈ entered, ∀ name other id,
    store.binding? .dir (some parent) name = some id →
    store.binding? .dir (some elsewhere) other = some id →
    elsewhere = parent ∧ other = name

theorem exploring_start (store : Store) (top : Int) :
    store.Exploring top store.dirs [] [top] [top] [] where
  seen_iff := by simp
  apart := by simp
  distinct := List.nodup_singleton top
  left := by simp
  under id member := by
    rw [List.mem_singleton] at member
    subst member
    exact Relation.ReflTransGen.refl
  origin := by simp
  files := by simp
  recorded := by simp
  no_way_back := by simp
  unique := by simp

section Explore

variable {rest : Arena "dir" DirRecord} {id : Int} {entered pending later seen met files : List Int}
  {record : DirRecord} {fault : Fault}

theorem Exploring.get?_rest (stage : store.Exploring top rest entered (id :: later) seen files) :
    rest.get? id = store.dirs.get? id := by
  rw [stage.left, if_neg (stage.apart id List.mem_cons_self)]

theorem Exploring.top_mem (stage : store.Exploring top rest entered pending seen files) :
    top ∈ seen :=
  (stage.origin top).mpr (Or.inl rfl)

theorem Exploring.enter (stage : store.Exploring top rest entered (id :: later) seen files)
    (found : rest.get? id = some record) (agreed : meet seen record.dirs.ids = .ok met) :
    store.Exploring top (rest.erase id) (id :: entered) (record.dirs.ids.reverse ++ later) met
      (record.files.ids ++ files) := by
  obtain ⟨rfl, distinct, fresh⟩ := meet_eq_ok_iff.mp agreed
  obtain ⟨notLater, laterDistinct⟩ := List.nodup_cons.mp stage.distinct
  have held : store.dirs.get? id = some record := stage.get?_rest.symm.trans found
  have isChild (other : Int) : store.Child id other ↔ other ∈ record.dirs.ids :=
    child_iff_mem_ids held
  have isFile (other : Int) : (∃ name, store.binding? .file (some id) name = some other) ↔
      other ∈ record.files.ids := file_iff_mem_ids held
  have idSeen : id ∈ seen := (stage.seen_iff id).mpr (Or.inr List.mem_cons_self)
  have enteredSeen {other : Int} (member : other ∈ entered) : other ∈ seen :=
    (stage.seen_iff other).mpr (Or.inl member)
  have laterSeen {other : Int} (member : other ∈ later) : other ∈ seen :=
    (stage.seen_iff other).mpr (Or.inr (List.mem_cons_of_mem _ member))
  -- what is bound in a directory entered before was seen, so it is not bound in this one
  have notBoth : ∀ elsewhere ∈ entered, ∀ name other child,
      store.binding? .dir (some id) name = some child →
      store.binding? .dir (some elsewhere) other ≠ some child := by
    intro elsewhere wasEntered name other child bound again
    have known : child ∈ seen :=
      (stage.origin child).mpr (Or.inr ⟨elsewhere, wasEntered, other, again⟩)
    exact fresh child ((isChild child).mp ⟨name, bound⟩) known
  constructor
  case seen_iff =>
    intro other
    simp only [List.mem_append, List.mem_reverse, List.mem_cons, stage.seen_iff, or_assoc, or_comm,
      or_left_comm]
  case apart =>
    intro other isPending isEntered
    have wasSeen : other ∈ seen := by
      rcases List.mem_cons.mp isEntered with rfl | old
      · exact idSeen
      · exact enteredSeen old
    rcases List.mem_append.mp isPending with child | isLater
    · exact fresh other (List.mem_reverse.mp child) wasSeen
    · rcases List.mem_cons.mp isEntered with rfl | old
      · exact notLater isLater
      · exact stage.apart other (List.mem_cons_of_mem _ isLater) old
  case distinct =>
    rw [List.nodup_append]
    refine ⟨List.nodup_reverse.mpr distinct, laterDistinct, ?_⟩
    intro child member other isLater same
    subst same
    exact fresh child (List.mem_reverse.mp member) (laterSeen isLater)
  case left =>
    intro other
    rw [Arena.get?_erase, stage.left]
    by_cases same : other = id <;> simp [same]
  case under =>
    intro other member
    rcases List.mem_append.mp member with child | old
    · exact (stage.under id idSeen).tail ((isChild other).mpr (List.mem_reverse.mp child))
    · exact stage.under other old
  case origin =>
    intro other
    rw [List.mem_append, List.mem_reverse, stage.origin]
    simp only [List.mem_cons, exists_eq_or_imp, isChild]
    rw [or_left_comm]
  case files =>
    intro other
    rw [List.mem_append, stage.files]
    simp only [List.mem_cons, exists_eq_or_imp, isFile]
  case recorded =>
    intro other member
    rcases List.mem_cons.mp member with rfl | old
    · exact mem_ids_dir.mpr ⟨record, held⟩
    · exact stage.recorded other old
  case no_way_back =>
    intro parent member child
    rcases List.mem_cons.mp member with rfl | old
    · exact fresh top ((isChild top).mp child) stage.top_mem
    · exact stage.no_way_back parent old child
  case unique => exact unique_cons some (index_place held) distinct notBoth stage.unique

theorem Exploring.flaw_of_missing
    (stage : store.Exploring top rest entered (id :: later) seen files)
    (missing : rest.get? id = none) : store.SubtreeFlaw top (.mismatch id "dir") := by
  refine .missing (stage.under id ((stage.seen_iff id).mpr (Or.inr List.mem_cons_self))) ?_
  rw [mem_ids_dir, ← stage.get?_rest, missing]
  simp

theorem Exploring.flaw_of_meet (stage : store.Exploring top rest entered (id :: later) seen files)
    (found : rest.get? id = some record) (failed : meet seen record.dirs.ids = .error fault) :
    store.SubtreeFlaw top fault := by
  obtain ⟨front, child, back, listed, again, rfl⟩ := meet_eq_error failed
  have held : store.dirs.get? id = some record := stage.get?_rest.symm.trans found
  have idUnder : store.Under top id :=
    stage.under id ((stage.seen_iff id).mpr (Or.inr List.mem_cons_self))
  obtain ⟨name, bound⟩ : store.Child id child := (child_iff_mem_ids held).mpr (by simp [listed])
  rcases again with known | earlier
  · rcases (stage.origin child).mp known with rfl | ⟨parent, wasEntered, other, boundBefore⟩
    · exact .back idUnder bound
    · have parentUnder := stage.under parent ((stage.seen_iff parent).mpr (Or.inl wasEntered))
      refine .shared idUnder bound parentUnder boundBefore ?_
      intro same
      exact stage.apart id List.mem_cons_self (same.1 ▸ wasEntered)
  · obtain ⟨name, other, heldName, heldOther, ne⟩ := exists_names_of_repeated listed earlier
    have here : store.index .dir (some id) = .ok record.dirs := index_place held
    rw [← binding?_of_index here] at heldName heldOther
    exact .shared idUnder heldName idUnder heldOther fun same => ne same.2

theorem Exploring.seen_iff_under (stage : store.Exploring top rest entered [] seen files) :
    id ∈ seen ↔ store.Under top id := by
  constructor
  · exact stage.under id
  · intro under
    induction under with
    | refl => exact stage.top_mem
    | @tail parent child _ below ih =>
      have wasEntered := ((stage.seen_iff parent).mp ih).resolve_right List.not_mem_nil
      exact (stage.origin child).mpr (Or.inr ⟨parent, wasEntered, below⟩)

theorem Exploring.entered_iff_under (stage : store.Exploring top rest entered [] seen files) :
    id ∈ entered ↔ store.Under top id := by
  rw [← stage.seen_iff_under, stage.seen_iff]
  simp

theorem Exploring.files_iff_fileUnder (stage : store.Exploring top rest entered [] seen files) :
    id ∈ files ↔ store.FileUnder top id := by
  simp only [stage.files, stage.entered_iff_under, FileUnder, exists_and_left]

theorem Exploring.subtreeIsTree (stage : store.Exploring top rest entered [] seen files) :
    store.SubtreeIsTree top where
  recorded id under := stage.recorded id (stage.entered_iff_under.mpr under)
  no_way_back parent name under bound :=
    stage.no_way_back parent (stage.entered_iff_under.mpr under) ⟨name, bound⟩
  bound_once id under isChild := by
    obtain ⟨parent, name, above, bound⟩ := exists_binding?_of_under under isChild
    refine ⟨(parent, name), ⟨above, bound⟩, ?_⟩
    rintro ⟨elsewhere, other⟩ ⟨aboveAgain, again⟩
    obtain ⟨sameParent, sameName⟩ :=
      stage.unique parent (stage.entered_iff_under.mpr above) elsewhere
      (stage.entered_iff_under.mpr aboveAgain) name other id bound again
    exact Prod.ext sameParent sameName

/-- The search goes through the rounds of the loop, in each of which it takes a record out. It ends
when nothing is left to enter, or in a fault that the store gives cause for. -/
theorem explore_outcome (stage : store.Exploring top rest entered pending seen files) :
    (∃ rounds ≤ rest.size + 1, store.Explores rounds pending seen files
      (explore rest pending seen files)) ∧
      ((∃ fault, explore rest pending seen files = .error fault ∧ store.SubtreeFlaw top fault) ∨
        ∃ foundFiles foundDirs left done, explore rest pending seen files =
          .ok (foundFiles, foundDirs) ∧
          store.Exploring top left done [] foundDirs foundFiles) := by
  fun_induction explore rest pending seen files generalizing entered with
  | case1 rest seen files =>
    exact ⟨⟨0, Nat.zero_le _, .finished⟩, Or.inr ⟨files, seen, rest, entered, rfl, stage⟩⟩
  | case2 rest seen files id later missing =>
    have refused : store.dirs.require id = .error (.mismatch id "dir") :=
      Arena.require_eq_error_iff.mpr ⟨stage.get?_rest.symm.trans missing, rfl⟩
    exact ⟨⟨1, Nat.le_add_left 1 _, .missing refused⟩,
      Or.inl ⟨_, rfl, stage.flaw_of_missing missing⟩⟩
  | case3 rest seen files id later record found fault refused =>
    have held : store.dirs.require id = .ok record :=
      Arena.require_eq_ok_iff.mpr (stage.get?_rest.symm.trans found)
    exact ⟨⟨1, Nat.le_add_left 1 _, .cycle held refused⟩,
      Or.inl ⟨fault, rfl, stage.flaw_of_meet found refused⟩⟩
  | case4 rest seen files id later record found met agreed ih =>
    have held : store.dirs.require id = .ok record :=
      Arena.require_eq_ok_iff.mpr (stage.get?_rest.symm.trans found)
    have shrinks := Arena.size_erase_lt found
    obtain ⟨⟨rounds, bounded, further⟩, outcome⟩ := ih (stage.enter found agreed)
    exact ⟨⟨rounds + 1, by omega, .enter held agreed further⟩, outcome⟩

end Explore

def foundBelow (top : Int) (met : List Int × List Int) : List Int × List Int :=
  (ascending met.1, (ascending met.2).filter (· ≠ top))

theorem subtree_eq_map_explore (store : Store) (top : Int) :
    store.subtree top = (explore store.dirs [top] [top] []).map (foundBelow top) := by
  unfold subtree
  cases explore store.dirs [top] [top] [] <;> rfl

theorem exists_explores_subtree (store : Store) (top : Int) :
    ∃ rounds ≤ store.dirs.size + 1, ∃ result,
      store.Explores rounds [top] [top] [] result ∧
      store.subtree top = result.map (foundBelow top) := by
  obtain ⟨⟨rounds, bounded, explores⟩, -⟩ := explore_outcome (exploring_start store top)
  exact ⟨rounds, bounded, _, explores, store.subtree_eq_map_explore top⟩

theorem exists_subtree_iff : (∃ files dirs, store.subtree top = .ok (files, dirs)) ↔
    store.SubtreeIsTree top := by
  rw [subtree_eq_map_explore]
  rcases (explore_outcome (exploring_start store top)).2 with
    ⟨fault, failed, flaw⟩ | ⟨files, dirs, left, entered, done, stage⟩
  · simp only [failed, Except.map, reduceCtorEq, exists_false, false_iff]
    exact fun tree => tree.not_flaw fault flaw
  · exact iff_of_true ⟨_, _, by rw [done]; rfl⟩ stage.subtreeIsTree

theorem flaw_of_subtree {fault : Fault} (failed : store.subtree top = .error fault) :
    store.SubtreeFlaw top fault := by
  rw [subtree_eq_map_explore, map_eq_error_iff] at failed
  rcases (explore_outcome (exploring_start store top)).2 with
    ⟨other, refused, flaw⟩ | ⟨_, _, _, _, done, -⟩
  · rw [failed] at refused
    cases refused
    exact flaw
  · rw [failed] at done
    cases done

section Found

variable {files dirs : List Int} (done : store.subtree top = .ok (files, dirs))
include done

theorem mem_of_subtree :
    (∀ id, id ∈ files ↔ store.FileUnder top id) ∧ ∀ id, id ∈ dirs ↔
      store.Under top id ∧ id ≠ top := by
  rw [subtree_eq_map_explore] at done
  rcases (explore_outcome (exploring_start store top)).2 with
    ⟨_, failed, -⟩ | ⟨_, _, _, _, explored, stage⟩
  · rw [failed] at done
    cases done
  · rw [explored] at done
    cases done
    constructor
    · exact fun id => mem_ascending.trans stage.files_iff_fileUnder
    · intro id
      rw [List.mem_filter, mem_ascending, stage.seen_iff_under, decide_eq_true_iff]

theorem pairwise_of_subtree : files.Pairwise (· < ·) ∧ dirs.Pairwise (· < ·) := by
  rw [subtree_eq_map_explore] at done
  obtain ⟨_, -, same⟩ := map_eq_ok_iff.mp done
  cases same
  exact ⟨pairwise_ascending _, (pairwise_ascending _).filter _⟩

theorem mem_insertId_of_subtree {id : Int} : id ∈ insertId top dirs ↔ store.Under top id := by
  rw [mem_insertId, (mem_of_subtree done).2]
  by_cases same : id = top
  · subst same
    simp [Under, Relation.ReflTransGen.refl]
  · simp [same]

end Found

theorem Linked.subtreeIsTree (linked : store.Linked) (member : top ∈ store.ids .dir) :
    store.SubtreeIsTree top where
  recorded id under := linked.mem_ids_of_under under member
  no_way_back parent name under bound := by
    obtain ⟨rank, ranked⟩ := linked.ranked
    have above := ranked.le_of_under under
    have below := ranked bound
    omega
  bound_once id under isChild := by
    obtain ⟨parent, name, above, bound⟩ := exists_binding?_of_under under isChild
    refine ⟨(parent, name), ⟨above, bound⟩, ?_⟩
    rintro ⟨elsewhere, other⟩ ⟨-, again⟩
    obtain ⟨samePlace, sameName⟩ := linked.unique bound again
    exact Prod.ext (Option.some.inj samePlace) sameName

theorem Linked.exists_subtree (linked : store.Linked) (member : top ∈ store.ids .dir) :
    ∃ files dirs, store.subtree top = .ok (files, dirs) :=
  exists_subtree_iff.mpr (linked.subtreeIsTree member)

end Store

/-- The search ends on every store, damaged or not: with what lies under its top exactly when that
is recorded and forms a tree, and otherwise with a fault that something under the top gives cause
for. Files are found whether they have records or not. -/
theorem subtree_search_is_exact (store : Store) (top : Int) :
    (∃ rounds ≤ store.dirs.size + 1, ∃ result,
        store.Explores rounds [top] [top] [] result ∧
          store.subtree top = result.map (Store.foundBelow top)) ∧
      ((∃ files dirs, store.subtree top = .ok (files, dirs)) ↔ store.SubtreeIsTree top) ∧
      (∀ files dirs, store.subtree top = .ok (files, dirs) →
        ((∀ id, id ∈ files ↔ store.FileUnder top id) ∧
          ∀ id, id ∈ dirs ↔ store.Under top id ∧ id ≠ top) ∧
          files.Pairwise (· < ·) ∧ dirs.Pairwise (· < ·)) ∧
      ∀ fault, store.subtree top = .error fault → store.SubtreeFlaw top fault :=
  ⟨store.exists_explores_subtree top, Store.exists_subtree_iff,
    fun _ _ done => ⟨Store.mem_of_subtree done, Store.pairwise_of_subtree done⟩, fun _ =>
      Store.flaw_of_subtree⟩

/-- Two directories are out of reach: one holds itself, the other holds a file without a record and
a directory that is reached elsewhere. A file that is bound nowhere has the id of a directory. -/
def Store.damaged : Store where
  capacity := none
  rootFiles := ⟨"root_files", none, ⟨[("a", 1)], by decide⟩⟩
  rootDirs := ⟨"root_dirs", none, ⟨[("d", 2)], by decide⟩⟩
  files := ⟨none, ⟨[(1, ⟨7, [], 0, "", 0⟩), (3, ⟨7, [], 0, "", 0⟩)], by decide⟩⟩
  dirs := ⟨none, ⟨[
    (2, ⟨7, [], ⟨"children_files", none, ⟨[("b", 1)], by decide⟩⟩,
      ⟨"children_dirs", none, ⟨[("e", 3)], by decide⟩⟩⟩),
    (3, .make 7 [] none),
    (4, ⟨7, [], .empty "children_files" none, ⟨"children_dirs", none, ⟨[("loop", 4)], by decide⟩⟩⟩),
    (5, ⟨7, [], ⟨"children_files", none, ⟨[("lost", 9)], by decide⟩⟩,
      ⟨"children_dirs", none, ⟨[("e", 3)], by decide⟩⟩⟩)], by decide⟩⟩
  counter := 5
  epoch := 0

theorem subtree_search_is_exact_damaged :
    let store := Store.damaged
    store.subtree 2 = .ok ([1], [3]) ∧ store.SubtreeIsTree 2 ∧
      (∀ id, store.Under 2 id ∧ id ≠ 2 ↔ id = 3) ∧
      store.subtree 5 = .ok ([9], [3]) ∧ (∀ id, store.FileUnder 5 id ↔ id = 9) ∧
      9 ∉ store.ids .file ∧
      store.subtree 4 = .error (.cycle 4) ∧ store.SubtreeFlaw 4 (.cycle 4) ∧
      store.subtree 6 = .error (.mismatch 6 "dir") ∧ store.SubtreeFlaw 6 (.mismatch 6 "dir") := by
  intro store
  have below2 : store.subtree 2 = .ok ([1], [3]) := by decide +kernel
  have below5 : store.subtree 5 = .ok ([9], [3]) := by decide +kernel
  have looped : store.subtree 4 = .error (.cycle 4) := by decide +kernel
  have missing : store.subtree 6 = .error (.mismatch 6 "dir") := by decide +kernel
  obtain ⟨-, answered, answer, -⟩ := subtree_search_is_exact store 2
  obtain ⟨-, -, answer5, -⟩ := subtree_search_is_exact store 5
  obtain ⟨-, -, -, flaw4⟩ := subtree_search_is_exact store 4
  obtain ⟨-, -, -, flaw6⟩ := subtree_search_is_exact store 6
  refine ⟨below2, answered.mp ⟨_, _, below2⟩, ?_, below5, ?_, by decide, looped,
    flaw4 _ looped, missing, flaw6 _ missing⟩
  · intro id
    rw [← (answer _ _ below2).1.2 id, List.mem_singleton]
  · intro id
    rw [← (answer5 _ _ below5).1.1 id, List.mem_singleton]

end NameTree
