import NameTree.Proofs.Checked
import NameTree.Proofs.Entries
import NameTree.Store.Resolve

/-!
Resolution of paths against the component lists that they are made of: a path is located exactly
when its names but the last lead to a place that is there.
-/

namespace NameTree.Store

variable {store : Store} {path : String}

theorem descend_eq_ok_iff {place reached : Place} {dirs : Index} {names : List String}
    (present : store.index .dir place = .ok dirs) :
    store.descend path place dirs names = .ok reached ↔
      store.follow place names = some reached ∧ store.HasPlace reached := by
  induction names generalizing place dirs with
  | nil =>
    simp only [descend, follow, Except.ok.injEq, Option.some.injEq]
    constructor
    · intro same
      subst same
      exact ⟨rfl, hasPlace_iff.mpr ⟨dirs, present⟩⟩
    · exact fun both => both.1
  | cons name rest ih =>
    simp only [descend, follow, binding?_of_index present]
    cases bound : dirs.get? name with
    | none => simp
    | some id =>
      cases found : store.dirs.get? id with
      | some record =>
        simp only [Arena.require, found]
        exact ih (index_place found)
      | none =>
        have absent : ¬ store.HasPlace (some id) := by
          simp [HasPlace, mem_ids_dir, found]
        simp only [Arena.require, found, reduceCtorEq, false_iff, not_and]
        -- a list cannot lead on from a directory without a record
        cases rest with
        | nil =>
          intro led
          cases led
          exact absent
        | cons next further =>
          intro led
          simp [follow, binding?_of_absent absent] at led

theorem locate_eq_ok_iff {maxLen : Int} {place : Place} {leaf : String} :
    store.locate maxLen path = .ok (place, leaf) ↔
      Path.dropFinalSlash path ≠ "/" ∧ ∃ front,
        Path.components (Path.dropFinalSlash path) = front ++ [leaf] ∧
        Path.checkComponents maxLen (front ++ [leaf]) = .ok () ∧
        store.follow none front = some place ∧ store.HasPlace place := by
  have root : store.index .dir none = .ok store.rootDirs := rfl
  unfold locate
  by_cases isRoot : Path.dropFinalSlash path = "/"
  · simp [isRoot]
  · rw [if_neg isRoot]
    rcases List.eq_nil_or_concat' (Path.components (Path.dropFinalSlash path)) with
      empty | ⟨front, last, split⟩
    · simp [empty]
    · simp only [split, List.getLast?_concat, List.dropLast_concat, bind_eq_ok_iff,
        descend_eq_ok_iff root, pure, Except.pure, Except.ok.injEq, Prod.mk.injEq]
      constructor
      · intro given
        rcases given with ⟨_, checked, reached, ⟨led, present⟩, rfl, rfl⟩
        exact ⟨isRoot, front, rfl, checked, led, present⟩
      · intro given
        rcases given with ⟨-, front', same, checked, led, present⟩
        obtain ⟨rfl, rfl⟩ := List.append_singleton_inj.mp same
        exact ⟨(), checked, place, ⟨led, present⟩, rfl, rfl⟩

theorem hasPlace_of_locate {maxLen : Int} {place : Place} {leaf : String}
    (located : store.locate maxLen path = .ok (place, leaf)) : store.HasPlace place := by
  obtain ⟨-, _, -, -, -, present⟩ := locate_eq_ok_iff.mp located
  exact present

variable {files dirs : Index}

theorem indexes_eq_ok_iff {place : Place} :
    store.indexes place = .ok (files, dirs) ↔
      store.index .file place = .ok files ∧ store.index .dir place = .ok dirs := by
  unfold indexes
  cases store.index .file place <;> cases store.index .dir place <;>
    simp [bind, Except.bind, pure, Except.pure]

theorem place_eq_ok_iff {maxLen : Int} {reached : Place} :
    store.place maxLen path = .ok reached ↔
      Path.checkComponents maxLen (Path.components path) = .ok () ∧
      store.follow none (Path.components path) = some reached ∧ store.HasPlace reached := by
  have root : store.index .dir none = .ok store.rootDirs := rfl
  simp only [place, bind_eq_ok_iff, descend_eq_ok_iff root, Unique.exists_iff]

theorem children_eq_ok_iff {maxLen : Int} :
    store.children maxLen path = .ok (files, dirs) ↔
      (path = "/" ∨ Path.components path ≠ []) ∧
      Path.checkComponents maxLen (Path.components path) = .ok () ∧
        ∃ reached, store.follow none (Path.components path) = some reached ∧
          store.index .file reached = .ok files ∧ store.index .dir reached = .ok dirs := by
  unfold children
  by_cases root : path = "/"
  · subst root
    have bare : Path.components "/" = [] := by decide +kernel
    have checked : Path.checkComponents maxLen [] = .ok () := rfl
    simp [bare, checked, follow, index]
  · rw [if_neg root, or_iff_right root, bind_eq_ok_iff]
    constructor
    · intro given
      rcases given with ⟨reached, placed, continued⟩
      obtain ⟨checked, led, -⟩ := place_eq_ok_iff.mp placed
      cases reached with
      | none => cases continued
      | some id =>
        have nonempty : Path.components path ≠ [] := by
          intro empty
          rw [empty] at led
          cases led
        exact ⟨nonempty, checked, some id, led, indexes_eq_ok_iff.mp continued⟩
    · intro given
      rcases given with ⟨nonempty, checked, reached, led, files_at, dirs_at⟩
      have placed : store.place maxLen path = .ok reached :=
        place_eq_ok_iff.mpr ⟨checked, led, hasPlace_iff.mpr ⟨files, files_at⟩⟩
      refine ⟨reached, placed, ?_⟩
      cases reached with
      | none => exact absurd led (follow_ne_root nonempty)
      | some id => exact indexes_eq_ok_iff.mpr ⟨files_at, dirs_at⟩

end NameTree.Store
