import Mathlib.Data.List.Basic
import Mathlib.Tactic.ByContra
import NameTree.Proofs.Bindings

/-!
Entries by lists of names: where a list leads from a place, and the file or directory it leads to
from the root.
-/

namespace NameTree.Store

/-- Where `names` lead from a place through directory bindings. -/
def follow (store : Store) (place : Place) : List String → Option Place
  | [] => some place
  | name :: rest =>
    match store.binding? .dir place name with
    | none => none
    | some id => store.follow (some id) rest

/-- The file or directory that `names` lead to from the root, which is no entry itself. -/
def resolve? (store : Store) (kind : Kind) (names : List String) : Option Int :=
  match names.getLast? with
  | none => none
  | some leaf =>
    match store.follow none names.dropLast with
    | none => none
    | some place => store.binding? kind place leaf

variable {store : Store}

theorem follow_append (place : Place) (front back : List String) :
    store.follow place (front ++ back) = (store.follow place front).bind (store.follow · back) := by
  induction front generalizing place with
  | nil => rfl
  | cons name rest ih =>
    simp only [List.cons_append, follow]
    cases store.binding? .dir place name with
    | none => rfl
    | some id => exact ih (some id)

theorem follow_concat (place : Place) (names : List String) (name : String) :
    store.follow place (names ++ [name]) =
      (store.follow place names).bind fun reached =>
        (store.binding? .dir reached name).map some := by
  rw [follow_append]
  congr 1
  funext reached
  simp only [follow]
  cases store.binding? .dir reached name <;> rfl

theorem follow_cons_eq_some_iff {place reached : Place} {name : String} {rest : List String} :
    store.follow place (name :: rest) = some reached ↔
      ∃ id, store.binding? .dir place name = some id ∧
        store.follow (some id) rest = some reached := by
  simp only [follow]
  cases store.binding? .dir place name <;> simp

theorem follow_concat_eq_some_iff {place reached : Place} {names : List String} {name : String} :
    store.follow place (names ++ [name]) = some reached ↔
      ∃ parent id, store.follow place names = some parent ∧
        store.binding? .dir parent name = some id ∧
        some id = reached := by
  rw [follow_concat]
  cases store.follow place names <;> simp

theorem resolve?_nil (kind : Kind) : store.resolve? kind [] = none := rfl

theorem resolve?_concat (kind : Kind) (names : List String) (leaf : String) :
    store.resolve? kind (names ++ [leaf]) =
      (store.follow none names).bind fun place => store.binding? kind place leaf := by
  simp only [resolve?, List.getLast?_concat, List.dropLast_concat]
  cases store.follow none names <;> rfl

theorem resolve?_concat_of_follow {names : List String} {place : Place}
    (led : store.follow none names = some place) (kind : Kind) (leaf : String) :
    store.resolve? kind (names ++ [leaf]) = store.binding? kind place leaf := by
  rw [resolve?_concat, led, Option.bind_some]

theorem resolve?_concat_eq_some_iff {kind : Kind} {names : List String} {leaf : String} {id : Int} :
    store.resolve? kind (names ++ [leaf]) = some id ↔
      ∃ place, store.follow none names = some place ∧ store.binding? kind place leaf = some id := by
  rw [resolve?_concat, Option.bind_eq_some_iff]

theorem exists_concat_of_resolve? {kind : Kind} {names : List String} {id : Int}
    (found : store.resolve? kind names = some id) :
    ∃ front leaf place, names = front ++ [leaf] ∧ store.follow none front = some place ∧
      store.binding? kind place leaf = some id := by
  rcases List.eq_nil_or_concat' names with rfl | ⟨front, leaf, rfl⟩
  · rw [resolve?_nil] at found
    cases found
  · obtain ⟨place, led, bound⟩ := resolve?_concat_eq_some_iff.mp found
    exact ⟨front, leaf, place, rfl, led, bound⟩

theorem follow_eq_some_dir_iff {names : List String} {id : Int} :
    store.follow none names = some (some id) ↔ store.resolve? .dir names = some id := by
  rcases List.eq_nil_or_concat' names with rfl | ⟨front, leaf, rfl⟩
  · simp [follow, resolve?_nil]
  · rw [follow_concat, resolve?_concat]
    cases store.follow none front <;> simp

theorem follow_ne_root {place : Place} {names : List String} (nonempty : names ≠ []) :
    store.follow place names ≠ some none := by
  obtain ⟨front, leaf, rfl⟩ := (List.eq_nil_or_concat' names).resolve_left nonempty
  rw [follow_concat]
  cases store.follow place front <;> simp

theorem exists_dir_of_follow {top : Int} {names : List String} {reached : Place}
    (led : store.follow (some top) names = some reached) : ∃ id, reached = some id := by
  cases reached with
  | some id => exact ⟨id, rfl⟩
  | none =>
    cases names with
    | nil => cases led
    | cons name rest => exact absurd led (follow_ne_root (List.cons_ne_nil name rest))

theorem eq_nil_of_follow_root {names : List String} (led : store.follow none names = some none) :
    names = [] := by
  by_contra nonempty
  exact follow_ne_root nonempty led

end NameTree.Store
