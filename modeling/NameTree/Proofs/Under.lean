import Mathlib.Logic.Relation
import NameTree.Proofs.Tree

/-!
What lies under a directory: the directories that directory bindings lead to, and the files bound in
these. On a linked store all of it has records, and none of it lies above.
-/

namespace NameTree.Store

def Child (store : Store) (parent id : Int) : Prop :=
  ∃ name, store.binding? .dir (some parent) name = some id

/-- The directory `id` is `top` itself or lies below it. -/
def Under (store : Store) (top id : Int) : Prop := Relation.ReflTransGen store.Child top id

def FileUnder (store : Store) (top id : Int) : Prop :=
  ∃ parent name, store.Under top parent ∧ store.binding? .file (some parent) name = some id

variable {store : Store}

theorem child_iff_mem_ids {parent id : Int} {record : DirRecord}
    (found : store.dirs.get? parent = some record) : store.Child parent id ↔
      id ∈ record.dirs.ids := by
  rw [Index.mem_ids_iff]
  simp only [Child, binding?_of_index (index_place found)]

theorem file_iff_mem_ids {parent id : Int} {record : DirRecord}
    (found : store.dirs.get? parent = some record) :
    (∃ name, store.binding? .file (some parent) name = some id) ↔ id ∈ record.files.ids := by
  rw [Index.mem_ids_iff]
  simp only [binding?_of_index (index_place found)]

theorem under_iff {top id : Int} :
    store.Under top id ↔ id = top ∨ ∃ child, store.Child top child ∧ store.Under child id := by
  unfold Under
  rw [Relation.ReflTransGen.cases_head_iff, eq_comm]

theorem exists_binding?_of_under {top id : Int} (under : store.Under top id) (isChild : id ≠ top) :
    ∃ parent name, store.Under top parent ∧ store.binding? .dir (some parent) name = some id := by
  rcases under with _ | ⟨above, name, bound⟩
  · exact absurd rfl isChild
  · exact ⟨_, name, above, bound⟩

theorem under_iff_follow {top id : Int} :
    store.Under top id ↔ ∃ names, store.follow (some top) names = some (some id) := by
  constructor
  · intro under
    induction under with
    | refl => exact ⟨[], rfl⟩
    | @tail parent child _ below ih =>
      obtain ⟨names, led⟩ := ih
      obtain ⟨name, bound⟩ := below
      exact ⟨names ++ [name], follow_concat_eq_some_iff.mpr ⟨some parent, child, led, bound, rfl⟩⟩
  · intro given
    rcases given with ⟨names, led⟩
    induction names generalizing top with
    | nil =>
      cases led
      exact Relation.ReflTransGen.refl
    | cons name rest ih =>
      obtain ⟨child, bound, led⟩ := follow_cons_eq_some_iff.mp led
      exact under_iff.mpr (Or.inr ⟨child, ⟨name, bound⟩, ih led⟩)

section Ways

variable {way : List String} {top : Int}

theorem under_iff_resolve? (led : store.follow none way = some (some top)) {id : Int} :
    store.Under top id ↔ ∃ names, store.resolve? .dir (way ++ names) = some id := by
  rw [under_iff_follow]
  refine exists_congr fun names => ?_
  rw [← follow_eq_some_dir_iff, follow_append, led, Option.bind_some]

theorem fileUnder_iff_resolve? (led : store.follow none way = some (some top)) {id : Int} :
    store.FileUnder top id ↔ ∃ names, names ≠ [] ∧
      store.resolve? .file (way ++ names) = some id := by
  constructor
  · intro given
    rcases given with ⟨parent, name, under, bound⟩
    obtain ⟨names, ledOn⟩ := under_iff_follow.mp under
    refine ⟨names ++ [name], by simp, ?_⟩
    rw [← List.append_assoc, resolve?_concat, follow_append, led, Option.bind_some, ledOn,
      Option.bind_some, bound]
  · intro given
    rcases given with ⟨names, nonempty, found⟩
    obtain ⟨front, leaf, rfl⟩ := (List.eq_nil_or_concat' names).resolve_left nonempty
    rw [← List.append_assoc, resolve?_concat_eq_some_iff] at found
    obtain ⟨place, ledOn, bound⟩ := found
    rw [follow_append, led, Option.bind_some] at ledOn
    obtain ⟨parent, rfl⟩ := exists_dir_of_follow ledOn
    exact ⟨parent, leaf, under_iff_follow.mpr ⟨front, ledOn⟩, bound⟩

end Ways

theorem Ranked.le_of_under {rank : Int → Nat} (ranked : store.Ranked rank) {top id : Int}
    (under : store.Under top id) : rank top ≤ rank id := by
  induction under with
  | refl => exact le_refl (rank top)
  | tail _ child ih =>
    obtain ⟨name, bound⟩ := child
    have := ranked bound
    omega

theorem Linked.mem_ids_of_under (linked : store.Linked) {top id : Int} (under : store.Under top id)
    (member : top ∈ store.ids .dir) : id ∈ store.ids .dir := by
  cases under with
  | refl => exact member
  | tail _ child =>
    obtain ⟨name, bound⟩ := child
    exact linked.recorded bound

theorem Linked.mem_ids_of_fileUnder (linked : store.Linked) {top id : Int}
    (under : store.FileUnder top id) :
    id ∈ store.ids .file := by
  obtain ⟨parent, name, -, bound⟩ := under
  exact linked.recorded bound

theorem Linked.nodup_index_ids (linked : store.Linked) {kind : Kind} {place : Place} {index : Index}
    (present : store.index kind place = .ok index) : index.ids.Nodup := by
  refine OrderedMap.nodup_values ?_
  intro name other id found again
  have bound := binding?_of_index present name
  have bound' := binding?_of_index present other
  exact (linked.unique (bound.trans found) (bound'.trans again)).2

section Unbound

variable {unbound : Store} {place : Place} {name : String} {top : Int}

theorem under_unbound (found : store.binding? .dir place name = some top)
    (bindings : ∀ other elsewhere asked, unbound.binding? other elsewhere asked =
      if other = .dir ∧ elsewhere = place ∧ asked = name then none
        else store.binding? other elsewhere asked)
    {id : Int} : unbound.Under top id ↔ store.Under top id := by
  -- a way that uses the binding starts again at the directory itself
  constructor
  · intro under
    refine Relation.ReflTransGen.mono ?_ _ _ under
    intro parent child below
    rcases below with ⟨asked, bound⟩
    rw [bindings] at bound
    split at bound
    · cases bound
    · exact ⟨asked, bound⟩
  · intro under
    induction under with
    | refl => exact Relation.ReflTransGen.refl
    | @tail parent child _ below ih =>
      obtain ⟨asked, bound⟩ := below
      by_cases here : some parent = place ∧ asked = name
      · obtain ⟨rfl, rfl⟩ := here
        rw [found] at bound
        cases bound
        exact Relation.ReflTransGen.refl
      · refine ih.tail ⟨asked, ?_⟩
        rw [bindings, if_neg (fun all => here all.2), bound]

theorem fileUnder_unbound (found : store.binding? .dir place name = some top)
    (bindings : ∀ other elsewhere asked, unbound.binding? other elsewhere asked =
      if other = .dir ∧ elsewhere = place ∧ asked = name then none
        else store.binding? other elsewhere asked)
    {id : Int} : unbound.FileUnder top id ↔ store.FileUnder top id := by
  simp only [FileUnder, under_unbound found bindings, bindings]
  simp

end Unbound

end NameTree.Store
