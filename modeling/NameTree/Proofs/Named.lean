import NameTree.Proofs.Checks
import NameTree.Proofs.Frame
import NameTree.Proofs.Paths
import NameTree.Proofs.Written

/-!
Names and paths of a store. Every name that a mutation binds comes from a path that has passed its
check, so the path of an entry leads to it again, unless the path is too long.
-/

namespace NameTree

variable {store : Store} {limits : Limits}

theorem Destination.exists_front {kind : Kind} {path : String} {place : Place} {leaf : String}
    {index : Index} (target : Destination store limits kind path place leaf index) :
    ∃ front, store.follow none front = some place ∧ Path.components path = front ++ [leaf] ∧
      (∀ name ∈ front ++ [leaf], Path.IsName name ∧
        (Path.byteLength name : Int) ≤ limits.maxStringLen) ∧
      (Path.byteLength (Path.join (front ++ [leaf])) : Int) ≤ limits.pathLen := by
  obtain ⟨-, front, split, checked, led, -⟩ := Store.locate_eq_ok_iff.mp target.located
  rw [Path.components_dropFinalSlash] at split
  have short := Path.checkComponents_eq_ok_iff.mp checked
  refine ⟨front, led, split, ?_, ?_⟩
  · intro name member
    exact ⟨Path.isName_of_mem_components (split ▸ member), short name member⟩
  · have fits := (Path.check_eq_ok_iff.mp target.checked).1
    have trimmed := Path.byteLength_dropFinalSlash_le path
    rw [← split, Path.join_components target.checked]
    omega

theorem Destination.of_follow {kind : Kind} {path : String} {front : List String}
    {place : Place} {leaf : String} {index : Index} (checked : limits.checkPath path = .ok ())
    (split : Path.components path = front ++ [leaf])
    (short : Path.checkComponents limits.maxStringLen (front ++ [leaf]) = .ok ())
    (led : store.follow none front = some place) (present : store.index kind place = .ok index) :
    Destination store limits kind path place leaf index where
  checked := checked
  located := by
    have parted : Path.components (Path.dropFinalSlash path) = front ++ [leaf] := by
      rw [Path.components_dropFinalSlash, split]
    exact Store.locate_eq_ok_iff.mpr
      ⟨Path.dropFinalSlash_ne_root split, front, parted, short, led,
        Store.hasPlace_iff.mpr ⟨index, present⟩⟩
  present := present

namespace Destination

variable {after : Store} {kind other : Kind} {path leaf : String} {place : Place}
  {index new : Index}

theorem of_split {name : String} {front : List String}
    (target : Destination store limits kind (Path.dropFinalSlash path) place name index)
    (split : Path.components path = front ++ [leaf]) :
    store.follow none front = some place ∧ leaf = name := by
  obtain ⟨front', led, split', -⟩ := target.exists_front
  rw [Path.components_dropFinalSlash, split] at split'
  obtain ⟨rfl, same⟩ := List.append_singleton_inj.mp split'
  exact ⟨led, same⟩

theorem trimmed (target : Destination store limits kind path place leaf index) :
    Destination store limits kind (Path.dropFinalSlash path) place leaf index := by
  obtain ⟨front, led, split, names, fits⟩ := target.exists_front
  have isNames := fun name member => (names name member).1
  have checked : limits.checkPath (Path.dropFinalSlash path) = .ok () := by
    have notLong : ¬ limits.pathLen < Path.byteLength (Path.join (front ++ [leaf])) := by omega
    rw [← Path.join_components target.checked, split, Limits.checkPath, Path.check_join _ isNames,
      if_neg notLong]
  refine .of_follow checked ((Path.components_dropFinalSlash path).trans split) ?_ led
    target.present
  exact Path.checkComponents_eq_ok_iff.mpr fun name member => (names name member).2

theorem persists (target : Destination store limits kind path place leaf index)
    (follows : ∀ front, store.follow none front = some place → after.follow none front = some place)
    (present : after.index other place = .ok new) :
    Destination after limits other path place leaf new := by
  obtain ⟨front, led, split, names, -⟩ := target.exists_front
  refine .of_follow target.checked split ?_ (follows front led) present
  exact Path.checkComponents_eq_ok_iff.mpr fun name member => (names name member).2

end Destination

namespace Store

/-- Every name that is bound could be given in a path. -/
def Named (store : Store) (limits : Limits) : Prop :=
  ∀ kind place name id, store.binding? kind place name = some id →
    Path.IsName name ∧ (Path.byteLength name : Int) ≤ limits.maxStringLen

/-- No entry has a path longer than paths may be. -/
def Within (store : Store) (limits : Limits) : Prop :=
  ∀ kind names id, store.resolve? kind names = some id →
    (Path.byteLength (Path.join names) : Int) ≤ limits.pathLen

theorem Named.of_follow (named : store.Named limits) {place reached : Place} {names : List String}
    (led : store.follow place names = some reached) :
    ∀ name ∈ names, Path.IsName name ∧ (Path.byteLength name : Int) ≤ limits.maxStringLen := by
  induction names generalizing place with
  | nil => simp
  | cons first rest ih =>
    obtain ⟨id, bound, led⟩ := follow_cons_eq_some_iff.mp led
    intro name member
    rcases List.mem_cons.mp member with rfl | later
    · exact named .dir place name id bound
    · exact ih led name later

theorem Named.of_resolve? (named : store.Named limits) {kind : Kind}
    {names : List String} {id : Int} (found : store.resolve? kind names = some id) :
    ∀ name ∈ names, Path.IsName name ∧ (Path.byteLength name : Int) ≤ limits.maxStringLen := by
  obtain ⟨front, leaf, place, rfl, led, bound⟩ := exists_concat_of_resolve? found
  intro name member
  rcases List.mem_append.mp member with inFront | isLeaf
  · exact named.of_follow led name inFront
  · rw [List.mem_singleton] at isLeaf
    exact isLeaf ▸ named kind place leaf id bound

theorem named_empty (capacity : Option Int) (limits : Limits) :
    (Store.empty capacity).Named limits := by
  intro kind place name id bound
  rw [binding?_empty] at bound
  cases bound

theorem resolve?_empty (capacity : Option Int) (kind : Kind) (names : List String) :
    (Store.empty capacity).resolve? kind names = none := by
  cases found : (Store.empty capacity).resolve? kind names with
  | none => rfl
  | some id =>
    obtain ⟨front, leaf, place, -, -, bound⟩ := exists_concat_of_resolve? found
    rw [binding?_empty] at bound
    cases bound

theorem within_empty (capacity : Option Int) (limits : Limits) :
    (Store.empty capacity).Within limits := by
  intro kind names id found
  rw [resolve?_empty] at found
  cases found

end Store

section Mutations

variable {m : Mutation} {after : Store}

theorem Mutation.Does.target_or_old (does : m.Does limits store after) {kind : Kind} {place : Place}
    {name : String} {id : Int} (bound : after.binding? kind place name = some id) :
    store.binding? kind place name = some id ∨
      ∃ path index, Destination store limits kind path place name index := by
  cases does with
  | createFile target change =>
    rcases change.new_or_old bound with ⟨⟨rfl, rfl, rfl⟩, -⟩ | ⟨-, kept⟩
    · exact Or.inr ⟨_, _, target⟩
    · exact Or.inl kept
  | createDir target change =>
    rcases change.new_or_old bound with ⟨⟨rfl, rfl, rfl⟩, -⟩ | ⟨-, kept⟩
    · exact Or.inr ⟨_, _, target⟩
    · exact Or.inl kept
  | rename kind' fromTarget toTarget change =>
    rcases change.new_or_old bound with ⟨⟨rfl, rfl, rfl⟩, -⟩ | ⟨-, kept⟩
    · exact Or.inr ⟨_, _, toTarget⟩
    · exact Or.inl kept
  | deleteFile target change => exact Or.inl (change.old bound).2
  | deleteDir target change => exact Or.inl ((change.bindings kind place name id).mp bound).1
  | updateEpoch change => exact Or.inl ((change.bindings kind place name).symm.trans bound)

theorem Mutation.Does.named (does : m.Does limits store after) (named : store.Named limits) :
    after.Named limits := by
  intro kind place name id bound
  rcases does.target_or_old bound with old | ⟨path, index, target⟩
  · exact named kind place name id old
  · obtain ⟨front, -, -, names, -⟩ := target.exists_front
    exact names name (by simp)

/-- Whether the paths of all that lies in a directory fit after it is renamed; nothing else makes
paths longer than those that were checked. -/
def Mutation.Fits (m : Mutation) (limits : Limits) (store : Store) : Prop :=
  match m with
  | .rename .dir source target => ∀ kind suffix id, suffix ≠ [] →
    store.resolve? kind (Path.components source ++ suffix) = some id →
    (Path.byteLength (Path.join (Path.components target ++ suffix)) : Int) ≤ limits.pathLen
  | _ => True

namespace Store

variable {kind : Kind} {path : String} {place : Place} {leaf old : String}
  {index : Index} {id : Int}

theorem Within.of_fewer (within : store.Within limits)
    (fewer : ∀ {kind place name id}, after.binding? kind place name = some id →
      store.binding? kind place name = some id) : after.Within limits :=
  fun kind names id found => within kind names id (resolve?_of_fewer fewer found)

theorem Binds.within (change : Binds store after kind place leaf) (sound : store.Sound)
    (target : Destination store limits kind path place leaf index) (within : store.Within limits) :
    after.Within limits := by
  obtain ⟨front, led, -, -, fits⟩ := target.exists_front
  intro other names held found
  rcases change.resolve?_new_or_old sound led found with kept | ⟨-, rfl⟩
  · exact within other names held kept
  · exact fits

theorem Renames.within_of_file (change : Renames store after .file place old leaf id)
    (linked : store.Linked) (target : Destination store limits .file path place leaf index)
    (within : store.Within limits) :
    after.Within limits := by
  obtain ⟨front, led, -, -, fits⟩ := target.exists_front
  intro other names held found
  rcases change.resolve?_of_file linked led found with kept | rfl
  · exact within other names held kept
  · exact fits

theorem Renames.within_iff_of_dir {source target new : String}
    (change : Renames store after .dir place old new id) (linked : store.Linked)
    (fromTarget : Destination store limits .dir (Path.dropFinalSlash source) place old index)
    (toTarget : Destination store limits .dir (Path.dropFinalSlash target) place new index)
    (within : store.Within limits) :
    after.Within limits ↔ (Mutation.rename .dir source target).Fits limits store := by
  obtain ⟨front, led, fromSplit, -, -⟩ := fromTarget.exists_front
  obtain ⟨front', led', toSplit, -, fits⟩ := toTarget.exists_front
  obtain rfl := linked.follow_inj led led'
  rw [Path.components_dropFinalSlash] at fromSplit toSplit
  simp only [Mutation.Fits, fromSplit, toSplit, List.append_assoc, List.singleton_append]
  constructor
  · intro after kind suffix held nonempty found
    refine after kind _ held ?_
    rw [change.resolve?_new linked led nonempty, found]
  · intro below kind names held found
    rcases change.resolve?_new_or_old linked led found with kept | ⟨suffix, rfl, moved⟩
    · exact within kind names held kept
    · by_cases empty : suffix = []
      · subst empty
        exact fits
      · exact below kind suffix held empty (moved.resolve_left empty)

end Store

theorem Mutation.Does.within_iff_fits (does : m.Does limits store after) (sound : store.Sound)
    (within : store.Within limits) : after.Within limits ↔ m.Fits limits store := by
  cases does with
  | createFile target change => exact iff_of_true (change.within sound target within) trivial
  | createDir target change => exact iff_of_true (change.within sound target within) trivial
  | rename kind fromTarget toTarget change =>
    cases kind with
    | file => exact iff_of_true (change.within_of_file sound.toLinked toTarget within) trivial
    | dir => exact change.within_iff_of_dir sound.toLinked fromTarget toTarget within
  | deleteFile target change =>
    exact iff_of_true (within.of_fewer fun bound => (change.old bound).2) trivial
  | deleteDir target change =>
    exact iff_of_true (within.of_fewer fun bound => ((change.bindings _ _ _ _).mp bound).1) trivial
  | updateEpoch change =>
    exact iff_of_true (within.of_fewer fun bound =>
      (change.bindings _ _ _).symm.trans bound) trivial

end Mutations

end NameTree
