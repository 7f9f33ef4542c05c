import NameTree.Proofs.Written

/-!
A store as of an id: without the records that came after it. Order is kept, so that two stores that
are the same as of an id have the same older records in the same order, with the same bindings in
the same order. Writes to what came after the id cannot be seen as of it.
-/

namespace NameTree

namespace Arena

variable {kind : String} {ρ : Type} {arena after : Arena kind ρ} {latest id : Int} {record : ρ}

def upTo (latest : Int) (arena : Arena kind ρ) : Arena kind ρ :=
  { arena with records := arena.records.restrict fun id => decide (id ≤ latest) }

theorem get?_upTo (old : id ≤ latest) (arena : Arena kind ρ) :
    (arena.upTo latest).get? id = arena.get? id :=
  OrderedMap.get?_restrict_of_keep (by simpa using old) arena.records

theorem mem_ids_upTo : id ∈ (arena.upTo latest).ids ↔ id ∈ arena.ids ∧ id ≤ latest := by
  unfold ids upTo
  rw [OrderedMap.keys_restrict, List.mem_filter, decide_eq_true_iff]

theorem upTo_of_all (all : ∀ id ∈ arena.ids, id ≤ latest) : arena.upTo latest = arena := by
  have same : arena.records.restrict (fun id => decide (id ≤ latest)) = arena.records :=
    OrderedMap.restrict_of_all fun id member => by simpa using all id member
  rw [upTo, same]

theorem upTo_insert (done : arena.insert id record = .ok after) (new : latest < id) :
    after.upTo latest = arena.upTo latest := by
  rw [eq_of_insert done, upTo, upTo, OrderedMap.restrict_insert_of_drop (by simpa using new)]

theorem upTo_erase (new : latest < id) (arena : Arena kind ρ) :
    (arena.erase id).upTo latest = arena.upTo latest := by
  rw [erase, upTo, upTo, OrderedMap.restrict_erase_of_drop (by simpa using new)]

theorem upTo_without {gone : List Int} (new : ∀ id ∈ gone, latest < id) (arena : Arena kind ρ) :
    (arena.without gone).upTo latest = arena.upTo latest := by
  have kept (id : Int) : (decide (id ∉ gone) && decide (id ≤ latest)) = decide (id ≤ latest) := by
    by_cases old : id ≤ latest
    · have left : id ∉ gone := fun member => absurd (new id member) (by omega)
      simp [left]
    · simp [old]
  simp only [upTo, without, OrderedMap.restrict_restrict, kept]

theorem upTo_modify_of_lt (new : latest < id) (change : ρ → ρ) (arena : Arena kind ρ) :
    (arena.modify id change).upTo latest = arena.upTo latest := by
  rw [modify, upTo, upTo, OrderedMap.restrict_modify_of_drop (by simpa using new)]

theorem upTo_modify (arena : Arena kind ρ) (id : Int) (change : ρ → ρ) :
    (arena.modify id change).upTo latest = (arena.upTo latest).modify id change := by
  rw [modify, upTo, OrderedMap.restrict_modify]
  rfl

end Arena

namespace Store

/-- The store without the records that came after the id `latest`. -/
def asOf (store : Store) (latest : Nat) : Store :=
  { store with files := store.files.upTo latest, dirs := store.dirs.upTo latest, counter := latest }

variable {store after : Store} {latest : Nat} {kind : Kind} {place : Place}

theorem mem_ids_asOf {id : Int} : id ∈ (store.asOf latest).ids kind ↔
    id ∈ store.ids kind ∧ id ≤ latest := by
  cases kind <;> exact Arena.mem_ids_upTo

theorem asOf_of_all (all : ∀ kind, ∀ id ∈ store.ids kind, id ≤ latest) :
    store.asOf latest = { store with counter := latest } := by
  have files : store.files.upTo latest = store.files := Arena.upTo_of_all (all .file)
  have dirs : store.dirs.upTo latest = store.dirs := Arena.upTo_of_all (all .dir)
  rw [asOf, files, dirs]

theorem Intact.asOf_counter (intact : store.Intact) : store.asOf store.counter = store :=
  asOf_of_all fun _ _ member => intact.issued member

theorem index_asOf (old : ∀ id ∈ place, id ≤ (latest : Int)) (store : Store) (kind : Kind) :
    (store.asOf latest).index kind place = store.index kind place := by
  cases place with
  | none => cases kind <;> rfl
  | some id =>
    have same : (store.asOf latest).dirs.get? id = store.dirs.get? id :=
      Arena.get?_upTo (old id rfl) store.dirs
    simp only [index, Arena.require, same]

theorem binding?_asOf (old : ∀ id ∈ place, id ≤ (latest : Int)) (store : Store) (kind : Kind)
    (name : String) :
    (store.asOf latest).binding? kind place name = store.binding? kind place name := by
  simp only [binding?, index_asOf old]

section Writes

theorem asOf_withFiles {files : Arena "file" FileRecord}
    (same : files.upTo latest = store.files.upTo latest) :
    { store with files := files }.asOf latest = store.asOf latest := by
  simp only [asOf, same]

theorem asOf_withDirs {dirs : Arena "dir" DirRecord}
    (same : dirs.upTo latest = store.dirs.upTo latest) :
    { store with dirs := dirs }.asOf latest = store.asOf latest := by
  simp only [asOf, same]

theorem asOf_advance (store : Store) (latest : Nat) :
    store.advance.asOf latest = store.asOf latest := rfl

theorem asOf_setIndex_of_lt (new : ∃ id ∈ place, (latest : Int) < id) (store : Store) (kind : Kind)
    (index : Index) :
    (store.setIndex kind place index).asOf latest = store.asOf latest := by
  obtain ⟨id, rfl, new⟩ := new
  cases kind <;> exact asOf_withDirs (Arena.upTo_modify_of_lt new _ _)

theorem asOf_setIndex (store : Store) (kind : Kind) (place : Place) (index : Index) :
    (store.setIndex kind place index).asOf latest =
      (store.asOf latest).setIndex kind place index := by
  cases place with
  | none => cases kind <;> rfl
  | some id => cases kind <;> simp only [setIndex, asOf, Arena.upTo_modify]

theorem asOf_setIndex_congr {other : Store} (same : store.asOf latest = other.asOf latest)
    (kind : Kind) (place : Place) (index : Index) :
    (store.setIndex kind place index).asOf latest =
      (other.setIndex kind place index).asOf latest := by
  rw [asOf_setIndex, asOf_setIndex, same]

theorem asOf_dropReplaced {replaced : Option Int} (new : ∀ id ∈ replaced, (latest : Int) < id)
    (dropped : store.dropReplaced replaced = .ok after) :
    after.asOf latest = store.asOf latest := by
  cases replaced with
  | none =>
    cases dropped
    rfl
  | some id =>
    obtain ⟨-, rfl⟩ := dropReplaced_some_eq_ok_iff.mp dropped
    exact asOf_withFiles (Arena.upTo_erase (new id rfl) store.files)

theorem asOf_without {removed : Removed}
    (new : ∀ kind, ∀ id ∈ removed.ids kind, (latest : Int) < id) :
    (store.without removed).asOf latest = store.asOf latest := by
  have files := Arena.upTo_without (new .file) store.files
  have dirs := Arena.upTo_without (new .dir) store.dirs
  simp only [asOf, without, Removed.ids] at files dirs ⊢
  rw [files, dirs]

end Writes

section Later

/-- What is bound in a directory that came after an id came after it as well. -/
def Later (store : Store) (latest : Nat) : Prop :=
  ∀ ⦃kind parent name id⦄, (latest : Int) < parent →
    store.binding? kind (some parent) name = some id →
    (latest : Int) < id

variable {top id : Int}

theorem Later.of_under (later : store.Later latest) (new : latest < top)
    (under : store.Under top id) :
    latest < id := by
  induction under with
  | refl => exact new
  | tail _ child ih =>
    obtain ⟨name, bound⟩ := child
    exact later ih bound

theorem Later.of_fileUnder (later : store.Later latest) (new : latest < top)
    (under : store.FileUnder top id) :
    latest < id := by
  obtain ⟨parent, name, above, bound⟩ := under
  exact later (later.of_under new above) bound

theorem Later.of_follow (later : store.Later latest) (new : latest < top) {names : List String}
    {reached : Place} (led : store.follow (some top) names = some reached) :
    ∃ id ∈ reached, (latest : Int) < id := by
  induction names generalizing top with
  | nil =>
    cases led
    exact ⟨top, rfl, new⟩
  | cons name rest ih =>
    obtain ⟨child, bound, led⟩ := follow_cons_eq_some_iff.mp led
    exact ih (later new bound) led

theorem Later.of_index (later : store.Later latest)
    (new : ∃ parent ∈ place, (latest : Int) < parent) {index : Index}
    (present : store.index kind place = .ok index) {name : String}
    (held : index.get? name = some id) :
    latest < id := by
  obtain ⟨parent, rfl, new⟩ := new
  exact later new ((binding?_of_index present name).trans held)

end Later

end Store

/-!
As of an id that the counter has passed, a write has only replaced the one index, as long as it does
not touch the older records.
-/

section Writes

variable {store : Store} {latest : Nat} {reading : Option Int} {id : Int}

theorem FilePlan.asOf_write {plan : FilePlan} (passed : latest ≤ store.counter)
    (replaced : ∀ old ∈ plan.replaced, (latest : Int) < old)
    (done : (plan.write reading store).result = .ok id) :
    ∃ index, plan.index.insert plan.leaf (store.counter + 1) = .ok index ∧
      (plan.write reading store).store.asOf latest =
        (store.setIndex .file plan.place index).asOf latest := by
  obtain ⟨now, cleared, files, index, -, dropped, rfl, stored, bound, written⟩ :=
    plan.write_eq_ok done
  refine ⟨index, bound, ?_⟩
  rw [written]
  refine Store.asOf_setIndex_congr ?_ _ _ _
  have inserted : files.upTo latest = cleared.advance.files.upTo latest :=
    Arena.upTo_insert stored (by omega)
  rw [Store.asOf_withFiles inserted, Store.asOf_advance, Store.asOf_dropReplaced replaced dropped]

theorem DirPlan.asOf_write {plan : DirPlan} (passed : latest ≤ store.counter)
    (apart : plan.place ≠ some ((store.counter : Int) + 1))
    (done : (plan.write reading store).result = .ok id) :
    ∃ index, plan.index.insert plan.leaf (store.counter + 1) = .ok index ∧
      (plan.write reading store).store.asOf latest =
        (store.setIndex .dir plan.place index).asOf latest := by
  obtain ⟨now, dirs, index, -, rfl, stored, bound, written⟩ := plan.write_eq_ok apart done
  refine ⟨index, bound, ?_⟩
  rw [written]
  refine Store.asOf_setIndex_congr ?_ _ _ _
  have inserted : dirs.upTo latest = store.advance.dirs.upTo latest :=
    Arena.upTo_insert stored (by omega)
  rw [Store.asOf_withDirs inserted, Store.asOf_advance]

theorem DeletePlan.asOf_writeFile {plan : DeletePlan} (new : latest < plan.id)
    (done : (plan.writeFile store).result = .ok id) :
    (plan.writeFile store).store.asOf latest = (plan.unbind .file store).asOf latest := by
  rw [(Store.writeFile_eq_ok done).2]
  refine Store.asOf_withFiles ?_
  rw [Arena.upTo_erase new, unbind, Store.files_setIndex]

theorem DeletePlan.asOf_writeDir {plan : DeletePlan} {path : String} {removed : Removed}
    (later : store.Later latest) (new : latest < plan.id)
    (present : store.index .dir plan.place = .ok plan.index)
    (held : plan.index.get? plan.leaf = some plan.id)
    (done : (plan.writeDir path store).result = .ok removed) :
    (plan.writeDir path store).store.asOf latest = (plan.unbind .dir store).asOf latest := by
  have bound : store.binding? .dir plan.place plan.leaf = some plan.id :=
    (Store.binding?_of_index present plan.leaf).trans held
  obtain ⟨filesUnder, dirsUnder⟩ := Store.mem_of_writeDir present bound done
  rw [(Store.writeDir_eq_without done).1]
  refine Store.asOf_without fun kind id member => ?_
  cases kind with
  | file => exact later.of_fileUnder new ((filesUnder id).mp member)
  | dir => exact later.of_under new ((dirsUnder id).mp member)

def Plan.place : Plan → Place
  | .file plan => plan.place
  | .dir plan => plan.place
  | .rename _ plan => plan.place
  | .deleteFile plan => plan.place
  | .deleteDir plan _ => plan.place
  | .epoch _ => none

theorem Plan.Suits.asOf_write {plan : Plan} (suits : plan.Suits store) (intact : store.Intact)
    (later : store.Later latest) (passed : latest ≤ store.counter)
    (new : ∃ parent ∈ plan.place, (latest : Int) < parent) {effect : Effect}
    (done : (plan.write reading store).result = .ok effect) :
    (plan.write reading store).store.asOf latest = store.asOf latest := by
  cases suits with
  | @file plan present replaced =>
    obtain ⟨id, written, -⟩ := map_eq_ok_iff.mp done
    have newReplaced : ∀ old ∈ plan.replaced, (latest : Int) < old := fun old held =>
      later.of_index new present (replaced.symm.trans held)
    obtain ⟨index, -, same⟩ := plan.asOf_write passed newReplaced written
    exact same.trans (Store.asOf_setIndex_of_lt new store .file index)
  | @dir plan present =>
    obtain ⟨id, written, -⟩ := map_eq_ok_iff.mp done
    have apart := intact.place_ne_next (Store.hasPlace_iff.mpr ⟨plan.index, present⟩)
    obtain ⟨index, -, same⟩ := plan.asOf_write passed apart written
    exact same.trans (Store.asOf_setIndex_of_lt new store .dir index)
  | @rename kind plan id present held =>
    obtain ⟨_, written, -⟩ := map_eq_ok_iff.mp done
    obtain ⟨id, index, -, -, moved⟩ := plan.write_eq_ok written
    exact (congrArg (·.asOf latest) moved).trans (Store.asOf_setIndex_of_lt new store kind index)
  | @deleteFile plan present held =>
    obtain ⟨id, written, -⟩ := map_eq_ok_iff.mp done
    have same := plan.asOf_writeFile (later.of_index new present held) written
    exact same.trans (Store.asOf_setIndex_of_lt new store .file _)
  | @deleteDir plan path present held =>
    obtain ⟨removed, written, -⟩ := map_eq_ok_iff.mp done
    have same := plan.asOf_writeDir later (later.of_index new present held) present held written
    exact same.trans (Store.asOf_setIndex_of_lt new store .dir _)
  | epoch number =>
    obtain ⟨parent, atRoot, -⟩ := new
    cases atRoot

end Writes

end NameTree
