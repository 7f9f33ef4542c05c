import Mathlib.Data.List.Nodup
import NameTree.Store

/-!
A store as a map: what each name is bound to at each place, and which ids have records. The lemmas
say what the writes to the containers do to both.
-/

namespace NameTree

variable {κ ν : Type} [DecidableEq κ]

theorem OrderedMap.nodup_values {m : OrderedMap κ ν}
    (injective : ∀ {key other value}, m.get? key = some value → m.get? other = some value →
      other = key) :
    m.values.Nodup := by
  refine List.Nodup.map_on ?_ (List.Nodup.of_map _ m.keys_nodup)
  rintro ⟨key, value⟩ member ⟨other, same⟩ member' equal
  cases equal
  rw [injective (get?_eq_some_iff.mpr member) (get?_eq_some_iff.mpr member')]

def DirRecord.withIndex (record : DirRecord) (index : Index) : Kind → DirRecord
  | .file => { record with files := index }
  | .dir => { record with dirs := index }

theorem DirRecord.tags_withIndex (record : DirRecord) (index : Index) (kind : Kind) :
    (record.withIndex index kind).tags = record.tags := by
  cases kind <;> rfl

theorem DirRecord.listing_withIndex (name : String) (record : DirRecord) (index : Index)
    (kind : Kind) :
    (record.withIndex index kind).listing name = record.listing name := by
  cases kind <;> rfl

namespace Store

/-- What `name` is bound to at a place; nothing when the place has no record. -/
def binding? (store : Store) (kind : Kind) (place : Place) (name : String) : Option Int :=
  match store.index kind place with
  | .error _ => none
  | .ok index => index.get? name

def ids (store : Store) : Kind → List Int
  | .file => store.files.ids
  | .dir => store.dirs.ids

def count (store : Store) : Kind → Nat
  | .file => store.files.size
  | .dir => store.dirs.size

/-- The root is always there, a directory only while it has a record. -/
def HasPlace (store : Store) : Place → Prop
  | none => True
  | some id => id ∈ store.ids .dir

/-- The record of one kind under `id` as it is shown with `name`, field by field. -/
def shown? (store : Store) (kind : Kind) (name : String) (id : Int) : Option Listing :=
  match kind with
  | .file => (store.files.get? id).map fun record =>
    { name := name, createTs := record.createTs, isDir := false, tags := record.tags,
      size := record.size, contentRef := record.contentRef, expiry := record.expiry }
  | .dir => (store.dirs.get? id).map fun record =>
    { name := name, createTs := record.createTs, isDir := true, tags := record.tags, size := 0,
      contentRef := "", expiry := 0 }

theorem listing_eq_ok_iff {store : Store} {kind : Kind} {name : String} {id : Int}
    {entry : Listing} :
    store.listing kind name id = .ok entry ↔ store.shown? kind name id = some entry := by
  cases kind with
  | file =>
    unfold listing shown? Arena.require
    dsimp only
    cases store.files.get? id <;> simp [Except.map, FileRecord.listing]
  | dir =>
    unfold listing shown? Arena.require
    dsimp only
    cases store.dirs.get? id <;> simp [Except.map, DirRecord.listing]

theorem mem_ids_file {store : Store} {id : Int} :
    id ∈ store.ids .file ↔ ∃ record, store.files.get? id = some record := Arena.mem_ids_iff

theorem mem_ids_dir {store : Store} {id : Int} :
    id ∈ store.ids .dir ↔ ∃ record, store.dirs.get? id = some record := Arena.mem_ids_iff

theorem nodup_ids (store : Store) (kind : Kind) : (store.ids kind).Nodup := by
  cases kind
  · exact store.files.records.nodup_keys
  · exact store.dirs.records.nodup_keys

theorem count_eq_length_ids (store : Store) (kind : Kind) :
    store.count kind = (store.ids kind).length := by
  cases kind with
  | file => exact store.files.records.size_eq_length_keys
  | dir => exact store.dirs.records.size_eq_length_keys

theorem index_place {store : Store} {kind : Kind} {id : Int} {record : DirRecord}
    (found : store.dirs.get? id = some record) :
    store.index kind (some id) =
      .ok (match kind with | .file => record.files | .dir => record.dirs) := by
  cases kind <;> simp [index, Arena.require, found]

theorem hasPlace_iff {store : Store} {kind : Kind} {place : Place} :
    store.HasPlace place ↔ ∃ index, store.index kind place = .ok index := by
  cases place with
  | none => cases kind <;> simp [HasPlace, index]
  | some id =>
    simp only [HasPlace, mem_ids_dir]
    constructor
    · intro given
      rcases given with ⟨record, found⟩
      exact ⟨_, index_place found⟩
    · intro given
      rcases given with ⟨index, present⟩
      cases found : store.dirs.get? id with
      | none => simp [Store.index, Arena.require, found] at present
      | some record => exact ⟨record, rfl⟩

theorem binding?_of_index {store : Store} {kind : Kind} {place : Place} {index : Index}
    (present : store.index kind place = .ok index) (name : String) :
    store.binding? kind place name = index.get? name := by
  simp [binding?, present]

theorem hasPlace_of_binding? {store : Store} {kind : Kind} {place : Place}
    {name : String} {id : Int} (bound : store.binding? kind place name = some id) :
    store.HasPlace place := by
  unfold binding? at bound
  split at bound
  · cases bound
  · rename_i index present
    exact hasPlace_iff.mpr ⟨index, present⟩

theorem binding?_of_absent {store : Store} {kind : Kind} {place : Place}
    (absent : ¬ store.HasPlace place) (name : String) : store.binding? kind place name = none := by
  cases bound : store.binding? kind place name with
  | none => rfl
  | some id => exact absurd (hasPlace_of_binding? bound) absent

theorem binding?_empty (capacity : Option Int) (kind : Kind) (place : Place) (name : String) :
    (Store.empty capacity).binding? kind place name = none := by
  cases place <;> cases kind <;> rfl

section Ids

variable {store : Store}

theorem exists_binding?_iff {kind : Kind} {place : Place} {index : Index}
    (present : store.index kind place = .ok index) {id : Int} :
    (∃ name, store.binding? kind place name = some id) ↔ id ∈ index.ids := by
  simp only [binding?_of_index present, Index.mem_ids_iff]

theorem exists_names_of_repeated {index : Index} {front back : List Int} {id : Int}
    (listed : index.ids = front ++ id :: back) (again : id ∈ front) :
    ∃ name other, index.get? name = some id ∧ index.get? other = some id ∧ other ≠ name := by
  obtain ⟨before, after, split, frontIs, afterIs⟩ := List.map_eq_append_iff.mp listed
  obtain ⟨⟨name, held⟩, later, afterSplit, same, -⟩ := List.map_eq_cons_iff.mp afterIs
  subst same afterSplit
  obtain ⟨⟨other, _⟩, member, same⟩ := List.mem_map.mp (frontIs ▸ again)
  subst same
  refine ⟨name, other, ?_, ?_, ?_⟩
  · exact OrderedMap.get?_eq_some_iff.mpr (split ▸ List.mem_append_right _ List.mem_cons_self)
  · exact OrderedMap.get?_eq_some_iff.mpr (split ▸ List.mem_append_left _ member)
  · intro same
    subst same
    have distinct := index.bindings.keys_nodup
    rw [split, List.map_append, List.map_cons, List.nodup_append] at distinct
    exact distinct.2.2 _ (List.mem_map_of_mem member) _ List.mem_cons_self rfl

theorem name_unique_of_nodup {index : Index} (distinct : index.ids.Nodup)
    {name other : String} {id : Int} (bound : index.get? name = some id)
    (again : index.get? other = some id) : other = name := by
  have same := List.inj_on_of_nodup_map distinct (OrderedMap.get?_eq_some_iff.mp bound)
    (OrderedMap.get?_eq_some_iff.mp again) rfl
  exact (congrArg Prod.fst same).symm

theorem unique_cons {α : Type} (at_ : α → Place) {new : α} {old : List α} {index : Index}
    (present : store.index .dir (at_ new) = .ok index) (distinct : index.ids.Nodup)
    (apart : ∀ there ∈ old, ∀ name other id, store.binding? .dir (at_ new) name = some id →
      store.binding? .dir (at_ there) other ≠ some id)
    (unique : ∀ here ∈ old, ∀ there ∈ old, ∀ name other id,
      store.binding? .dir (at_ here) name = some id →
      store.binding? .dir (at_ there) other = some id → there = here ∧ other = name) :
    ∀ here ∈ new :: old, ∀ there ∈ new :: old, ∀ name other id,
      store.binding? .dir (at_ here) name = some id →
      store.binding? .dir (at_ there) other = some id → there = here ∧ other = name := by
  intro here hereKnown there thereKnown name other id bound again
  rcases List.mem_cons.mp hereKnown with rfl | hereOld
  · rcases List.mem_cons.mp thereKnown with rfl | thereOld
    · rw [binding?_of_index present] at bound again
      exact ⟨rfl, name_unique_of_nodup distinct bound again⟩
    · exact absurd again (apart there thereOld name other id bound)
  · rcases List.mem_cons.mp thereKnown with rfl | thereOld
    · exact absurd bound (apart here hereOld other name id again)
    · exact unique here hereOld there thereOld name other id bound again

end Ids

section Listed

def bindingsAt (kind : Kind) (place : Place) (index : Index) :
    List ((Kind × Place × String) × Int) :=
  index.toList.map fun binding => ((kind, place, binding.1), binding.2)

def bindings (store : Store) : List ((Kind × Place × String) × Int) :=
  bindingsAt .file none store.rootFiles ++ bindingsAt .dir none store.rootDirs ++
    store.dirs.toList.flatMap fun entry =>
      bindingsAt .file (some entry.1) entry.2.files ++ bindingsAt .dir (some entry.1) entry.2.dirs

theorem mem_bindingsAt_iff {kind other : Kind} {place elsewhere : Place} {index : Index}
    {name : String} {id : Int} : ((kind, place, name), id) ∈ bindingsAt other elsewhere index ↔
      kind = other ∧ place = elsewhere ∧ index.get? name = some id := by
  simp only [bindingsAt, List.mem_map, Prod.mk.injEq, Prod.exists, Index.get?,
    OrderedMap.get?_eq_some_iff]
  constructor
  · rintro ⟨name, id, member, ⟨rfl, rfl, rfl⟩, rfl⟩
    exact ⟨rfl, rfl, member⟩
  · rintro ⟨rfl, rfl, member⟩
    exact ⟨name, id, member, ⟨rfl, rfl, rfl⟩, rfl⟩

theorem mem_bindings_iff {store : Store} {kind : Kind} {place : Place} {name : String} {id : Int} :
    ((kind, place, name), id) ∈ store.bindings ↔ store.binding? kind place name = some id := by
  simp only [bindings, List.mem_append, List.mem_flatMap, mem_bindingsAt_iff, Prod.exists]
  cases place with
  | none => cases kind <;> simp [binding?, index]
  | some parent =>
    have listed (record : DirRecord) : (parent, record) ∈ store.dirs.toList ↔
        store.dirs.get? parent = some record :=
      OrderedMap.get?_eq_some_iff.symm
    cases found : store.dirs.get? parent with
    | none => cases kind <;> simp_all [binding?, index, Arena.require]
    | some record => cases kind <;> simp_all [binding?, index, Arena.require]

end Listed

section SetIndex

variable {store : Store} {kind : Kind} {place : Place} {old : Index}

theorem binding?_setIndex (present : store.index kind place = .ok old) (index : Index)
    (other : Kind) (elsewhere : Place) (name : String) :
    (store.setIndex kind place index).binding? other elsewhere name =
      if other = kind ∧ elsewhere = place then index.get? name
      else store.binding? other elsewhere name := by
  by_cases same : other = kind ∧ elsewhere = place
  · obtain ⟨rfl, rfl⟩ := same
    rw [binding?_of_index (index_setIndex_self present index)]
    simp
  · have ne : (other, elsewhere) ≠ (kind, place) := by
      simpa using same
    simp [binding?, index_setIndex_of_ne store ne index, same]

theorem ids_setIndex (store : Store) (kind : Kind) (place : Place) (index : Index) (other : Kind) :
    (store.setIndex kind place index).ids other = store.ids other := by
  cases place <;> cases kind <;> cases other <;> simp [setIndex, ids, Arena.ids_modify]

theorem count_setIndex (store : Store) (kind : Kind) (place : Place) (index : Index)
    (other : Kind) :
    (store.setIndex kind place index).count other = store.count other := by
  rw [count_eq_length_ids, ids_setIndex, count_eq_length_ids]

theorem files_setIndex (store : Store) (kind : Kind) (place : Place) (index : Index) :
    (store.setIndex kind place index).files = store.files := by
  cases place <;> cases kind <;> rfl

theorem counter_setIndex (store : Store) (kind : Kind) (place : Place) (index : Index) :
    (store.setIndex kind place index).counter = store.counter := by
  cases place <;> cases kind <;> rfl

theorem epoch_setIndex (store : Store) (kind : Kind) (place : Place) (index : Index) :
    (store.setIndex kind place index).epoch = store.epoch := by
  cases place <;> cases kind <;> rfl

theorem capacity_setIndex (store : Store) (kind : Kind) (place : Place) (index : Index) :
    (store.setIndex kind place index).capacity = store.capacity := by
  cases place <;> cases kind <;> rfl

theorem get?_dirs_setIndex (store : Store) (kind : Kind) (place : Place) (index : Index)
    (id : Int) :
    (store.setIndex kind place index).dirs.get? id =
      if place = some id then (store.dirs.get? id).map (·.withIndex index kind)
        else store.dirs.get? id := by
  cases place with
  | none => cases kind <;> rfl
  | some parent =>
    by_cases here : parent = id
    · subst here
      cases kind <;> simp [setIndex, Arena.get?_modify, DirRecord.withIndex]
    · have elsewhere : id ≠ parent := fun same => here same.symm
      cases kind <;> simp [setIndex, Arena.get?_modify, here, elsewhere]

theorem listing_setIndex (store : Store) (kind : Kind) (place : Place) (index : Index)
    (other : Kind) (name : String) (id : Int) :
    (store.setIndex kind place index).listing other name id = store.listing other name id := by
  cases other with
  | file => rw [listing, files_setIndex, listing]
  | dir =>
    simp only [listing, Arena.require, get?_dirs_setIndex]
    by_cases here : place = some id
    · cases store.dirs.get? id with
      | none => simp [here]
      | some record => simp [here, Except.map, DirRecord.listing_withIndex]
    · rw [if_neg here]

theorem binding?_setIndex_insert {after : Index} {name : String} {id : Int}
    (present : store.index kind place = .ok old) (inserted : old.insert name id = .ok after)
    (other : Kind) (elsewhere : Place) (asked : String) :
    (store.setIndex kind place after).binding? other elsewhere asked =
      if other = kind ∧ elsewhere = place ∧ asked = name then some id
      else store.binding? other elsewhere asked := by
  rw [binding?_setIndex present, Index.get?_of_insert inserted]
  by_cases here : other = kind ∧ elsewhere = place
  · obtain ⟨rfl, rfl⟩ := here
    simp [binding?_of_index present]
  · have elsewhere_ne : ¬ (other = kind ∧ elsewhere = place ∧ asked = name) :=
      fun all => here ⟨all.1, all.2.1⟩
    rw [if_neg here, if_neg elsewhere_ne]

theorem binding?_setIndex_erase (present : store.index kind place = .ok old) (name : String)
    (other : Kind) (elsewhere : Place) (asked : String) :
    (store.setIndex kind place (old.erase name)).binding? other elsewhere asked =
      if other = kind ∧ elsewhere = place ∧ asked = name then none
      else store.binding? other elsewhere asked := by
  rw [binding?_setIndex present, Index.get?_erase]
  by_cases here : other = kind ∧ elsewhere = place
  · obtain ⟨rfl, rfl⟩ := here
    simp [binding?_of_index present]
  · have elsewhere_ne : ¬ (other = kind ∧ elsewhere = place ∧ asked = name) :=
      fun all => here ⟨all.1, all.2.1⟩
    rw [if_neg here, if_neg elsewhere_ne]

theorem setIndex_setIndex (store : Store) (kind : Kind) (place : Place) (first second : Index) :
    (store.setIndex kind place first).setIndex kind place second =
      store.setIndex kind place second := by
  cases place with
  | none => cases kind <;> rfl
  | some id => cases kind <;> simp only [setIndex, Arena.modify, OrderedMap.modify_modify] <;> rfl

theorem setIndex_of_index (present : store.index kind place = .ok old) :
    store.setIndex kind place old = store := by
  cases place with
  | none => cases kind <;> cases present <;> rfl
  | some id =>
    obtain ⟨record, found⟩ := mem_ids_dir.mp (hasPlace_iff.mpr ⟨old, present⟩)
    have unchanged (change : DirRecord → DirRecord) (same : change record = record) :
        store.dirs.modify id change = store.dirs := by
      rw [Arena.modify, OrderedMap.modify_of_get? found same]
    rw [index_place found] at present
    cases kind with
    | file =>
      cases present
      have same := unchanged (fun parent => { parent with files := record.files }) rfl
      simp only [setIndex, same]
    | dir =>
      cases present
      have same := unchanged (fun parent => { parent with dirs := record.dirs }) rfl
      simp only [setIndex, same]

end SetIndex

section Arenas

variable (store : Store)

@[simp] theorem index_withFiles (files : Arena "file" FileRecord) (kind : Kind) (place : Place) :
    { store with files := files }.index kind place = store.index kind place := by
  cases place <;> cases kind <;> rfl

@[simp] theorem binding?_withFiles (files : Arena "file" FileRecord) (kind : Kind) (place : Place)
    (name : String) :
    { store with files := files }.binding? kind place name = store.binding? kind place name := by
  simp [binding?]

@[simp] theorem index_advance (kind : Kind) (place : Place) :
    store.advance.index kind place = store.index kind place := by
  cases place <;> cases kind <;> rfl

@[simp] theorem binding?_advance (kind : Kind) (place : Place) (name : String) :
    store.advance.binding? kind place name = store.binding? kind place name := by
  simp [binding?]

theorem index_withDirs_of_ne {dirs : Arena "dir" DirRecord} {id : Int} {record : DirRecord}
    {place : Place} (inserted : store.dirs.insert id record = .ok dirs) (ne : place ≠ some id)
    (kind : Kind) :
    { store with dirs := dirs }.index kind place = store.index kind place := by
  cases place with
  | none => cases kind <;> rfl
  | some other =>
    have apart : other ≠ id := fun same => ne (congrArg some same)
    simp [index, Arena.require, Arena.get?_of_insert inserted, apart]

theorem binding?_insertDir {dirs : Arena "dir" DirRecord} {id createTs : Int} {tags : List String}
    {capacity : Option Int}
    (inserted : store.dirs.insert id (.make createTs tags capacity) = .ok dirs) (kind : Kind)
    (place : Place) (name : String) :
    { store with dirs := dirs }.binding? kind place name =
      if place = some id then none else store.binding? kind place name := by
  by_cases same : place = some id
  · subst same
    cases kind <;>
      simp [binding?, index, Arena.require, Arena.get?_of_insert inserted, DirRecord.make,
        Index.empty, Index.get?]
  · simp [binding?, index_withDirs_of_ne store inserted same, same]

end Arenas

end Store
end NameTree
