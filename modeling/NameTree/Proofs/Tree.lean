import Mathlib.Data.Int.Interval
import NameTree.Proofs.Entries

/-!
The shape that operations keep. `Linked` speaks of bindings only: each leads to a record, no record
is bound twice, and directories can be ranked below those that they bind. `Intact` adds that no
record is left unbound and that the counter has passed all ids, so that every record is reached from
the root; it holds of stores built by hand as well. `Sound` adds that all ids were drawn from the
counter. A sound store is a tree: every record is reached from the root by exactly one list of
names.
-/

namespace NameTree.Store

/-- Along the bindings of directories the rank rises. -/
def Ranked (store : Store) (rank : Int → Nat) : Prop :=
  ∀ {parent name id}, store.binding? .dir (some parent) name = some id → rank parent < rank id

structure Linked (store : Store) : Prop where
  recorded : ∀ {kind place name id}, store.binding? kind place name = some id → id ∈ store.ids kind
  unique : ∀ {kind place name elsewhere other id}, store.binding? kind place name = some id →
    store.binding? kind elsewhere other = some id → elsewhere = place ∧ other = name
  ranked : ∃ rank, store.Ranked rank

structure Intact (store : Store) : Prop extends Linked store where
  bound : ∀ {kind id}, id ∈ store.ids kind → ∃ place name, store.binding? kind place name = some id
  issued : ∀ {kind id}, id ∈ store.ids kind → id ≤ store.counter

structure Sound (store : Store) : Prop extends Intact store where
  positive : ∀ {kind id}, id ∈ store.ids kind → 1 ≤ id
  apart : ∀ {id}, id ∈ store.ids .file → id ∉ store.ids .dir

/-- What the records and bindings of a namespace look like from outside. -/
structure IsTree (store : Store) : Prop where
  recorded : ∀ kind place name id, store.binding? kind place name = some id → id ∈ store.ids kind
  reached_once : ∀ kind, ∀ id ∈ store.ids kind, ∃! names, store.resolve? kind names = some id
  bound_once : ∀ kind, ∀ id ∈ store.ids kind,
    ∃! binding : Place × String, store.binding? kind binding.1 binding.2 = some id
  acyclic : ∀ id names, names ≠ [] → store.follow (some id) names ≠ some (some id)
  apart : ∀ id ∈ store.ids .file, id ∉ store.ids .dir
  issued : ∀ kind, ∀ id ∈ store.ids kind, 1 ≤ id ∧ id ≤ store.counter
  count : store.files.size + store.dirs.size ≤ store.counter

variable {store : Store}

theorem Ranked.lt_of_follow {rank : Int → Nat} (ranked : store.Ranked rank) {id : Int}
    {names : List String} {place : Place} (nonempty : names ≠ [])
    (led : store.follow (some id) names = some place) :
    ∃ reached, place = some reached ∧ rank id < rank reached := by
  induction names generalizing id with
  | nil => exact absurd rfl nonempty
  | cons name rest ih =>
    obtain ⟨child, bound, led⟩ := follow_cons_eq_some_iff.mp led
    have above : rank id < rank child := ranked bound
    cases rest with
    | nil =>
      cases led
      exact ⟨child, rfl, above⟩
    | cons next further =>
      obtain ⟨reached, same, below⟩ := ih (by simp) led
      exact ⟨reached, same, by omega⟩

theorem Linked.resolve?_inj (linked : store.Linked) {kind : Kind}
    {names others : List String} {id : Int} (found : store.resolve? kind names = some id)
    (again : store.resolve? kind others = some id) :
    others = names := by
  induction names using List.reverseRecOn generalizing kind others id with
  | nil =>
    rw [resolve?_nil] at found
    cases found
  | append_singleton front leaf ih =>
    obtain ⟨place, led, bound⟩ := resolve?_concat_eq_some_iff.mp found
    obtain ⟨front', leaf', place', split, led', bound'⟩ := exists_concat_of_resolve? again
    obtain ⟨samePlace, sameLeaf⟩ := linked.unique bound bound'
    subst samePlace sameLeaf
    have sameFront : front' = front := by
      cases place' with
      | none => rw [eq_nil_of_follow_root led, eq_nil_of_follow_root led']
      | some parent => exact ih (follow_eq_some_dir_iff.mp led) (follow_eq_some_dir_iff.mp led')
    rw [split, sameFront]

theorem Linked.follow_inj (linked : store.Linked) {names others : List String} {place : Place}
    (led : store.follow none names = some place) (again : store.follow none others = some place) :
    others = names := by
  cases place with
  | none => rw [eq_nil_of_follow_root led, eq_nil_of_follow_root again]
  | some id =>
    exact linked.resolve?_inj (follow_eq_some_dir_iff.mp led) (follow_eq_some_dir_iff.mp again)

theorem Linked.follow_inj_onward (linked : store.Linked) {front names others : List String}
    {start place : Place} (led : store.follow none front = some start)
    (ledOn : store.follow start names = some place)
    (again : store.follow start others = some place) : others = names := by
  have whole {way : List String} (onward : store.follow start way = some place) :
      store.follow none (front ++ way) = some place := by
    rw [follow_append, led, Option.bind_some, onward]
  exact List.append_cancel_left (linked.follow_inj (whole ledOn) (whole again))

theorem Linked.mem_ids_of_resolve? (linked : store.Linked) {kind : Kind}
    {names : List String} {id : Int} (found : store.resolve? kind names = some id) :
    id ∈ store.ids kind := by
  obtain ⟨_, _, _, _, _, bound⟩ := exists_concat_of_resolve? found
  exact linked.recorded bound

theorem Intact.exists_follow (intact : store.Intact) {place : Place}
    (present : store.HasPlace place) :
    ∃ names, store.follow none names = some place := by
  -- climbing from a directory to the one that binds it ends at the root, because the rank falls
  obtain ⟨rank, ranked⟩ := intact.ranked
  have climb : ∀ (height : Nat) (id : Int), id ∈ store.ids .dir → rank id < height →
      ∃ names, store.follow none names = some (some id) := by
    intro height
    induction height with
    | zero =>
      intro id member low
      omega
    | succ height ih =>
      intro id member low
      obtain ⟨place, name, bound⟩ := intact.bound member
      cases place with
      | none => exact ⟨[name], by simp [follow, bound]⟩
      | some parent =>
        have falls := ranked bound
        obtain ⟨front, led⟩ := ih parent (hasPlace_of_binding? bound) (by omega)
        exact ⟨front ++ [name], follow_concat_eq_some_iff.mpr ⟨some parent, id, led, bound, rfl⟩⟩
  cases place with
  | none => exact ⟨[], rfl⟩
  | some id => exact climb (rank id + 1) id present (by omega)

theorem Intact.exists_resolve? (intact : store.Intact) {kind : Kind} {id : Int}
    (member : id ∈ store.ids kind) :
    ∃ names, store.resolve? kind names = some id := by
  obtain ⟨place, name, bound⟩ := intact.bound member
  obtain ⟨front, led⟩ := intact.exists_follow (hasPlace_of_binding? bound)
  exact ⟨front ++ [name], resolve?_concat_eq_some_iff.mpr ⟨place, led, bound⟩⟩

theorem Sound.kind_unique (sound : store.Sound) {kind other : Kind} {id : Int}
    (held : id ∈ store.ids kind) (again : id ∈ store.ids other) : other = kind := by
  cases kind with
  | file =>
    cases other with
    | file => rfl
    | dir => exact absurd again (sound.apart held)
  | dir =>
    cases other with
    | file => exact absurd held (sound.apart again)
    | dir => rfl

theorem Sound.size_add_size_le (sound : store.Sound) :
    store.files.size + store.dirs.size ≤ store.counter := by
  -- the ids of all records are distinct numbers from 1 to the counter
  have distinct : (store.ids .file ++ store.ids .dir).Nodup := by
    rw [List.nodup_append]
    refine ⟨store.nodup_ids .file, store.nodup_ids .dir, ?_⟩
    intro fileId isFile dirId isDir same
    subst same
    exact sound.apart isFile isDir
  have within : (store.ids .file ++ store.ids .dir).toFinset ⊆
      Finset.Icc 1 (store.counter : Int) := by
    intro id member
    rw [List.mem_toFinset, List.mem_append] at member
    rw [Finset.mem_Icc]
    rcases member with isFile | isDir
    · exact ⟨sound.positive isFile, sound.issued isFile⟩
    · exact ⟨sound.positive isDir, sound.issued isDir⟩
  have bounded := Finset.card_le_card within
  rw [List.toFinset_card_of_nodup distinct, List.length_append, Int.card_Icc] at bounded
  have files : store.files.size = (store.ids .file).length := store.count_eq_length_ids .file
  have dirs : store.dirs.size = (store.ids .dir).length := store.count_eq_length_ids .dir
  omega

theorem Sound.isTree (sound : store.Sound) : store.IsTree where
  recorded _ _ _ _ bound := sound.recorded bound
  reached_once kind id member := by
    obtain ⟨names, found⟩ := sound.exists_resolve? member
    exact ⟨names, found, fun others again => sound.resolve?_inj found again⟩
  bound_once kind id member := by
    obtain ⟨place, name, bound⟩ := sound.bound member
    refine ⟨(place, name), bound, ?_⟩
    intro binding again
    rcases binding with ⟨elsewhere, other⟩
    obtain ⟨samePlace, sameName⟩ := sound.unique bound again
    exact Prod.ext samePlace sameName
  acyclic id names nonempty led := by
    obtain ⟨rank, ranked⟩ := sound.ranked
    obtain ⟨reached, same, above⟩ := ranked.lt_of_follow nonempty led
    cases same
    exact absurd above (lt_irrefl (rank id))
  apart _ isFile := sound.apart isFile
  issued _ _ member := ⟨sound.positive member, sound.issued member⟩
  count := sound.size_add_size_le

theorem sound_empty (capacity : Option Int) : (Store.empty capacity).Sound where
  recorded bound := by
    rw [binding?_empty] at bound
    cases bound
  unique bound := by
    rw [binding?_empty] at bound
    cases bound
  ranked := by
    refine ⟨fun _ => 0, ?_⟩
    intro parent name id bound
    rw [binding?_empty] at bound
    cases bound
  bound {kind id} member := by cases kind <;> cases member
  issued {kind id} member := by cases kind <;> cases member
  positive {kind id} member := by cases kind <;> cases member
  apart member := by cases member

end NameTree.Store
