import Mathlib.Data.List.Perm.Basic
import NameTree.Proofs.Frame

/-!
The preorder of what lies below a place: the ways of names that lead on from it, each before those
that continue it, and those that go on with an earlier name of an index before those that go on with
a later one.
-/

namespace NameTree.Store

def links (store : Store) (kind : Kind) (place : Place) : List (String × Int) :=
  match store.index kind place with
  | .error _ => []
  | .ok index => index.toList

def names (store : Store) (kind : Kind) (place : Place) : List String :=
  (store.links kind place).map Prod.fst

/-- The ways shorter than `depth` that lead on from a place, with the places that they lead to. -/
def tour (store : Store) : Nat → Place → List (List String × Place)
  | 0, _ => []
  | depth + 1, place =>
    ([], place) :: (store.links .dir place).flatMap fun link =>
      (store.tour depth (some link.2)).map fun stop => (link.1 :: stop.1, stop.2)

/-- The second way continues the first, or they part where the first goes on with the
earlier name. -/
inductive Before (store : Store) (place : Place) : List String → List String → Prop where
  | below (way : List String) (name : String) (rest : List String) :
    Before store place way (way ++ name :: rest)
  | beside {shared : List String} {reached : Place} {earlier later : String}
    (front back : List String) (led : store.follow place shared = some reached)
    (ordered : [earlier, later].Sublist (store.names .dir reached)) :
    Before store place (shared ++ earlier :: front) (shared ++ later :: back)

/-- All ways that lead on from a place, in preorder, none of them to a place that another
leads to. -/
structure Preorder (store : Store) (place : Place) (stops : List (List String × Place)) : Prop where
  complete : ∀ way reached, (way, reached) ∈ stops ↔ store.follow place way = some reached
  once : (stops.map Prod.snd).Nodup
  ordered : stops.Pairwise fun first second => store.Before place first.1 second.1

variable {store : Store} {kind : Kind} {place : Place} {depth : Nat} {name : String} {id : Int}
  {stops : List (List String × Place)}

theorem links_of_index {index : Index} (present : store.index kind place = .ok index) :
    store.links kind place = index.toList := by
  simp only [links, present]

theorem names_of_index {index : Index} (present : store.index kind place = .ok index) :
    store.names kind place = index.names := by
  rw [names, links_of_index present]
  rfl

theorem mem_links_iff : (name, id) ∈ store.links kind place ↔
    store.binding? kind place name = some id := by
  cases present : store.index kind place with
  | error fault => simp [links, binding?, present]
  | ok index =>
    rw [links_of_index present, binding?_of_index present]
    exact OrderedMap.get?_eq_some_iff.symm

theorem nodup_names (store : Store) (kind : Kind) (place : Place) :
    (store.names kind place).Nodup := by
  cases present : store.index kind place with
  | error fault => simp [names, links, present]
  | ok index =>
    rw [names_of_index present]
    exact index.bindings.nodup_keys

theorem mem_tour_iff {way : List String} {reached : Place} :
    (way, reached) ∈ store.tour depth place ↔ store.follow place way = some reached ∧
      way.length < depth := by
  induction depth generalizing place way with
  | zero => simp [tour]
  | succ depth ih =>
    cases way with
    | nil => simp [tour, follow, eq_comm]
    | cons name rest =>
      have onward : (name :: rest, reached) ∈ store.tour (depth + 1) place ↔
          ∃ id, store.binding? .dir place name = some id ∧
            (rest, reached) ∈ store.tour depth (some id) := by
        simp only [tour, List.mem_cons, Prod.mk.injEq, reduceCtorEq, false_and, false_or,
          List.mem_flatMap, List.mem_map, Prod.exists, List.cons.injEq, ← mem_links_iff]
        constructor
        · rintro ⟨_, id, bound, _, _, member, ⟨rfl, rfl⟩, rfl⟩
          exact ⟨id, bound, member⟩
        · rintro ⟨id, bound, member⟩
          exact ⟨name, id, bound, rest, reached, member, ⟨rfl, rfl⟩, rfl⟩
      rw [onward, follow_cons_eq_some_iff]
      simp only [ih, List.length_cons, Nat.add_lt_add_iff_right, ← and_assoc, exists_and_right]

section Order

theorem Before.cons (bound : store.binding? .dir place name = some id) {first second : List String}
    (before : store.Before (some id) first second) :
    store.Before place (name :: first) (name :: second) := by
  cases before with
  | below way next rest => exact .below (name :: first) next rest
  | beside front back led ordered =>
    exact .beside front back (follow_cons_eq_some_iff.mpr ⟨id, bound, led⟩) ordered

theorem Before.ne {first second : List String} (before : store.Before place first second) :
    first ≠ second := by
  cases before with
  | below _ next rest =>
    intro same
    simp at same
  | beside front back led ordered =>
    intro same
    obtain ⟨rfl, -⟩ := List.cons.inj (List.append_cancel_left same)
    exact absurd rfl (List.pairwise_iff_forall_sublist.mp (store.nodup_names .dir _) ordered)

theorem pairwise_tour (store : Store) (depth : Nat) (place : Place) :
    (store.tour depth place).Pairwise fun first second => store.Before place first.1 second.1 := by
  induction depth generalizing place with
  | zero => exact List.Pairwise.nil
  | succ depth ih =>
    rw [tour, List.pairwise_cons, List.pairwise_flatMap]
    refine ⟨?_, ?_, ?_⟩
    · -- the place itself comes before all that goes on from it
      intro stop member
      obtain ⟨link, -, member⟩ := List.mem_flatMap.mp member
      obtain ⟨inner, -, rfl⟩ := List.mem_map.mp member
      exact .below [] link.1 inner.1
    · intro link member
      rw [List.pairwise_map]
      exact (ih (some link.2)).imp fun before => before.cons (mem_links_iff.mp member)
    · rw [List.pairwise_iff_forall_sublist]
      intro earlier later ordered first inFirst second inSecond
      obtain ⟨front, -, rfl⟩ := List.mem_map.mp inFirst
      obtain ⟨back, -, rfl⟩ := List.mem_map.mp inSecond
      have parted : store.Before place ([] ++ earlier.1 :: front.1) ([] ++ later.1 :: back.1) :=
        .beside front.1 back.1 rfl (ordered.map Prod.fst)
      exact parted

end Order

theorem Preorder.length_eq (preorder : store.Preorder place stops) {places : List Place}
    (distinct : places.Nodup)
    (reached_iff : ∀ reached, reached ∈ places ↔ ∃ way, store.follow place way = some reached) :
    stops.length = places.length := by
  have same : (stops.map Prod.snd).Perm places := by
    refine (List.perm_ext_iff_of_nodup preorder.once distinct).mpr fun reached => ?_
    rw [reached_iff, List.mem_map]
    constructor
    · rintro ⟨⟨way, _⟩, member, rfl⟩
      exact ⟨way, (preorder.complete way _).mp member⟩
    · rintro ⟨way, led⟩
      exact ⟨(way, reached), (preorder.complete way reached).mpr led, rfl⟩
  rw [← same.length_eq, List.length_map]

section Linked

variable (linked : store.Linked)
include linked

variable {front : List String}

theorem Linked.exists_passed {way : List String} {start : Place}
    (led : store.follow none front = some start) (ledOn : store.follow start way = some place) :
    ∃ ids : List Int, ids.length = way.length ∧ ids.Nodup ∧
      ∀ id ∈ ids, ∃ part, part ≠ [] ∧ part <+: way ∧ store.follow start part = some (some id) := by
  -- each directory passed is reached by the part of the way before it
  induction way using List.reverseRecOn generalizing place with
  | nil => exact ⟨[], rfl, List.nodup_nil, by simp⟩
  | append_singleton most name ih =>
    obtain ⟨parent, id, ledMost, bound, rfl⟩ := follow_concat_eq_some_iff.mp ledOn
    obtain ⟨ids, sameLength, distinct, passed⟩ := ih ledMost
    refine ⟨id :: ids, by simp [sameLength], List.nodup_cons.mpr ⟨?_, distinct⟩, ?_⟩
    · intro member
      obtain ⟨shorter, -, isPrefix, again⟩ := passed id member
      have bounded := isPrefix.length_le
      rw [linked.follow_inj_onward led ledOn again, List.length_append,
        List.length_singleton] at bounded
      omega
    · intro other member
      rcases List.mem_cons.mp member with rfl | member
      · exact ⟨most ++ [name], by simp, List.prefix_rfl, ledOn⟩
      · obtain ⟨shorter, nonempty, isPrefix, again⟩ := passed other member
        exact ⟨shorter, nonempty, isPrefix.trans (List.prefix_append most [name]), again⟩

theorem Linked.length_le_size {way : List String} (led : store.follow none way = some place) :
    way.length ≤ store.dirs.size := by
  have atRoot : store.follow none [] = some none := rfl
  obtain ⟨ids, sameLength, distinct, passed⟩ := linked.exists_passed atRoot led
  have recorded : ids ⊆ store.ids .dir := by
    intro id member
    obtain ⟨part, -, -, here⟩ := passed id member
    exact linked.mem_ids_of_resolve? (follow_eq_some_dir_iff.mp here)
  calc
    way.length = ids.length := sameLength.symm
    _ ≤ (store.ids .dir).length := (List.subperm_of_subset distinct recorded).length_le
    _ = store.dirs.size := (store.count_eq_length_ids .dir).symm

theorem Linked.preorder_tour (led : store.follow none front = some place)
    (deep : ∀ way reached, store.follow place way = some reached → way.length < depth) :
    store.Preorder place (store.tour depth place) where
  complete way reached := by
    rw [mem_tour_iff, and_iff_left_iff_imp]
    exact deep way reached
  once := by
    unfold List.Nodup
    rw [List.pairwise_map]
    refine (store.pairwise_tour depth place).imp_of_mem ?_
    intro first second inFirst inSecond before same
    have ledFirst := (mem_tour_iff.mp inFirst).1
    have ledSecond := (mem_tour_iff.mp inSecond).1
    exact before.ne (linked.follow_inj_onward led (same ▸ ledSecond) ledFirst)
  ordered := store.pairwise_tour depth place

theorem Linked.nodup_link_ids (kind : Kind) (place : Place) :
    ((store.links kind place).map Prod.snd).Nodup := by
  cases present : store.index kind place with
  | error fault => simp [links, present]
  | ok index =>
    rw [links_of_index present]
    exact linked.nodup_index_ids present

theorem Preorder.sum_files_eq (preorder : store.Preorder place stops) {ids : List Int}
    (distinct : ids.Nodup) (bound_iff : ∀ id, id ∈ ids ↔
      ∃ way reached name, store.follow place way = some reached ∧
      store.binding? .file reached name = some id) :
    (stops.map fun stop => (store.names .file stop.2).length).sum = ids.length := by
  let found (stop : List String × Place) : List Int := (store.links .file stop.2).map Prod.snd
  have apart : (stops.flatMap found).Nodup := by
    rw [List.nodup_flatMap]
    refine ⟨fun stop _ => linked.nodup_link_ids .file stop.2, ?_⟩
    refine (List.pairwise_map.mp preorder.once).imp ?_
    intro first second elsewhere id inFirst inSecond
    obtain ⟨link, member, rfl⟩ := List.mem_map.mp inFirst
    obtain ⟨other, again, same⟩ := List.mem_map.mp inSecond
    have bound : store.binding? .file first.2 link.1 = some link.2 := mem_links_iff.mp member
    have bound' : store.binding? .file second.2 other.1 = some other.2 := mem_links_iff.mp again
    rw [same] at bound'
    exact elsewhere (linked.unique bound bound').1.symm
  have same : (stops.flatMap found).Perm ids := by
    refine (List.perm_ext_iff_of_nodup apart distinct).mpr fun id => ?_
    rw [bound_iff, List.mem_flatMap]
    constructor
    · rintro ⟨⟨way, reached⟩, member, listed⟩
      obtain ⟨⟨name, _⟩, bound, rfl⟩ := List.mem_map.mp listed
      exact ⟨way, reached, name, (preorder.complete way reached).mp member, mem_links_iff.mp bound⟩
    · rintro ⟨way, reached, name, led, bound⟩
      exact ⟨(way, reached), (preorder.complete way reached).mpr led,
        List.mem_map.mpr ⟨(name, id), mem_links_iff.mpr bound, rfl⟩⟩
  have lengths (stop : List String × Place) : (store.names .file stop.2).length =
      (found stop).length := by
    simp only [names, found, List.length_map]
  calc
    (stops.map fun stop => (store.names .file stop.2).length).sum
    _ = (stops.map fun stop => (found stop).length).sum := by simp only [lengths]
    _ = (stops.flatMap found).length := List.length_flatMap.symm
    _ = ids.length := same.length_eq

end Linked

end NameTree.Store
