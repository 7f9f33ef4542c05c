import Mathlib.Order.Lattice.Nat
import NameTree.Operation.Workbench
import NameTree.Proofs.External
import NameTree.Proofs.Room

/-!
What a clean report of the consistency check is worth, on any store, also on one put together by
hand. When the counter has passed all ids and no file is bound under two names, a clean report says
no less than that the store is intact, and no operation ends that. The check itself counts how often
a directory is reached, but not how often a file is bound: two names can share one file in a store
that it finds nothing wrong with, until one of them is deleted.
-/

namespace NameTree

namespace Store

/-- No id of the store is above its counter: neither that of a record nor one that is only bound. -/
def Passed (store : Store) : Prop :=
  ∀ kind id, (id ∈ store.ids kind ∨ ∃ place name, store.binding? kind place name = some id) →
    id ≤ store.counter

def BoundOnce (store : Store) (kind : Kind) : Prop :=
  ∀ {place name elsewhere other id}, store.binding? kind place name = some id →
    store.binding? kind elsewhere other = some id → elsewhere = place ∧ other = name

instance decidablePassed (store : Store) : Decidable store.Passed :=
  decidable_of_iff ((∀ id ∈ store.ids .file ++ store.ids .dir, id ≤ store.counter) ∧
    ∀ binding ∈ store.bindings, binding.2 ≤ store.counter) <| by
  constructor
  · intro listed kind id mentioned
    rcases mentioned with member | ⟨place, name, bound⟩
    · refine listed.1 id (List.mem_append.mpr ?_)
      cases kind with
      | file => exact Or.inl member
      | dir => exact Or.inr member
    · exact listed.2 _ (mem_bindings_iff.mpr bound)
  · intro passed
    refine ⟨?_, ?_⟩
    · intro id member
      rcases List.mem_append.mp member with isFile | isDir
      · exact passed .file id (Or.inl isFile)
      · exact passed .dir id (Or.inl isDir)
    · intro binding member
      rcases binding with ⟨⟨kind, place, name⟩, id⟩
      exact passed kind id (Or.inr ⟨place, name, mem_bindings_iff.mp member⟩)

instance decidableBoundOnce (store : Store) (kind : Kind) : Decidable (store.BoundOnce kind) :=
  decidable_of_iff (∀ binding ∈ store.bindings, ∀ other ∈ store.bindings,
    binding.1.1 = kind → other.1.1 = kind → other.2 = binding.2 → other.1.2 = binding.1.2) <| by
  constructor
  · intro listed place name elsewhere other id bound again
    exact Prod.mk.inj
      (listed _ (mem_bindings_iff.mpr bound) _ (mem_bindings_iff.mpr again) rfl rfl rfl)
  · intro once binding member other memberOther isKind otherKind same
    rcases binding with ⟨⟨_, place, name⟩, id⟩
    rcases other with ⟨⟨_, elsewhere, otherName⟩, _⟩
    cases isKind
    cases otherKind
    cases same
    obtain ⟨samePlace, sameName⟩ :=
      once (mem_bindings_iff.mp member) (mem_bindings_iff.mp memberOther)
    rw [samePlace, sameName]

/-- The length of a shortest list of names that leads to a directory. -/
noncomputable def depth (store : Store) (id : Int) : Nat :=
  sInf {length | ∃ names, store.follow none names = some (some id) ∧ names.length = length}

variable {store : Store}

theorem depth_le {names : List String} {id : Int} (led : store.follow none names = some (some id)) :
    store.depth id ≤ names.length :=
  Nat.sInf_le ⟨names, led, rfl⟩

theorem exists_shortest {id : Int} (reached : store.Reached (some id)) :
    ∃ names, store.follow none names = some (some id) ∧ names.length = store.depth id := by
  obtain ⟨names, led⟩ := reached
  have nonempty : {length | ∃ names, store.follow none names = some (some id) ∧
      names.length = length}.Nonempty :=
    ⟨names.length, names, led, rfl⟩
  exact Nat.sInf_mem nonempty

theorem ranked_depth (once : store.BoundOnce .dir)
    (reached : ∀ {place}, store.HasPlace place → store.Reached place) :
    store.Ranked store.depth := by
  -- a shortest list to a directory passes the one that binds it
  intro parent name id bound
  have childReached := (reached (hasPlace_of_binding? bound)).child bound
  obtain ⟨names, led, shortest⟩ := exists_shortest childReached
  obtain ⟨front, leaf, place, rfl, ledFront, boundLast⟩ :=
    exists_concat_of_resolve? (follow_eq_some_dir_iff.mp led)
  obtain ⟨rfl, rfl⟩ := once bound boundLast
  have below := depth_le ledFront
  rw [List.length_append, List.length_singleton] at shortest
  omega

theorem reached_of_clean (clean : store.checkConsistency = .ok []) {place : Place}
    (present : store.HasPlace place) :
    store.Reached place := by
  -- a directory that is not reached would be in the report
  cases place with
  | none => exact reached_root store
  | some id =>
    by_contra unreached
    exact List.not_mem_nil (((mem_of_checkConsistency clean).2 id).mpr
      (Or.inr ⟨present, unreached⟩))

theorem intact_of_clean (clean : store.checkConsistency = .ok []) (passed : store.Passed)
    (once : store.BoundOnce .file) : store.Intact := by
  have tree : store.RootedTree := exists_checkConsistency_iff.mp ⟨[], clean⟩
  have reached {place : Place} (present : store.HasPlace place) : store.Reached place :=
    reached_of_clean clean present
  have dirsOnce : store.BoundOnce .dir := by
    intro place name elsewhere other id bound again
    have here := reached (hasPlace_of_binding? bound)
    have same : (elsewhere, other) = (place, name) := (tree.bound_once id (here.child bound)).unique
      ⟨reached (hasPlace_of_binding? again), again⟩ ⟨here, bound⟩
    exact Prod.mk.inj same
  constructor
  case toLinked =>
    constructor
    case recorded =>
      intro kind place name id bound
      exact tree.recorded kind place name id (reached (hasPlace_of_binding? bound)) bound
    case unique =>
      intro kind place name elsewhere other id bound again
      cases kind with
      | file => exact once bound again
      | dir => exact dirsOnce bound again
    case ranked => exact ⟨store.depth, ranked_depth dirsOnce reached⟩
  case bound =>
    intro kind id member
    cases kind with
    | file =>
      by_contra unbound
      refine List.not_mem_nil (((mem_of_checkConsistency clean).2 id).mpr (Or.inl ⟨member, ?_⟩))
      rintro ⟨place, name, -, bound⟩
      exact unbound ⟨place, name, bound⟩
    | dir =>
      have present : store.HasPlace (some id) := member
      obtain ⟨place, name, -, bound⟩ := exists_binding?_of_reached (reached present)
      exact ⟨place, name, bound⟩
  case issued =>
    intro kind id member
    exact passed kind id (Or.inl member)

theorem intact_iff_clean :
    store.Intact ↔ store.checkConsistency = .ok [] ∧ store.Passed ∧ store.BoundOnce .file := by
  constructor
  · intro intact
    refine ⟨intact.checkConsistency, ?_, fun bound again => intact.unique bound again⟩
    intro kind id mentioned
    rcases mentioned with member | ⟨place, name, bound⟩
    · exact intact.issued member
    · exact intact.issued (intact.recorded bound)
  · intro given
    rcases given with ⟨clean, passed, once⟩
    exact intact_of_clean clean passed once

end Store

namespace Workbench

variable (limits : Limits) {clock : Clock} {bench : Workbench}

theorem perform_intact (steady : ∀ call, clock call ≠ none) (uncapped : bench.store.Uniform none)
    (intact : bench.store.Intact) (op : Operation) :
    External (bench.perform limits clock op).1 ∧
      (bench.perform limits clock op).2.store.Uniform none ∧
      (bench.perform limits clock op).2.store.Intact := by
  cases op with
  | query q => exact ⟨(q.external_run intact).map _, uncapped, intact⟩
  | mutate m =>
    have external := m.external_apply intact.toLinked limits (clock bench.ticks)
    refine ⟨external.map _, m.uniform_apply uncapped limits (clock bench.ticks), ?_⟩
    change (m.apply limits (clock bench.ticks) bench.store).store.Intact
    obtain ⟨now, shown⟩ := Option.ne_none_iff_exists'.mp (steady bench.ticks)
    rw [shown]
    cases done : (m.apply limits (some now) bench.store).result with
    | error fault =>
      rw [Mutation.unchanged_of_error uncapped intact done]
      exact intact
    | ok effect => exact (m.does intact done).intact intact

theorem run_intact (steady : ∀ call, clock call ≠ none) (uncapped : bench.store.Uniform none)
    (intact : bench.store.Intact) (ops : List Operation) :
    (∀ result ∈ (bench.run limits clock ops).1, External result) ∧
      (bench.run limits clock ops).2.store.Intact := by
  induction ops generalizing bench with
  | nil => exact ⟨fun _ member => absurd member List.not_mem_nil, intact⟩
  | cons op rest ih =>
    obtain ⟨external, uncapped, intact⟩ := perform_intact limits steady uncapped intact op
    obtain ⟨externalRest, intactRest⟩ := ih uncapped intact
    refine ⟨?_, intactRest⟩
    intro result member
    rcases List.mem_cons.mp member with rfl | later
    · exact external
    · exact externalRest result later

end Workbench

/-- Every condition on the store holds again after the operations, so a clean report need not
be repeated. -/
theorem clean_report_preserved (limits : Limits) (clock : Clock)
    (steady : ∀ call, clock call ≠ none) (bench : Workbench) (uncapped : bench.store.Uniform none)
    (passed : bench.store.Passed) (clean : bench.store.checkConsistency = .ok [])
    (once : bench.store.BoundOnce .file) (ops : List Operation) :
    (∀ result ∈ (bench.run limits clock ops).1, External result) ∧
      (bench.run limits clock ops).2.store.checkConsistency = .ok [] ∧
      (bench.run limits clock ops).2.store.Passed ∧
      (bench.run limits clock ops).2.store.BoundOnce .file := by
  have intact := Store.intact_of_clean clean passed once
  obtain ⟨external, after⟩ := Workbench.run_intact limits steady uncapped intact ops
  exact ⟨external, Store.intact_iff_clean.mp after⟩

/-- Put together by hand: ids below 1, and one id for a file and for the directory that it is in. -/
def Store.handmade : Store where
  capacity := none
  rootFiles := ⟨"root_files", none, ⟨[("a", -3)], by decide⟩⟩
  rootDirs := ⟨"root_dirs", none, ⟨[("d", 7)], by decide⟩⟩
  files := ⟨none, ⟨[(-3, ⟨5, [], 0, "", 0⟩), (7, ⟨5, [], 0, "", 0⟩)], by decide⟩⟩
  dirs :=
    ⟨none,
      ⟨[(7, ⟨5, [], ⟨"children_files", none, ⟨[("f", 7)], by decide⟩⟩,
        .empty "children_dirs" none⟩)],
    by decide⟩⟩
  counter := 7
  epoch := 0

theorem clean_report_preserved_handmade :
    Store.handmade.Uniform none ∧ Store.handmade.Passed ∧ Store.handmade.checkConsistency = .ok [] ∧
      Store.handmade.BoundOnce .file ∧ (∀ call, Clock.stopped 7 call ≠ none) ∧
      let ops := [.mutate (.createFile "/a" ⟨.items [], .int 1, "", .int 0, true⟩),
        .mutate (.createDir "/d/e" (.items [])), .mutate (.deleteDir "/d"), .query (.stat "/d/f")]
      let (results, after) := (Workbench.start Store.handmade).run .default (.stopped 7) ops
      (∀ result ∈ results, External result) ∧ after.store.checkConsistency = .ok [] ∧
        results = [.ok (.effect (.bound 8)), .ok (.effect (.bound 9)),
          .ok (.effect (.removedDir ⟨[7], [7, 9]⟩)), .error (.notFound "/d/f")] := by
  have uncapped : Store.handmade.Uniform none := by decide
  have passed : Store.handmade.Passed := by decide
  have clean : Store.handmade.checkConsistency = .ok [] := by decide +kernel
  have once : Store.handmade.BoundOnce .file := by decide
  have steady : ∀ call, Clock.stopped 7 call ≠ none := fun _ => Option.some_ne_none 7
  refine ⟨uncapped, passed, clean, once, steady, ?_⟩
  intro ops
  obtain ⟨external, cleanAfter, -⟩ :=
    clean_report_preserved .default (.stopped 7) steady
      (.start Store.handmade) uncapped passed clean once ops
  exact ⟨external, cleanAfter, by decide +kernel⟩

def Store.doublyBound : Store where
  capacity := none
  rootFiles := ⟨"root_files", none, ⟨[("a", 1), ("b", 1)], by decide⟩⟩
  rootDirs := .empty "root_dirs" none
  files := ⟨none, ⟨[(1, ⟨7, [], 0, "", 0⟩)], by decide⟩⟩
  dirs := .empty none
  counter := 1
  epoch := 0

theorem clean_report_not_preserved :
    Store.doublyBound.Uniform none ∧ Store.doublyBound.Passed ∧
      Store.doublyBound.checkConsistency = .ok [] ∧
      (∀ call, Clock.stopped 7 call ≠ none) ∧
      (let ops := [.mutate (.deleteFile "/a"), .query .checkConsistency, .mutate (.deleteFile "/b")]
       ((Workbench.start Store.doublyBound).run .default (.stopped 7) ops).1 =
        [.ok (.effect (.removedFile 1)), .error (.mismatch 1 "file"),
          .error (.mismatch 1 "file")]) := by
  refine ⟨by decide, by decide, by decide +kernel, fun _ => Option.some_ne_none 7, ?_⟩
  decide +kernel

end NameTree
