import NameTree.Proofs.Consistency
import NameTree.Proofs.Exports
import NameTree.Proofs.Obstacles

/-!
No operation on a store whose bindings lead to records ends in an internal fault. What a mutation
declines and what stops a plan from being written are errors of the caller, of the clock or of the
capacity; and nothing that looks up ids on the word of an index finds a record missing.
-/

namespace NameTree

theorem Mutation.external_apply {store : Store} (linked : store.Linked) (m : Mutation)
    (limits : Limits) (reading : Option Int) : External (m.apply limits reading store).result := by
  intro fault failed
  rcases m.declines_or_isObstacle linked failed with declines | obstacle
  · exact declines.isInternal
  · exact Fault.isInternal_of_isObstacle obstacle

/-- A query is refused, or it is a walk that goes deeper than it may. -/
def Fault.declinesQuery : Fault → Bool
  | .endlessWalk _ => true
  | fault => fault.isRefusal

theorem Fault.isInternal_of_declinesQuery {fault : Fault} (declined : fault.declinesQuery = true) :
    fault.isInternal = false := by
  cases fault with
  | mismatch | cycle | assertionFailed => cases declined
  | _ => rfl

theorem Fault.isObstacle_of_declinesQuery {fault : Fault} (declined : fault.declinesQuery = true) :
    fault.isObstacle = false := by
  cases fault with
  | clockFailed | capacityExceeded => cases declined
  | _ => rfl

abbrev Declining {α : Type} (result : Except Fault α) : Prop :=
  FailsOnly (fun fault => fault.declinesQuery = true) result

theorem Declining.of_refusing {α : Type} {result : Except Fault α} (refusing : Refusing result) :
    Declining result := by
  refine refusing.mono fun fault refusal => ?_
  cases fault with
  | endlessWalk => rfl
  | _ => exact refusal

section Queries

variable {store : Store} {limits : Limits} {path : String}

namespace Store

theorem Linked.refusing_stat (linked : store.Linked) : Refusing (store.stat limits path) := by
  refine (Path.refusing_check _ _).bind fun _ _ => ?_
  refine (linked.refusing_locate _ _).bind fun (place, leaf) located => ?_
  refine (refusing_indexes (hasPlace_of_locate located)).bind fun (files, dirs) present => ?_
  obtain ⟨files_at, dirs_at⟩ := indexes_eq_ok_iff.mp present
  dsimp only
  split
  · rename_i id bound
    exact refusing_listing (linked.mem_ids_of_index files_at bound) leaf
  · split
    · rename_i id bound
      exact refusing_listing (linked.mem_ids_of_index dirs_at bound) leaf
    · exact .error rfl

theorem Linked.mem_ids_of_children (linked : store.Linked) {maxLen : Int} {files dirs : Index}
    (found : store.children maxLen path = .ok (files, dirs)) :
    (∀ id ∈ files.ids, id ∈ store.ids .file) ∧ ∀ id ∈ dirs.ids, id ∈ store.ids .dir := by
  obtain ⟨-, -, place, -, files_at, dirs_at⟩ := children_eq_ok_iff.mp found
  constructor
  · intro id member
    obtain ⟨name, bound⟩ := (exists_binding?_iff files_at).mpr member
    exact linked.recorded bound
  · intro id member
    obtain ⟨name, bound⟩ := (exists_binding?_iff dirs_at).mpr member
    exact linked.recorded bound

theorem refusing_listings {kind : Kind} {index : Index}
    (recorded : ∀ id ∈ index.ids, id ∈ store.ids kind) :
    Refusing (store.listings kind index) := by
  refine .mapM fun binding member => refusing_listing (recorded binding.2 ?_) binding.1
  exact List.mem_map_of_mem member

theorem Linked.refusing_listDir (linked : store.Linked) : Refusing (store.listDir limits path) := by
  refine (Path.refusing_check _ _).bind fun _ _ => ?_
  refine (linked.refusing_children _ _).bind fun (files, dirs) found => ?_
  obtain ⟨filesHeld, dirsHeld⟩ := linked.mem_ids_of_children found
  refine (refusing_listings dirsHeld).bind fun _ _ => ?_
  exact (refusing_listings filesHeld).bind fun _ _ => .ok _

theorem Linked.refusing_exportDir (linked : store.Linked) :
    Refusing (store.exportDir limits path) := by
  intro fault failed
  have whole := failed
  rcases bind_eq_error_iff.mp failed with refused | ⟨_, checked, failed⟩
  · exact Path.refusing_check _ _ fault refused
  rcases bind_eq_error_iff.mp failed with refused | ⟨⟨place, leaf⟩, located, failed⟩
  · exact linked.refusing_locate _ _ fault refused
  rcases bind_eq_error_iff.mp failed with refused | ⟨index, present, failed⟩
  · exact refusing_index (hasPlace_of_locate located) fault refused
  cases bound : index.get? leaf with
  | none =>
    rw [bound] at failed
    cases failed
    rfl
  | some id =>
    obtain ⟨content, exported, -⟩ := linked.exists_exportDir ⟨checked, located, present⟩ bound
    rw [exported] at whole
    cases whole

theorem Linked.declining_visits (linked : store.Linked) (maxLen : Int) (depth : Nat)
    (path : String) :
    Declining (store.visits maxLen depth path) := by
  induction depth generalizing path with
  | zero => exact .error rfl
  | succ depth ih =>
    refine (Declining.of_refusing (linked.refusing_children _ _)).bind fun _ _ => ?_
    exact (FailsOnly.mapM fun name _ => ih _).bind fun _ _ => .ok _

theorem Linked.declining_walk (linked : store.Linked) : Declining (store.walk limits path) :=
  (Declining.of_refusing linked.refusing_listDir).bind fun _ _ => linked.declining_visits _ _ _

end Store

theorem Query.declining_run (intact : store.Intact) (q : Query) :
    Declining (q.run limits store) := by
  cases q with
  | stat path => exact (Declining.of_refusing intact.refusing_stat).map _
  | listDir path => exact (Declining.of_refusing intact.refusing_listDir).map _
  | exportDir path => exact (Declining.of_refusing intact.refusing_exportDir).map _
  | checkConsistency => exact (FailsOnly.of_ok intact.checkConsistency).map _
  | walk path => exact intact.declining_walk.map _
  | epoch => exact .ok _
  | stats => exact .ok _

theorem Query.external_run (intact : store.Intact) (q : Query) : External (q.run limits store) :=
  (q.declining_run intact).mono fun _ declined => Fault.isInternal_of_declinesQuery declined

end Queries

end NameTree
