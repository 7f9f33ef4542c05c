import NameTree.Owner
import NameTree.Proofs.Written

/-!
Why a mutation is turned away before anything is written. Checks of arguments, and the search for
the place to which a path leads, fail with refusals of what was given. Past them a create or a
rename can still meet an entry of the name that it would bind, and fails with the listing of that
entry. On a linked store there is no other way in which a plan can fail.
-/

namespace NameTree

/-- Faults of a call that was made by the wrong caller, at the wrong time, or with arguments that
are not admissible or lead nowhere. -/
def Fault.isRefusal : Fault → Bool
  | .malformedPath _ _ | .rootOperation _ | .notFound _ | .renameMismatch _ _ => true
  | .tooManyTags _ _ | .textTooLong _ _ _ | .bareTags _ | .tagType _ => true
  | .numberType _ _ | .numberRange _ _ => true
  | .unauthorized _ | .lockUnavailable => true
  | _ => false

theorem Fault.isInternal_of_isRefusal {fault : Fault} (refusal : fault.isRefusal = true) :
    fault.isInternal = false := by
  cases fault with
  | mismatch | cycle | assertionFailed => cases refusal
  | _ => rfl

def Fault.isCollision : Fault → Bool
  | .fileExists _ _ | .dirExists _ _ => true
  | _ => false

theorem Fault.isInternal_of_isCollision {fault : Fault} (collision : fault.isCollision = true) :
    fault.isInternal = false := by
  cases fault with
  | mismatch | cycle | assertionFailed => cases collision
  | _ => rfl

abbrev Refusing {α : Type} (result : Except Fault α) : Prop :=
  FailsOnly (fun fault => fault.isRefusal = true) result

theorem External.of_refusing {α : Type} {result : Except Fault α} (refusing : Refusing result) :
    External result :=
  refusing.mono fun _ refusal => Fault.isInternal_of_isRefusal refusal

section Checks

theorem Path.refusing_check (limit : Int) (path : String) : Refusing (Path.check limit path) := by
  unfold Path.check
  split
  · exact .error rfl
  · exact .ok ()

theorem Path.refusing_checkLength (field : String) (limit : Int) (text : String) :
    Refusing (Path.checkLength field limit text) := by
  unfold Path.checkLength
  split
  · exact .error rfl
  · exact .ok ()

theorem Path.refusing_checkComponents (limit : Int) (names : List String) :
    Refusing (Path.checkComponents limit names) :=
  .forM fun name => refusing_checkLength _ limit name

theorem refusing_checkTag (maxLen : Int) (tag : Value) : Refusing (checkTag maxLen tag) := by
  unfold checkTag
  split
  · exact (Path.refusing_checkLength _ _ _).bind fun _ _ => .ok _
  · exact .error rfl

theorem Limits.refusing_checkTags (limits : Limits) (tags : Tags) :
    Refusing (limits.checkTags tags) := by
  unfold Limits.checkTags NameTree.checkTags
  split
  · exact .error rfl
  · split
    · exact .error rfl
    · exact .mapM fun tag _ => refusing_checkTag _ tag

theorem refusing_checkWord (field : String) (value : Value) : Refusing (checkWord field value) := by
  unfold checkWord
  split
  · split
    · exact .error rfl
    · exact .ok _
  · exact .error rfl

theorem FileSpec.refusing_check (spec : FileSpec) (limits : Limits) :
    Refusing (spec.check limits) := by
  refine (limits.refusing_checkTags spec.tags).bind fun _ _ => ?_
  refine (Path.refusing_checkLength _ _ _).bind fun _ _ => ?_
  refine (refusing_checkWord _ _).bind fun _ _ => ?_
  exact (refusing_checkWord _ _).bind fun _ _ => .ok _

theorem refusing_checkCaller (owner caller : Option String) :
    Refusing (checkCaller owner caller) := by
  unfold checkCaller
  split
  · exact .ok ()
  · split
    · exact .ok ()
    · exact .error rfl

end Checks

namespace Store

variable {store : Store} {limits : Limits} {path : String}

section Resolution

theorem refusing_index {kind : Kind} {place : Place} (present : store.HasPlace place) :
    Refusing (store.index kind place) := by
  obtain ⟨index, found⟩ := hasPlace_iff.mp present
  exact .of_ok found

theorem refusing_indexes {place : Place} (present : store.HasPlace place) :
    Refusing (store.indexes place) :=
  (refusing_index present).bind fun _ _ => (refusing_index present).bind fun _ _ => .ok _

theorem Linked.refusing_descend (linked : store.Linked) {place : Place} {dirs : Index}
    {names : List String} (present : store.index .dir place = .ok dirs) :
    Refusing (store.descend path place dirs names) := by
  induction names generalizing place dirs with
  | nil => exact .ok place
  | cons name rest ih =>
    unfold descend
    cases bound : dirs.get? name with
    | none => exact .error rfl
    | some id =>
      rw [← binding?_of_index present] at bound
      obtain ⟨record, found⟩ := mem_ids_dir.mp (linked.recorded bound)
      simp only [Arena.require, found]
      exact ih (index_place found)

theorem Linked.refusing_locate (linked : store.Linked) (maxLen : Int) (path : String) :
    Refusing (store.locate maxLen path) := by
  have root : store.index .dir none = .ok store.rootDirs := rfl
  unfold locate
  dsimp only
  split
  · exact .error rfl
  · split
    · exact .error rfl
    · refine (Path.refusing_checkComponents _ _).bind fun _ _ => ?_
      exact (linked.refusing_descend root).bind fun _ _ => .ok _

theorem Linked.refusing_children (linked : store.Linked) (maxLen : Int) (path : String) :
    Refusing (store.children maxLen path) := by
  have root : store.index .dir none = .ok store.rootDirs := rfl
  unfold children
  split
  · exact .ok _
  · refine FailsOnly.bind ?_ fun place placed => ?_
    · exact (Path.refusing_checkComponents _ _).bind fun _ _ => linked.refusing_descend root
    · obtain ⟨_, -, descended⟩ := bind_eq_ok_iff.mp placed
      cases place with
      | none => exact .error rfl
      | some id => exact refusing_indexes ((descend_eq_ok_iff root).mp descended).2

theorem exists_listing {kind : Kind} {id : Int} (recorded : id ∈ store.ids kind) (name : String) :
    ∃ entry, store.listing kind name id = .ok entry := by
  cases kind with
  | file =>
    obtain ⟨record, found⟩ := mem_ids_file.mp recorded
    exact ⟨_, map_eq_ok_iff.mpr ⟨record, Arena.require_eq_ok_iff.mpr found, rfl⟩⟩
  | dir =>
    obtain ⟨record, found⟩ := mem_ids_dir.mp recorded
    exact ⟨_, map_eq_ok_iff.mpr ⟨record, Arena.require_eq_ok_iff.mpr found, rfl⟩⟩

theorem refusing_listing {kind : Kind} {id : Int} (recorded : id ∈ store.ids kind) (name : String) :
    Refusing (store.listing kind name id) := by
  obtain ⟨entry, shown⟩ := exists_listing recorded name
  exact .of_ok shown

theorem Linked.mem_ids_of_index (linked : store.Linked) {kind : Kind} {place : Place}
    {index : Index} (present : store.index kind place = .ok index) {name : String} {id : Int}
    (bound : index.get? name = some id) : id ∈ store.ids kind :=
  linked.recorded ((binding?_of_index present name).trans bound)

end Resolution

end Store

/-- The mutation is admissible but for the name that it would bind, which has an entry already. The
fault holds the listing of that entry. -/
inductive Mutation.Collides (limits : Limits) (store : Store) : Mutation → Fault → Prop where
  | createFile {path : String} {spec : FileSpec} {place : Place} {leaf : String}
    {index : Index} {id : Int} {entry : Listing}
    (target : Destination store limits .file path place leaf index)
    (bound : index.get? leaf = some id) (kept : spec.overwrite = false)
    (listed : store.listing .file leaf id = .ok entry) :
    Collides limits store (.createFile path spec) (.fileExists path (some entry))
  | createDir {path : String} {tags : Tags} {place : Place} {leaf : String}
    {index : Index} {id : Int} {entry : Listing}
    (target : Destination store limits .dir (Path.dropFinalSlash path) place leaf index)
    (bound : index.get? leaf = some id) (listed : store.listing .dir leaf id = .ok entry) :
    Collides limits store (.createDir path tags) (.dirExists path (some entry))
  | rename (kind : Kind) {source target old new : String} {place : Place} {index : Index} {id : Int}
    {entry : Listing}
    (fromTarget : Destination store limits kind (Path.dropFinalSlash source) place old index)
    (toTarget : Destination store limits kind (Path.dropFinalSlash target) place new index)
    (bound : index.get? new = some id) (listed : store.listing kind new id = .ok entry) :
    Collides limits store (.rename kind source target) (kind.existsFault target entry)

/-- Nothing is planned: the mutation is refused, or it collides with an entry. -/
def Mutation.Declines (m : Mutation) (limits : Limits) (store : Store) (fault : Fault) : Prop :=
  fault.isRefusal = true ∨ m.Collides limits store fault

namespace Mutation

variable {store : Store} {limits : Limits} {m : Mutation} {fault : Fault}

theorem Collides.isCollision (collides : m.Collides limits store fault) :
    fault.isCollision = true := by
  cases collides with
  | createFile | createDir => rfl
  | rename kind => cases kind <;> rfl

theorem collision?_of_isCollision (m : Mutation) {fault : Fault}
    (other : fault.isCollision = false) :
    m.collision? fault = none := by
  cases fault with
  | fileExists | dirExists => cases other
  | _ => cases m <;> rfl

theorem Declines.isInternal (declines : m.Declines limits store fault) :
    fault.isInternal = false := by
  rcases declines with refusal | collides
  · exact Fault.isInternal_of_isRefusal refusal
  · exact Fault.isInternal_of_isCollision collides.isCollision

theorem declines_of_refusing {α : Type} {result : Except Fault α} (refusing : Refusing result)
    (m : Mutation) (limits : Limits) (store : Store) : FailsOnly (m.Declines limits store) result :=
  refusing.mono fun _ => Or.inl

end Mutation

namespace Store.Linked

variable {store : Store} (linked : store.Linked) (limits : Limits)
include linked

theorem planFile_declines (path : String) (spec : FileSpec) :
    FailsOnly ((Mutation.createFile path spec).Declines limits store)
      (store.planFile limits path spec) := by
  have declines {α : Type} {result : Except Fault α} (refusing : Refusing result) :
      FailsOnly ((Mutation.createFile path spec).Declines limits store) result :=
    Mutation.declines_of_refusing refusing _ limits store
  refine (declines (Path.refusing_check _ _)).bind fun _ checked => ?_
  refine (declines (spec.refusing_check limits)).bind fun _ _ => ?_
  refine (declines (linked.refusing_locate _ _)).bind fun (place, leaf) located => ?_
  refine (declines (refusing_index (hasPlace_of_locate located))).bind fun index present => ?_
  cases bound : index.get? leaf with
  | none => exact .ok _
  | some id =>
    cases kept : spec.overwrite with
    | true => exact .ok _
    | false =>
      obtain ⟨entry, listed⟩ := exists_listing (linked.mem_ids_of_index present bound) leaf
      refine (FailsOnly.of_ok listed).bind fun shown again => .error (Or.inr ?_)
      cases listed.symm.trans again
      exact .createFile ⟨checked, located, present⟩ bound kept listed

theorem planDir_declines (path : String) (tags : Tags) :
    FailsOnly ((Mutation.createDir path tags).Declines limits store)
      (store.planDir limits path tags) := by
  have declines {α : Type} {result : Except Fault α} (refusing : Refusing result) :
      FailsOnly ((Mutation.createDir path tags).Declines limits store) result :=
    Mutation.declines_of_refusing refusing _ limits store
  refine (declines (Path.refusing_check _ _)).bind fun _ checked => ?_
  refine (declines (limits.refusing_checkTags tags)).bind fun _ _ => ?_
  refine (declines (linked.refusing_locate _ _)).bind fun (place, leaf) located => ?_
  refine (declines (refusing_index (hasPlace_of_locate located))).bind fun index present => ?_
  cases bound : index.get? leaf with
  | none => exact .ok _
  | some id =>
    obtain ⟨entry, listed⟩ := exists_listing (linked.mem_ids_of_index present bound) leaf
    refine (FailsOnly.of_ok listed).bind fun shown again => .error (Or.inr ?_)
    cases listed.symm.trans again
    exact .createDir ⟨checked, located, present⟩ bound listed

theorem refusing_planDelete (kind : Kind) (path : String) :
    Refusing (store.planDelete limits kind path) := by
  refine (Path.refusing_check _ _).bind fun _ _ => ?_
  refine (linked.refusing_locate _ _).bind fun (place, leaf) located => ?_
  refine (refusing_index (hasPlace_of_locate located)).bind fun index present => ?_
  cases index.get? leaf with
  | none => exact .error rfl
  | some id => exact .ok _

theorem refusing_locatePair (source target : String) :
    Refusing (store.locatePair limits source target) := by
  refine (Path.refusing_check _ _).bind fun _ _ => ?_
  refine (Path.refusing_check _ _).bind fun _ _ => ?_
  refine (linked.refusing_locate _ _).bind fun (oldPlace, _) _ => ?_
  refine (linked.refusing_locate _ _).bind fun (newPlace, _) _ => ?_
  dsimp only
  split
  · exact .ok _
  · exact .error rfl

theorem planRename_declines (kind : Kind) (source target : String) :
    FailsOnly ((Mutation.rename kind source target).Declines limits store)
      (store.planRename limits kind source target) := by
  have declines {α : Type} {result : Except Fault α} (refusing : Refusing result) :
      FailsOnly ((Mutation.rename kind source target).Declines limits store) result :=
    Mutation.declines_of_refusing refusing _ limits store
  refine (declines (linked.refusing_locatePair limits _ _)).bind
    fun (place, oldName, newName) paired => ?_
  obtain ⟨fromChecked, toChecked, fromLocated, toLocated⟩ := locatePair_eq_ok_iff.mp paired
  refine (declines (refusing_index (hasPlace_of_locate fromLocated))).bind fun index present => ?_
  split
  · cases bound : index.get? newName with
    | none => exact .ok _
    | some id =>
      obtain ⟨entry, listed⟩ := exists_listing (linked.mem_ids_of_index present bound) newName
      refine (FailsOnly.of_ok listed).bind fun shown again => .error (Or.inr ?_)
      cases listed.symm.trans again
      exact .rename kind ⟨fromChecked, fromLocated, present⟩
        ⟨toChecked, toLocated, present⟩ bound listed
  · exact .error (Or.inl rfl)

theorem plan_declines (m : Mutation) :
    FailsOnly (m.Declines limits store) (m.plan limits store) := by
  have declines {α : Type} {result : Except Fault α} (refusing : Refusing result) :
      FailsOnly (m.Declines limits store) result :=
    Mutation.declines_of_refusing refusing m limits store
  cases m with
  | createFile path spec => exact (linked.planFile_declines limits path spec).map _
  | createDir path tags => exact (linked.planDir_declines limits path tags).map _
  | rename kind source target => exact (linked.planRename_declines limits kind source target).map _
  | deleteFile path => exact declines ((linked.refusing_planDelete limits .file path).map _)
  | deleteDir path => exact declines ((linked.refusing_planDelete limits .dir path).map _)
  | updateEpoch epoch => exact declines ((refusing_checkWord "epoch" epoch).map _)

end Store.Linked

end NameTree
