import NameTree.Proofs.Paths
import NameTree.Proofs.Success

/-!
Results up to what their faults quote. Two paths that pass or fail their checks alike and are made
of the same names are told apart by no operation: the results differ at most in the paths that a
fault quotes and in the flaw that it finds in them.
-/

namespace NameTree

/-- What a fault says beside the paths that it quotes and what is wrong with them. -/
def Fault.unquoted : Fault → Fault
  | .malformedPath _ _ => .malformedPath "" .empty
  | .rootOperation _ => .rootOperation ""
  | .notFound _ => .notFound ""
  | .fileExists _ existing => .fileExists "" existing
  | .dirExists _ existing => .dirExists "" existing
  | .renameMismatch _ _ => .renameMismatch "" ""
  | fault => fault

theorem Fault.kind_unquoted (fault : Fault) : fault.unquoted.kind = fault.kind := by
  cases fault <;> rfl

theorem Fault.meansAbsent_unquoted (fault : Fault) :
    fault.unquoted.meansAbsent = fault.meansAbsent := by
  cases fault <;> rfl

/-- The same value, or faults that differ in their quotations only. -/
def Alike {α : Type} (first second : Except Fault α) : Prop :=
  first.mapError Fault.unquoted = second.mapError Fault.unquoted

namespace Alike

variable {α β : Type} {first second : Except Fault α}

theorem refl (result : Except Fault α) : Alike result result := rfl

theorem of_eq (same : first = second) : Alike first second :=
  congrArg (Except.mapError Fault.unquoted) same

theorem ok_iff {value : α} {second : Except Fault α} : Alike (.ok value) second ↔
    second = .ok value := by
  cases second <;> simp [Alike, Except.mapError, eq_comm]

theorem error_iff {fault : Fault} {second : Except Fault α} :
    Alike (.error fault) second ↔ ∃ other, second = .error other ∧
      other.unquoted = fault.unquoted := by
  cases second <;> simp [Alike, Except.mapError, eq_comm]

theorem cases_on (alike : Alike first second) :
    (∃ value, first = .ok value ∧ second = .ok value) ∨
      ∃ fault other, first = .error fault ∧ second = .error other ∧
        other.unquoted = fault.unquoted := by
  cases first with
  | ok value => exact Or.inl ⟨value, rfl, ok_iff.mp alike⟩
  | error fault =>
    obtain ⟨other, failed, same⟩ := error_iff.mp alike
    exact Or.inr ⟨fault, other, rfl, failed, same⟩

theorem mapError_kind (alike : Alike first second) :
    second.mapError Fault.kind = first.mapError Fault.kind := by
  rcases alike.cases_on with ⟨value, rfl, rfl⟩ | ⟨fault, other, rfl, rfl, unquoted⟩
  · rfl
  · exact congrArg Except.error (by rw [← other.kind_unquoted, unquoted, fault.kind_unquoted])

theorem bind {next : α → Except Fault β} {other : α → Except Fault β} (alike : Alike first second)
    (further : ∀ value, Alike (next value) (other value)) :
    Alike (first >>= next) (second >>= other) := by
  rcases alike.cases_on with ⟨value, rfl, rfl⟩ | ⟨fault, fault', rfl, rfl, same⟩
  · exact further value
  · exact error_iff.mpr ⟨fault', rfl, same⟩

theorem map (alike : Alike first second) (f : α → β) : Alike (first.map f) (second.map f) := by
  rcases alike.cases_on with ⟨value, rfl, rfl⟩ | ⟨fault, fault', rfl, rfl, same⟩
  · exact refl _
  · exact error_iff.mpr ⟨fault', rfl, same⟩

end Alike

namespace Path

/-- The two paths pass their checks or not alike, and lead along the same names. -/
structure SameTarget (limits : Limits) (path other : String) : Prop where
  checked : Alike (limits.checkPath path) (limits.checkPath other)
  root : dropFinalSlash path = "/" ↔ dropFinalSlash other = "/"
  components : components path = components other

/-- The same for operations that drop a final slash before they check the path. -/
structure SameUse (limits : Limits) (path other : String) : Prop where
  target : SameTarget limits (dropFinalSlash path) (dropFinalSlash other)
  root : dropFinalSlash path = "/" ↔ dropFinalSlash other = "/"

/-- A listing and a walk see no difference at all. -/
structure SameDir (path other : String) : Prop where
  added : addFinalSlash path = addFinalSlash other
  dropped : dropFinalSlash path = dropFinalSlash other

theorem alike_check {limits : Limits} {path other : String}
    (accepted : limits.checkPath path = .ok () ↔ limits.checkPath other = .ok ()) :
    Alike (limits.checkPath path) (limits.checkPath other) := by
  cases checked : limits.checkPath path with
  | ok _ => exact Alike.ok_iff.mpr (accepted.mp checked)
  | error fault =>
    cases checked' : limits.checkPath other with
    | ok _ =>
      rw [accepted.mpr checked'] at checked
      cases checked
    | error fault' =>
      obtain ⟨flaw, rfl⟩ := exists_flaw_of_check checked
      obtain ⟨flaw', rfl⟩ := exists_flaw_of_check checked'
      exact Alike.error_iff.mpr ⟨_, rfl, rfl⟩

theorem SameTarget.refl (limits : Limits) (path : String) : SameTarget limits path path :=
  ⟨.refl _, Iff.rfl, rfl⟩

theorem SameUse.refl (limits : Limits) (path : String) : SameUse limits path path :=
  ⟨.refl limits _, Iff.rfl⟩

theorem SameDir.refl (path : String) : SameDir path path := ⟨rfl, rfl⟩

theorem SameDir.sameUse {path other : String} (same : SameDir path other) (limits : Limits) :
    SameUse limits path other where
  target := same.dropped ▸ .refl limits _
  root := by rw [same.dropped]

end Path

structure Outcome.Alike {α : Type} (first second : Outcome α) : Prop where
  result : NameTree.Alike first.result second.result
  store : first.store = second.store
  clockCalls : first.clockCalls = second.clockCalls

namespace Outcome.Alike

variable {α β π : Type} {first second : Outcome α}

theorem refl (outcome : Outcome α) : outcome.Alike outcome := ⟨.refl _, rfl, rfl⟩

theorem map (alike : first.Alike second) (f : α → β) : (first.map f).Alike (second.map f) :=
  ⟨alike.result.map f, alike.store, alike.clockCalls⟩

theorem after {planned other : Except Fault π} {write written : π → Outcome α}
    (alike : NameTree.Alike planned other) (same : ∀ plan, (write plan).Alike (written plan))
    (store : Store) :
    (Outcome.after planned store write).Alike (Outcome.after other store written) := by
  rcases alike.cases_on with ⟨plan, rfl, rfl⟩ | ⟨fault, fault', rfl, rfl, unquoted⟩
  · exact same plan
  · exact ⟨Alike.error_iff.mpr ⟨fault', rfl, unquoted⟩, rfl, rfl⟩

end Outcome.Alike

namespace Store

variable (store : Store) {limits : Limits} {path other : String}

section Resolution

theorem alike_descend (place : Place) (dirs : Index) (names : List String) :
    Alike (store.descend path place dirs names) (store.descend other place dirs names) := by
  induction names generalizing place dirs with
  | nil => exact .refl _
  | cons name rest ih =>
    rw [descend, descend]
    split
    · exact Alike.error_iff.mpr ⟨_, rfl, rfl⟩
    · split
      · exact .refl _
      · exact ih _ _

theorem alike_locate (same : Path.SameTarget limits path other) :
    Alike (store.locate limits.maxStringLen path) (store.locate limits.maxStringLen other) := by
  unfold locate
  by_cases root : Path.dropFinalSlash path = "/"
  · rw [if_pos root, if_pos (same.root.mp root)]
    exact Alike.error_iff.mpr ⟨_, rfl, rfl⟩
  · rw [if_neg root, if_neg fun again => root (same.root.mpr again)]
    simp only [Path.components_dropFinalSlash, same.components]
    cases (Path.components other).getLast? with
    | none => exact Alike.error_iff.mpr ⟨_, rfl, rfl⟩
    | some leaf =>
      refine (Alike.refl _).bind fun _ => ?_
      exact (store.alike_descend none store.rootDirs _).bind fun _ => .refl _

end Resolution

section Queries

variable (same : Path.SameUse limits path other)
include same

theorem alike_stat : Alike (store.stat limits path) (store.stat limits other) := by
  refine same.target.checked.bind fun _ => ?_
  refine (store.alike_locate same.target).bind fun (place, leaf) => ?_
  refine (Alike.refl (store.indexes place)).bind fun (files, dirs) => ?_
  dsimp only
  split
  · exact .refl _
  · split
    · exact .refl _
    · exact Alike.error_iff.mpr ⟨_, rfl, rfl⟩

theorem alike_exportDir : Alike (store.exportDir limits path) (store.exportDir limits other) := by
  refine same.target.checked.bind fun _ => ?_
  refine (store.alike_locate same.target).bind fun (place, leaf) => ?_
  refine (Alike.refl (store.index .dir place)).bind fun index => ?_
  dsimp only
  split
  · exact Alike.error_iff.mpr ⟨_, rfl, rfl⟩
  · exact .refl _

end Queries

section Mutations

theorem alike_planFile (same : Path.SameTarget limits path other) (spec : FileSpec) :
    Alike (store.planFile limits path spec) (store.planFile limits other spec) := by
  refine same.checked.bind fun _ => ?_
  refine (Alike.refl (spec.check limits)).bind fun draft => ?_
  refine (store.alike_locate same).bind fun (place, leaf) => ?_
  refine (Alike.refl (store.index .file place)).bind fun index => ?_
  split
  · exact .refl _
  · split
    · exact .refl _
    · refine (Alike.refl _).bind fun existing => ?_
      exact Alike.error_iff.mpr ⟨_, rfl, rfl⟩

theorem alike_planDir (same : Path.SameUse limits path other) (tags : Tags) :
    Alike (store.planDir limits path tags) (store.planDir limits other tags) := by
  refine same.target.checked.bind fun _ => ?_
  refine (Alike.refl (limits.checkTags tags)).bind fun texts => ?_
  refine (store.alike_locate same.target).bind fun (place, leaf) => ?_
  refine (Alike.refl (store.index .dir place)).bind fun index => ?_
  split
  · exact .refl _
  · refine (Alike.refl _).bind fun existing => ?_
    exact Alike.error_iff.mpr ⟨_, rfl, rfl⟩

theorem alike_planDelete (same : Path.SameUse limits path other) (kind : Kind) :
    Alike (store.planDelete limits kind path) (store.planDelete limits kind other) := by
  refine same.target.checked.bind fun _ => ?_
  refine (store.alike_locate same.target).bind fun (place, leaf) => ?_
  refine (Alike.refl (store.index kind place)).bind fun index => ?_
  split
  · exact Alike.error_iff.mpr ⟨_, rfl, rfl⟩
  · exact .refl _

variable {target further : String} (sameSource : Path.SameUse limits path other)
  (sameTarget : Path.SameUse limits target further)
include sameSource sameTarget

theorem alike_locatePair :
    Alike (store.locatePair limits path target) (store.locatePair limits other further) := by
  refine sameSource.target.checked.bind fun _ => ?_
  refine sameTarget.target.checked.bind fun _ => ?_
  refine (store.alike_locate sameSource.target).bind fun (oldPlace, oldName) => ?_
  refine (store.alike_locate sameTarget.target).bind fun (newPlace, newName) => ?_
  dsimp only
  split
  · exact .refl _
  · exact Alike.error_iff.mpr ⟨_, rfl, rfl⟩

theorem alike_planRename (kind : Kind) :
    Alike (store.planRename limits kind path target)
      (store.planRename limits kind other further) := by
  refine (store.alike_locatePair sameSource sameTarget).bind fun (place, oldName, newName) => ?_
  refine (Alike.refl (store.index kind place)).bind fun index => ?_
  split
  · split
    · exact .refl _
    · refine (Alike.refl _).bind fun existing => ?_
      cases kind <;> exact Alike.error_iff.mpr ⟨_, rfl, rfl⟩
  · exact Alike.error_iff.mpr ⟨_, rfl, rfl⟩

end Mutations

end Store

theorem DeletePlan.alike_writeDir (plan : DeletePlan) (path other : String) (store : Store) :
    (plan.writeDir path store).Alike (plan.writeDir other store) := by
  unfold writeDir
  dsimp only
  split
  · exact .refl _
  · split
    · exact .refl _
    · split
      · exact .refl _
      · exact ⟨.refl _, rfl, rfl⟩

/-- The second mutation is the first with other paths: `created` relates the paths of new files,
`used` all others. -/
inductive Mutation.Related (created used : String → String → Prop) :
    Mutation → Mutation → Prop where
  | createFile {path other : String} (paths : created path other) (spec : FileSpec) :
    Related created used (.createFile path spec) (.createFile other spec)
  | createDir {path other : String} (paths : used path other) (tags : Tags) :
    Related created used (.createDir path tags) (.createDir other tags)
  | rename {source source' target target' : String} (kind : Kind) (sources : used source source')
    (targets : used target target') :
    Related created used (.rename kind source target) (.rename kind source' target')
  | deleteFile {path other : String} (paths : used path other) :
    Related created used (.deleteFile path) (.deleteFile other)
  | deleteDir {path other : String} (paths : used path other) :
    Related created used (.deleteDir path) (.deleteDir other)
  | updateEpoch (epoch : Value) : Related created used (.updateEpoch epoch) (.updateEpoch epoch)

inductive Query.Related (used listed : String → String → Prop) : Query → Query → Prop where
  | stat {path other : String} (paths : used path other) :
    Related used listed (.stat path) (.stat other)
  | exportDir {path other : String} (paths : used path other) :
    Related used listed (.exportDir path) (.exportDir other)
  | listDir {path other : String} (paths : listed path other) :
    Related used listed (.listDir path) (.listDir other)
  | walk {path other : String} (paths : listed path other) :
    Related used listed (.walk path) (.walk other)
  | checkConsistency : Related used listed .checkConsistency .checkConsistency
  | epoch : Related used listed .epoch .epoch
  | stats : Related used listed .stats .stats

section Related

variable {created used listed created' used' listed' : String → String → Prop} {limits : Limits}

theorem Mutation.Related.refl (new : ∀ path, created path path) (old : ∀ path, used path path)
    (m : Mutation) :
    m.Related created used m := by
  cases m with
  | createFile path spec => exact .createFile (new path) spec
  | createDir path tags => exact .createDir (old path) tags
  | rename kind source target => exact .rename kind (old source) (old target)
  | deleteFile path => exact .deleteFile (old path)
  | deleteDir path => exact .deleteDir (old path)
  | updateEpoch epoch => exact .updateEpoch epoch

theorem Query.Related.refl (old : ∀ path, used path path) (dirs : ∀ path, listed path path)
    (q : Query) :
    q.Related used listed q := by
  cases q with
  | stat path => exact .stat (old path)
  | listDir path => exact .listDir (dirs path)
  | exportDir path => exact .exportDir (old path)
  | checkConsistency => exact .checkConsistency
  | walk path => exact .walk (dirs path)
  | epoch => exact .epoch
  | stats => exact .stats

theorem Mutation.Related.mono {m other : Mutation} (related : m.Related created used other)
    (new : ∀ path path', created path path' → created' path path')
    (old : ∀ path path', used path path' → used' path path') :
    m.Related created' used' other := by
  cases related with
  | createFile paths spec => exact .createFile (new _ _ paths) spec
  | createDir paths tags => exact .createDir (old _ _ paths) tags
  | rename kind sources targets => exact .rename kind (old _ _ sources) (old _ _ targets)
  | deleteFile paths => exact .deleteFile (old _ _ paths)
  | deleteDir paths => exact .deleteDir (old _ _ paths)
  | updateEpoch epoch => exact .updateEpoch epoch

theorem Query.Related.mono {q other : Query} (related : q.Related used listed other)
    (old : ∀ path path', used path path' → used' path path')
    (dirs : ∀ path path', listed path path' → listed' path path') :
    q.Related used' listed' other := by
  cases related with
  | stat paths => exact .stat (old _ _ paths)
  | exportDir paths => exact .exportDir (old _ _ paths)
  | listDir paths => exact .listDir (dirs _ _ paths)
  | walk paths => exact .walk (dirs _ _ paths)
  | checkConsistency => exact .checkConsistency
  | epoch => exact .epoch
  | stats => exact .stats

theorem Mutation.Related.label_eq {m other : Mutation} (related : m.Related created used other) :
    other.label = m.label := by
  cases related with
  | rename kind => cases kind <;> rfl
  | _ => rfl

theorem Mutation.Related.alike_apply {m other : Mutation}
    (related : m.Related (Path.SameTarget limits) (Path.SameUse limits) other)
    (reading : Option Int) (store : Store) :
    (m.apply limits reading store).Alike (other.apply limits reading store) := by
  cases related with
  | createFile paths spec =>
    refine Outcome.Alike.map ?_ _
    rw [Store.createFile_eq_after, Store.createFile_eq_after]
    exact .after (store.alike_planFile paths spec) (fun _ => .refl _) store
  | createDir paths tags =>
    refine Outcome.Alike.map ?_ _
    rw [Store.createDir_eq_after, Store.createDir_eq_after]
    exact .after (store.alike_planDir paths tags) (fun _ => .refl _) store
  | rename kind sources targets =>
    refine Outcome.Alike.map ?_ _
    rw [Store.rename_eq_after, Store.rename_eq_after]
    exact .after (store.alike_planRename sources targets kind) (fun _ => .refl _) store
  | deleteFile paths =>
    refine Outcome.Alike.map ?_ _
    rw [Store.deleteFile_eq_after, Store.deleteFile_eq_after]
    exact .after (store.alike_planDelete paths .file) (fun _ => .refl _) store
  | deleteDir paths =>
    refine Outcome.Alike.map ?_ _
    rw [Store.deleteDir_eq_after, Store.deleteDir_eq_after]
    exact .after (store.alike_planDelete paths .dir)
      (fun plan => plan.alike_writeDir _ _ store) store
  | updateEpoch epoch => exact .refl _

theorem Query.Related.alike_run {q other : Query}
    (related : q.Related (Path.SameUse limits) Path.SameDir other) (store : Store) :
    Alike (q.run limits store) (other.run limits store) := by
  cases related with
  | stat paths => exact (store.alike_stat paths).map _
  | exportDir paths => exact (store.alike_exportDir paths).map _
  | listDir paths => simp only [run, Store.listDir, paths.added, Alike.refl]
  | walk paths => simp only [run, Store.walk, paths.dropped, Alike.refl]
  | checkConsistency | epoch | stats => exact .refl _

end Related

end NameTree
