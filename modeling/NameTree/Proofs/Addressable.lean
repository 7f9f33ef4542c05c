import NameTree.Proofs.Calls
import NameTree.Proofs.Committed
import NameTree.Proofs.External
import NameTree.Proofs.Named

/-!
Which entries can be reached by their paths. An entry whose path fits the limit can be asked for,
listed and deleted; one whose path is too long is refused everywhere. Paths outgrow the limit only
when a directory is renamed and something in it does not fit under the new name.
-/

namespace NameTree

namespace Store

variable {store : Store} {limits : Limits} {path : String} {place : Place} {leaf : String}

theorem stat_of_located (checked : limits.checkPath (Path.dropFinalSlash path) = .ok ())
    (located : store.locate limits.maxStringLen (Path.dropFinalSlash path) = .ok (place, leaf)) :
    store.stat limits path =
      match store.binding? .file place leaf with
      | some id => store.listing .file leaf id
      | none =>
        match store.binding? .dir place leaf with
        | some id => store.listing .dir leaf id
        | none => .error (.notFound path) := by
  have present := hasPlace_of_locate located
  obtain ⟨files, files_at⟩ : ∃ files, store.index .file place = .ok files := hasPlace_iff.mp present
  obtain ⟨dirs, dirs_at⟩ : ∃ dirs, store.index .dir place = .ok dirs := hasPlace_iff.mp present
  have both := indexes_eq_ok_iff.mpr ⟨files_at, dirs_at⟩
  unfold stat
  simp only [checked, located, both, binding?_of_index files_at, binding?_of_index dirs_at, bind,
    Except.bind]
  rfl

variable {kind : Kind} {id : Int}

theorem exists_stat_of_located (linked : store.Linked)
    (checked : limits.checkPath (Path.dropFinalSlash path) = .ok ())
    (located : store.locate limits.maxStringLen (Path.dropFinalSlash path) = .ok (place, leaf))
    (bound : store.binding? kind place leaf = some id) :
    ∃ entry, store.stat limits path = .ok entry := by
  rw [stat_of_located checked located]
  cases file : store.binding? .file place leaf with
  | some fileId => exact exists_listing (linked.recorded file) leaf
  | none =>
    cases kind with
    | file =>
      rw [file] at bound
      cases bound
    | dir =>
      rw [bound]
      exact exists_listing (linked.recorded bound) leaf

theorem stat_of_unhidden (checked : limits.checkPath (Path.dropFinalSlash path) = .ok ())
    (located : store.locate limits.maxStringLen (Path.dropFinalSlash path) = .ok (place, leaf))
    (bound : store.binding? kind place leaf = some id)
    (unhidden : kind = .file ∨ store.binding? .file place leaf = none) :
    store.stat limits path = store.listing kind leaf id := by
  rw [stat_of_located checked located]
  cases kind with
  | file => rw [bound]
  | dir =>
    have noFile := unhidden.resolve_left (by simp)
    rw [noFile, bound]

variable {names : List String}

theorem locate_join
    (free : ∀ name ∈ names ++ [leaf],
      Path.IsName name ∧ (Path.byteLength name : Int) ≤ limits.maxStringLen)
    (led : store.follow none names = some place) (present : store.HasPlace place) :
    store.locate limits.maxStringLen (Path.join (names ++ [leaf])) = .ok (place, leaf) := by
  have isNames := fun name member => (free name member).1
  have split := Path.components_join isNames
  rw [locate_eq_ok_iff, Path.dropFinalSlash_join isNames]
  refine ⟨?_, names, split, ?_, led, present⟩
  · intro root
    have empty : Path.components (Path.join (names ++ [leaf])) = [] := by
      rw [root]
      decide +kernel
    rw [split] at empty
    simp at empty
  · exact Path.checkComponents_eq_ok_iff.mpr fun name member => (free name member).2

theorem Named.exists_place (named : store.Named limits)
    (found : store.resolve? kind names = some id) :
    ∃ place leaf, names.getLast? = some leaf ∧ store.binding? kind place leaf = some id ∧
      store.resolve? .file names = store.binding? .file place leaf ∧
      store.locate limits.maxStringLen (Path.join names) = .ok (place, leaf) := by
  have free := named.of_resolve? found
  obtain ⟨front, leaf, place, rfl, led, bound⟩ := exists_concat_of_resolve? found
  exact ⟨place, leaf, List.getLast?_concat, bound, resolve?_concat_of_follow led .file leaf,
    locate_join free led (hasPlace_of_binding? bound)⟩

theorem Named.dropFinalSlash_join (named : store.Named limits)
    (found : store.resolve? kind names = some id) :
    Path.dropFinalSlash (Path.join names) = Path.join names :=
  Path.dropFinalSlash_join fun name member => (named.of_resolve? found name member).1

theorem Named.dropFinalSlash_join_ne_root (named : store.Named limits)
    (found : store.resolve? kind names = some id) :
    Path.dropFinalSlash (Path.join names) ≠ "/" := by
  rw [named.dropFinalSlash_join found]
  intro root
  have split := Path.components_join fun name member => (named.of_resolve? found name member).1
  have empty : names = [] := by
    rw [← split, root]
    decide +kernel
  rw [empty, resolve?_nil] at found
  cases found

end Store

def Mutation.deletion : Kind → String → Mutation
  | .file, path => .deleteFile path
  | .dir, path => .deleteDir path

theorem Mutation.exists_deletion {store : Store} {limits : Limits} {kind : Kind}
    {path leaf : String} {place : Place} {id : Int} {reading : Option Int} (linked : store.Linked)
    (checked : limits.checkPath (Path.dropFinalSlash path) = .ok ())
    (located : store.locate limits.maxStringLen (Path.dropFinalSlash path) = .ok (place, leaf))
    (bound : store.binding? kind place leaf = some id) :
    ∃ effect, ((deletion kind path).apply limits reading store).result = .ok effect := by
  obtain ⟨index, present⟩ : ∃ index, store.index kind place = .ok index :=
    Store.hasPlace_iff.mp (Store.hasPlace_of_locate located)
  have recorded := linked.recorded bound
  rw [Store.binding?_of_index present] at bound
  have planned : store.planDelete limits kind path = .ok ⟨place, leaf, index, id⟩ :=
    Store.planDelete_eq_ok_iff.mpr ⟨⟨checked, located, present⟩, bound⟩
  cases kind with
  | file =>
    have deleted := DeletePlan.result_writeFile ⟨place, leaf, index, id⟩ recorded
    refine ⟨.removedFile id, map_eq_ok_iff.mpr ⟨id, ?_, rfl⟩⟩
    rw [Store.deleteFile_eq_after, Outcome.after_of_ok planned, deleted]
  | dir =>
    obtain ⟨removed, deleted⟩ :=
      DeletePlan.exists_writeDir ⟨place, leaf, index, id⟩ linked present recorded path
    refine ⟨.removedDir removed, map_eq_ok_iff.mpr ⟨removed, ?_, rfl⟩⟩
    rw [Store.deleteDir_eq_after, Outcome.after_of_ok planned, deleted]

theorem Mutation.deletion_of_refused {store : Store} {limits : Limits} {path : String}
    {fault : Fault} {reading : Option Int}
    (refused : limits.checkPath (Path.dropFinalSlash path) = .error fault) (kind : Kind) :
    ((deletion kind path).apply limits reading store).result = .error fault := by
  have unplanned : store.planDelete limits kind path = .error fault :=
    bind_eq_error_iff.mpr (Or.inl refused)
  cases kind with
  | file =>
    refine map_eq_error_iff.mpr ?_
    rw [Store.deleteFile_eq_after, Outcome.after_of_error unplanned, Outcome.failed]
  | dir =>
    refine map_eq_error_iff.mpr ?_
    rw [Store.deleteDir_eq_after, Outcome.after_of_error unplanned, Outcome.failed]

variable {σ : Type}

/-- The entry can be used by its path. A deletion commits, whatever a listener makes of it, and a
caller who may delete sees that unless the listener fails. -/
structure FileSystem.Addresses (fs : FileSystem σ) (world : World σ) (kind : Kind)
    (names : List String) (id : Int) : Prop where
  accepted : fs.limits.checkPath (Path.join names) = .ok ()
  isThere : world.lockFree = true → ∀ depth,
    fs.perform depth (.call (.pathExists (Path.join names))) world = (.ok (.flag true), world)
  shown : world.lockFree = true → kind = .file ∨ world.host.committed.resolve? .file names = none →
    ∃ leaf entry, names.getLast? = some leaf ∧
      world.host.committed.shown? kind leaf id = some entry ∧
      ∀ depth, fs.perform depth (.call (.query (.stat (Path.join names)))) world =
        (.ok (.reply (.listing entry)), world)
  deletable : ∃ effect, (fs.transact (.deletion kind (Path.join names)) world).1 = .ok effect ∧
    ∀ hearing caller, fs.listener = Option.map Listener.plain hearing → world.lockFree = true →
      fs.owner = none ∨ caller = fs.owner → ∀ depth,
      (fs.perform depth (.call (.mutate caller (.deletion kind (Path.join names)))) world).1 =
        (heard hearing (some (.deleted (Path.join names))) world.listener).1.bind fun _ => .ok .done

/-- The entry cannot be used by its path, which is too long for every check. -/
structure FileSystem.Refuses (fs : FileSystem σ) (world : World σ) (kind : Kind)
    (names : List String) (fault : Fault) : Prop where
  refused : fs.limits.checkPath (Path.join names) = .error fault
  notThere : world.lockFree = true → ∀ depth,
    fs.perform depth (.call (.pathExists (Path.join names))) world = (.ok (.flag false), world)
  hidden : world.lockFree = true → ∀ depth,
    fs.perform depth (.call (.query (.stat (Path.join names)))) world = (.error fault, world)
  kept : (fs.transact (.deletion kind (Path.join names)) world).1 = .error fault
  undeleted : world.lockFree = true → ∀ caller, fs.owner = none ∨ caller = fs.owner → ∀ depth,
    (fs.perform depth (.call (.mutate caller (.deletion kind (Path.join names)))) world).1 =
      .error fault

section Calls

variable {fs : FileSystem σ} {world : World σ} {path : String}

theorem FileSystem.perform_stat (lockFree : world.lockFree = true) (depth : Nat) :
    fs.perform depth (.call (.query (.stat path))) world =
      ((world.host.committed.stat fs.limits path).map fun entry => .reply (.listing entry),
        world) := by
  rw [perform_query rfl, read, if_pos lockFree, Query.run]
  cases world.host.committed.stat fs.limits path <;> rfl

theorem FileSystem.perform_pathExists (lockFree : world.lockFree = true)
    (notRoot : Path.dropFinalSlash path ≠ "/") (depth : Nat) :
    fs.perform depth (.call (.pathExists path)) world =
      (match world.host.committed.stat fs.limits path with
        | .ok _ => .ok (.flag true)
        | .error fault =>
          if fault.meansAbsent then .ok (.flag false) else .error fault, world) := by
  have answered : fs.probe path true (fun _ => true) world =
      match world.host.committed.stat fs.limits path with
        | .ok _ => .ok (.flag true)
        | .error fault => if fault.meansAbsent then .ok (.flag false) else .error fault := by
    cases found : world.host.committed.stat fs.limits path <;> simp [probe, read, notRoot,
      lockFree, found]
  cases depth <;> exact congrArg (·, world) answered

variable {kind : Kind} {caller : Option String}

theorem FileSystem.turnAway_deletion (lockFree : world.lockFree = true)
    (accepted : fs.owner = none ∨ caller = fs.owner) :
    fs.turnAway caller (.deletion kind path) world = .ok () := by
  refine turnAway_eq_ok_iff.mpr ⟨?_, lockFree, accepted⟩
  cases kind <;> rfl

theorem FileSystem.perform_deletion {hearing : Option (Hearing σ)}
    (plain : fs.listener = hearing.map Listener.plain) (lockFree : world.lockFree = true)
    (accepted : fs.owner = none ∨ caller = fs.owner) {effect : Effect}
    (done : (fs.transact (.deletion kind path) world).1 = .ok effect) (depth : Nat) :
    (fs.perform depth (.call (.mutate caller (.deletion kind path))) world).1 =
      (heard hearing (some (.deleted path)) world.listener).1.bind fun _ => .ok .done := by
  have nothing : effect.answer = .done := by
    have returned := Mutation.returns_answer ((fs.result_transact _ world).symm.trans done)
    generalize effect.answer = answer at returned ⊢
    cases kind <;> cases returned <;> rfl
  have told (committed : Store) :
      eventOf (.deletion kind path) committed (.ok effect) = .ok (some (.deleted path)) := by
    cases kind <;> rfl
  have ended : fs.transact (.deletion kind path) world =
      (.ok effect, (fs.transact (.deletion kind path) world).2) := Prod.ext done rfl
  have answered (nested : Step → World σ → Except Fault Answer × World σ) :
      (fs.mutate nested caller (.deletion kind path) world).1 =
        (heard hearing (some (.deleted path)) world.listener).1.bind fun _ => .ok .done := by
    rw [mutate_plain plain (turnAway_deletion lockFree accepted) ended (told _),
      Except.map, nothing]
    rfl
  cases depth <;> exact answered _

theorem FileSystem.perform_failed_deletion (lockFree : world.lockFree = true)
    (accepted : fs.owner = none ∨ caller = fs.owner) {fault : Fault}
    (failed : (fs.transact (.deletion kind path) world).1 = .error fault) (depth : Nat) :
    (fs.perform depth (.call (.mutate caller (.deletion kind path))) world).1 = .error fault := by
  have silent : (Mutation.deletion kind path).collision? fault = none := by
    cases kind <;> rfl
  have answered (nested : Step → World σ → Except Fault Answer × World σ) :
      (fs.mutate nested caller (.deletion kind path) world).1 = .error fault := by
    unfold mutate announce
    simp only [turnAway_deletion lockFree accepted, failed, silent]
    cases fs.listener <;> rfl
  cases depth <;> exact answered _

end Calls

section Entries

variable {fs : FileSystem σ} {world : World σ} {kind : Kind} {names : List String} {id : Int}

theorem FileSystem.addresses_of_le (sound : world.host.committed.Sound)
    (copied : world.host.committed.clone = world.host.committed)
    (named : world.host.committed.Named fs.limits)
    (found : world.host.committed.resolve? kind names = some id)
    (fits : (Path.byteLength (Path.join names) : Int) ≤ fs.limits.pathLen) :
    fs.Addresses world kind names id := by
  have trimmed := named.dropFinalSlash_join found
  obtain ⟨place, leaf, isLast, bound, fileThere, located⟩ := named.exists_place found
  have accepted : fs.limits.checkPath (Path.join names) = .ok () := by
    have notLong : ¬ fs.limits.pathLen < Path.byteLength (Path.join names) := by omega
    rw [Limits.checkPath, Path.check_join _ fun name member =>
      (named.of_resolve? found name member).1,
      if_neg notLong]
  have checked := (congrArg fs.limits.checkPath trimmed).trans accepted
  rw [← trimmed] at located
  refine ⟨accepted, ?_, ?_, ?_⟩
  · intro lockFree depth
    obtain ⟨entry, shown⟩ := Store.exists_stat_of_located sound.toLinked checked located bound
    rw [perform_pathExists lockFree (named.dropFinalSlash_join_ne_root found), shown]
  · intro lockFree unhidden
    obtain ⟨entry, listed⟩ := Store.exists_listing (sound.recorded bound) leaf
    rw [fileThere] at unhidden
    have shown := (Store.stat_of_unhidden checked located bound unhidden).trans listed
    refine ⟨leaf, entry, isLast, Store.listing_eq_ok_iff.mp listed, fun depth => ?_⟩
    rw [perform_stat lockFree, shown]
    rfl
  · obtain ⟨effect, deleted⟩ : ∃ effect, ((Mutation.deletion kind (Path.join names)).apply fs.limits
        (fs.clock world.ticks) world.host.committed).result = .ok effect :=
      Mutation.exists_deletion sound.toLinked checked located bound
    have done : (fs.transact (.deletion kind (Path.join names)) world).1 = .ok effect := by
      rw [fs.result_transact, copied, deleted]
    refine ⟨effect, done, ?_⟩
    intro hearing caller plain lockFree accepted depth
    exact perform_deletion plain lockFree accepted done depth

theorem FileSystem.refuses_of_lt (named : world.host.committed.Named fs.limits)
    (found : world.host.committed.resolve? kind names = some id)
    (long : fs.limits.pathLen < Path.byteLength (Path.join names)) :
    fs.Refuses world kind names
      (.malformedPath (Path.join names) (.longerThan fs.limits.pathLen)) := by
  have refused : fs.limits.checkPath (Path.join names) =
      .error (.malformedPath (Path.join names) (.longerThan fs.limits.pathLen)) := by
    rw [Limits.checkPath, Path.check_join _ fun name member =>
      (named.of_resolve? found name member).1,
      if_pos long]
  have trimmedRefused :=
    (congrArg fs.limits.checkPath (named.dropFinalSlash_join found)).trans refused
  have stat : world.host.committed.stat fs.limits (Path.join names) =
      .error (.malformedPath (Path.join names) (.longerThan fs.limits.pathLen)) :=
    bind_eq_error_iff.mpr (Or.inl trimmedRefused)
  have kept := (fs.result_transact _ world).trans (Mutation.deletion_of_refused trimmedRefused kind)
  refine ⟨refused, ?_, ?_, kept, ?_⟩
  · intro lockFree depth
    rw [perform_pathExists lockFree (named.dropFinalSlash_join_ne_root found), stat]
    rfl
  · intro lockFree depth
    rw [perform_stat lockFree, stat]
    rfl
  · intro lockFree caller accepted depth
    exact perform_failed_deletion lockFree accepted kept depth

end Entries

section Worlds

variable {fs : FileSystem σ} {world : World σ}

theorem FileSystem.Reachable.named (reachable : fs.Reachable world) (stepsOnly : fs.StepsOnly) :
    world.host.committed.Named fs.limits :=
  reachable.of_sound stepsOnly
    (fun m _ _ _ sound _ named done => (m.does sound.toIntact done).named named)
      (Store.named_empty fs.capacity fs.limits)

theorem FileSystem.within_transact_iff (sound : world.host.committed.Sound)
    (copied : world.host.committed.clone = world.host.committed)
    (within : world.host.committed.Within fs.limits) {m : Mutation} {effect : Effect}
    (done : (fs.transact m world).1 = .ok effect) :
    (fs.transact m world).2.host.committed.Within fs.limits ↔
      m.Fits fs.limits world.host.committed := by
  rcases fs.committed_transact m world with ⟨-, fault, failed⟩ | ⟨effect', -, applied, committed⟩
  · rw [failed] at done
    cases done
  · rw [copied] at applied committed
    rw [committed]
    exact (m.does sound.toIntact applied).within_iff_fits sound within

theorem Mutation.fits_of_label {m : Mutation} (other : m.label ≠ "rename_dir") (limits : Limits)
    (store : Store) : m.Fits limits store := by
  cases m with
  | rename kind source target =>
    cases kind with
    | file => trivial
    | dir => exact absurd rfl other
  | _ => trivial

theorem FileSystem.Reachable.within (reachable : fs.Reachable world) (stepsOnly : fs.StepsOnly)
    (unrenamed : ∀ transaction ∈ world.host.journal, transaction.state = .committed →
      transaction.label ≠ "rename_dir") : world.host.committed.Within fs.limits := by
  have keeps : fs.Keeps fun world =>
      (world.host.committed.Sound ∧ world.host.committed.Uniform fs.capacity) ∧
      ((∀ transaction ∈ world.host.journal, transaction.state = .committed →
          transaction.label ≠ "rename_dir") →
        world.host.committed.Within fs.limits) :=
    { listen := fun _ before => before
      lock := fun _ before => before
      log := fun _ before => before
      transact := by
        intro world caller m kept admitted
        rcases kept with ⟨⟨sound, uniform⟩, within⟩
        refine ⟨fs.keeps_sound.transact caller m ⟨sound, uniform⟩ admitted, fun unrenamed => ?_⟩
        rw [journal_transact] at unrenamed
        have before := within fun transaction member =>
          unrenamed transaction (List.mem_append_left _ member)
        rcases fs.committed_transact m world with ⟨same, -⟩ | ⟨effect, done, -, -⟩
        · rw [same]
          exact before
        · have other := unrenamed _ (List.mem_append_right _ List.mem_cons_self) (by rw [done]; rfl)
          exact (within_transact_iff sound uniform.clone before done).mpr
            (m.fits_of_label other _ _) }
  exact (reachable.of_keeps keeps stepsOnly fun _ =>
    ⟨⟨Store.sound_empty fs.capacity, Store.uniform_empty fs.capacity⟩,
      fun _ => Store.within_empty fs.capacity fs.limits⟩).2 unrenamed

end Worlds

/-- Entries are used by their paths exactly as long as these fit the limit, and only the renaming of
a directory with something in it that does not fit can end that. -/
theorem entries_addressed_by_fitting_paths (fs : FileSystem σ) (stepsOnly : fs.StepsOnly)
    (world : World σ) (reachable : fs.Reachable world) :
    (∀ kind names id, world.host.committed.resolve? kind names = some id →
        ((Path.byteLength (Path.join names) : Int) ≤ fs.limits.pathLen ∧
          fs.Addresses world kind names id) ∨
          (fs.limits.pathLen < Path.byteLength (Path.join names) ∧ fs.Refuses world kind names
            (.malformedPath (Path.join names) (.longerThan fs.limits.pathLen)))) ∧
      (∀ m effect, (fs.transact m world).1 = .ok effect → world.host.committed.Within fs.limits →
        ((fs.transact m world).2.host.committed.Within fs.limits ↔
          m.Fits fs.limits world.host.committed)) ∧
      ((∀ transaction ∈ world.host.journal, transaction.state = .committed →
          transaction.label ≠ "rename_dir") →
        world.host.committed.Within fs.limits) := by
  have sound := reachable.sound stepsOnly
  have copied := reachable.clone stepsOnly
  have named := reachable.named stepsOnly
  refine ⟨?_, ?_, reachable.within stepsOnly⟩
  · intro kind names id found
    by_cases fits : (Path.byteLength (Path.join names) : Int) ≤ fs.limits.pathLen
    · exact Or.inl ⟨fits, FileSystem.addresses_of_le sound copied named found fits⟩
    · have long : fs.limits.pathLen < Path.byteLength (Path.join names) := by omega
      exact Or.inr ⟨long, FileSystem.refuses_of_lt named found long⟩
  · intro m effect done within
    exact FileSystem.within_transact_iff sound copied within done

/-- A file system without an owner whose paths have at most eight bytes. -/
def FileSystem.cramped : FileSystem Notebook where
  owner := none
  capacity := some 4
  limits := ⟨64, 5, some 8, by decide, by decide, by simp⟩
  capacity_nonneg := by simp
  clock := .stopped 7
  listener := none

theorem FileSystem.stepsOnly_cramped : cramped.StepsOnly := by
  intro listener present
  cases present

def FileSystem.crampedWorld : World Notebook :=
  (cramped.run 0
    [.call (.mutate none (.createDir "/d" (.items []))),
      .call (.mutate none (.createFile "/d/f" ⟨.items [], .int 1, "", .int 0, false⟩))]
    (cramped.start ⟨[], 0⟩)).2

theorem FileSystem.reachable_crampedWorld : cramped.Reachable crampedWorld :=
  cramped.reachable_run 0 _ _

def FileSystem.crampedRename : Step := .call (.mutate none (.rename .dir "/d" "/longer"))

theorem file_in_renamed_dir_not_addressed :
    let renamed := FileSystem.cramped.perform 0 FileSystem.crampedRename FileSystem.crampedWorld
    let after := renamed.2
    let path := Path.join ["longer", "f"]
    FileSystem.cramped.Reachable after ∧ renamed.1 = .ok .done ∧
      after.host.committed.resolve? .file ["longer", "f"] = some 2 ∧ path = "/longer/f" ∧
      FileSystem.cramped.limits.pathLen < Path.byteLength path ∧
      (FileSystem.cramped.perform 0 (.call (.pathExists path)) after).1 = .ok (.flag false) ∧
      (FileSystem.cramped.perform 0 (.call (.query (.stat path))) after).1 =
        .error (.malformedPath path (.longerThan 8)) ∧
      (FileSystem.cramped.perform 0 (.call (.mutate none (.deleteFile path))) after).1 =
        .error (.malformedPath path (.longerThan 8)) := by
  intro renamed after path
  refine ⟨FileSystem.reachable_crampedWorld.perform 0 _, ?_, ?_, ?_, ?_, ?_, ?_,
    ?_⟩ <;> decide +kernel

theorem entries_addressed_until_renamed :
    FileSystem.cramped.StepsOnly ∧ FileSystem.cramped.Reachable FileSystem.crampedWorld ∧
      FileSystem.cramped.Addresses FileSystem.crampedWorld .file ["d", "f"] 2 ∧
      FileSystem.crampedWorld.host.committed.Within FileSystem.cramped.limits ∧
      ¬ (FileSystem.cramped.transact (.rename .dir "/d" "/longer")
        FileSystem.crampedWorld).2.host.committed.Within
        FileSystem.cramped.limits := by
  obtain ⟨addressed, renamed, within⟩ := entries_addressed_by_fitting_paths FileSystem.cramped
    FileSystem.stepsOnly_cramped FileSystem.crampedWorld FileSystem.reachable_crampedWorld
  have unrenamed : FileSystem.crampedWorld.host.committed.Within FileSystem.cramped.limits := by
    refine within ?_
    decide +kernel
  refine ⟨FileSystem.stepsOnly_cramped, FileSystem.reachable_crampedWorld, ?_, unrenamed, ?_⟩
  · rcases addressed .file ["d", "f"] 2 (by decide +kernel) with ⟨-, here⟩ | ⟨long, -⟩
    · exact here
    · exact absurd long (by decide +kernel)
  · intro after
    have fits := (renamed _ .done (by decide +kernel) unrenamed).mp after
    have bounded := fits .file ["f"] 2 (by simp) (by decide +kernel)
    exact absurd bounded (by decide +kernel)

end NameTree
