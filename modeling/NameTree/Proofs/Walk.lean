import NameTree.Proofs.Addressable
import NameTree.Proofs.Preorder

/-!
The walk shows the directories of a subtree in preorder, and as many directories and files as the
export and the statistics count. It looks each directory up by its path, which is the start path
with names appended.
-/

namespace NameTree

namespace Store

/-- What is shown of a stop on the way from the directory with the path `front`. -/
def visit (store : Store) (front : List String) (stop : List String × Place) : Visit :=
  ⟨Path.join (front ++ stop.1), store.names .dir stop.2, store.names .file stop.2⟩

/-- The loop over pending paths: the first one is looked up and shown, and the paths of its
subdirectories are put in its place. -/
inductive Rounds (store : Store) (maxLen : Int) : List String → List Visit → Prop where
  | finished : Rounds store maxLen [] []
  | visit {path : String} {files dirs : Index} {pending : List String} {shown : List Visit}
    (found : store.children maxLen (Path.addFinalSlash path) = .ok (files, dirs))
    (later : Rounds store maxLen (dirs.names.map (Path.child path) ++ pending) shown) :
    Rounds store maxLen (path :: pending) (⟨path, dirs.names, files.names⟩ :: shown)

variable {store : Store} {limits : Limits} {front : List String} {place : Place} {path : String}

section Rounds

variable {maxLen : Int} {pending : List String} {rest : List Visit}

theorem Rounds.before {paths : List String} {walks : List (List Visit)}
    (each : List.Forall₂ (fun path shown => ∀ pending rest, store.Rounds maxLen pending rest →
      store.Rounds maxLen (path :: pending) (shown ++ rest)) paths walks)
    (later : store.Rounds maxLen pending rest) :
    store.Rounds maxLen (paths ++ pending) (walks.flatten ++ rest) := by
  induction each with
  | nil => exact later
  | cons here _ further =>
    rw [List.cons_append, List.flatten_cons, List.append_assoc]
    exact here _ _ further

theorem Rounds.of_visits {depth : Nat} {shown : List Visit}
    (done : store.visits maxLen depth path = .ok shown) (later : store.Rounds maxLen pending rest) :
    store.Rounds maxLen (path :: pending) (shown ++ rest) := by
  induction depth generalizing path shown pending rest with
  | zero => cases done
  | succ depth ih =>
    obtain ⟨⟨files, dirs⟩, found, continued⟩ := bind_eq_ok_iff.mp done
    obtain ⟨below, computed, same⟩ := bind_eq_ok_iff.mp continued
    cases same
    refine .visit found (.before ?_ later)
    rw [List.forall₂_map_left_iff]
    exact (mapM_eq_ok_iff.mp computed).imp fun name walk done _ _ later => ih done later

end Rounds

section Visits

theorem map_visit_tour (store : Store) (depth : Nat) (front : List String) (place : Place) :
    (store.tour (depth + 1) place).map (store.visit front) =
      ⟨Path.join front, store.names .dir place, store.names .file place⟩ ::
        (store.links .dir place).flatMap fun link =>
          (store.tour depth (some link.2)).map (store.visit (front ++ [link.1])) := by
  have here : store.visit front ([], place) =
      ⟨Path.join front, store.names .dir place, store.names .file place⟩ := by
    rw [visit, List.append_nil]
  have onward (name : String) (way : List String) (reached : Place) :
      store.visit front (name :: way, reached) = store.visit (front ++ [name]) (way, reached) := by
    simp only [visit, List.append_assoc, List.singleton_append]
  simp only [tour, List.map_cons, List.map_flatMap, List.map_map, Function.comp_def, here, onward]

variable (linked : store.Linked) (named : store.Named limits)
include linked named

theorem Linked.children_join (led : store.follow none front = some place) :
    ∃ files dirs, store.children limits.maxStringLen (Path.addFinalSlash (Path.join front)) =
      .ok (files, dirs) ∧
      store.index .file place = .ok files ∧ store.index .dir place = .ok dirs := by
  have free := named.of_follow led
  have present := linked.hasPlace_of_follow led
  obtain ⟨files, files_at⟩ : ∃ files, store.index .file place = .ok files := hasPlace_iff.mp present
  obtain ⟨dirs, dirs_at⟩ : ∃ dirs, store.index .dir place = .ok dirs := hasPlace_iff.mp present
  have split : Path.components (Path.addFinalSlash (Path.join front)) = front := by
    rw [Path.components_addFinalSlash, Path.components_join fun name member => (free name member).1]
  have asked : Path.addFinalSlash (Path.join front) = "/" ∨ front ≠ [] := by
    by_cases empty : front = []
    · subst empty
      exact Or.inl (by decide +kernel)
    · exact Or.inr empty
  refine ⟨files, dirs, children_eq_ok_iff.mpr ?_, files_at, dirs_at⟩
  rw [split]
  exact ⟨asked, Path.checkComponents_eq_ok_iff.mpr fun name member =>
    (free name member).2, place, led,
    files_at, dirs_at⟩

theorem Linked.visits_join {depth : Nat} (led : store.follow none front = some place)
    (deep : store.dirs.size < front.length + depth) :
    store.visits limits.maxStringLen depth (Path.join front) =
      .ok ((store.tour depth place).map (store.visit front)) := by
  induction depth generalizing front place with
  | zero =>
    have bounded := linked.length_le_size led
    omega
  | succ depth ih =>
    obtain ⟨files, dirs, found, files_at, dirs_at⟩ := linked.children_join named led
    have free := named.of_follow led
    have below : dirs.names.mapM (fun name => store.visits limits.maxStringLen depth
        (Path.child (Path.join front) name)) = .ok (dirs.toList.map fun link =>
          (store.tour depth (some link.2)).map (store.visit (front ++ [link.1]))) := by
      rw [Index.names_eq_map_toList]
      refine mapM_map_eq_ok fun link member => ?_
      have bound : store.binding? .dir place link.1 = some link.2 := by
        rw [← mem_links_iff, links_of_index dirs_at]
        exact member
      have further : store.follow none (front ++ [link.1]) = some (some link.2) :=
        follow_concat_eq_some_iff.mpr ⟨place, link.2, led, bound, rfl⟩
      rw [Path.child_join fun name member => (free name member).1]
      exact ih further (by rw [List.length_append, List.length_singleton]; omega)
    rw [map_visit_tour, links_of_index dirs_at, names_of_index dirs_at, names_of_index files_at,
      visits, found]
    simp only [bind, Except.bind, below]
    rfl

end Visits

section Refused

variable {fault : Fault}

theorem listDir_of_refused (refused : limits.checkPath (Path.addFinalSlash path) = .error fault) :
    store.listDir limits path = .error fault :=
  bind_eq_error_iff.mpr (Or.inl refused)

theorem walk_of_refused (nonempty : Path.dropFinalSlash path ≠ "")
    (refused : limits.checkPath (Path.addFinalSlash (Path.dropFinalSlash path)) = .error fault) :
    store.walk limits path = .error fault := by
  unfold walk
  simp only [if_neg nonempty, listDir_of_refused refused, bind, Except.bind]

end Refused

section Listed

variable {entries : List Listing} (listed : store.listDir limits path = .ok entries)
include listed

theorem check_of_listDir : limits.checkPath (Path.addFinalSlash path) = .ok () := by
  obtain ⟨_, checked, -⟩ := bind_eq_ok_iff.mp listed
  exact checked

theorem follow_of_listDir :
    Path.checkComponents limits.maxStringLen (Path.components path) = .ok () ∧
    ∃ place, store.follow none (Path.components path) = some place := by
  obtain ⟨_, -, continued⟩ := bind_eq_ok_iff.mp listed
  obtain ⟨⟨files, dirs⟩, found, -⟩ := bind_eq_ok_iff.mp continued
  obtain ⟨-, checked, place, led, -⟩ := children_eq_ok_iff.mp found
  rw [Path.components_addFinalSlash] at checked led
  exact ⟨checked, place, led⟩

theorem walk_of_listDir : store.walk limits path =
    store.visits limits.maxStringLen (store.dirs.size + 2) (Path.join (Path.components path)) := by
  have accepted := check_of_listDir listed
  have again : store.listDir limits (Path.join (Path.components path)) = .ok entries := by
    rw [listDir, Path.addFinalSlash_join_components accepted]
    exact listed
  unfold walk
  simp only [Path.start_eq_join accepted, again, bind, Except.bind]

theorem target_of_listDir (notRoot : Path.components path ≠ []) :
    ∃ place leaf index id, Destination store limits .dir
      (Path.dropFinalSlash path) place leaf index ∧
      index.get? leaf = some id ∧ store.follow none (Path.components path) = some (some id) := by
  obtain ⟨short, reached, led⟩ := follow_of_listDir listed
  have checked : limits.checkPath (Path.dropFinalSlash path) = .ok () :=
    Path.check_dropFinalSlash (check_of_listDir listed) notRoot
  obtain ⟨front, leaf, split⟩ :=
    (List.eq_nil_or_concat' (Path.components path)).resolve_left notRoot
  have parted : Path.components (Path.dropFinalSlash path) = front ++ [leaf] := by
    rw [Path.components_dropFinalSlash, split]
  obtain ⟨place, id, ledFront, bound, rfl⟩ := follow_concat_eq_some_iff.mp (split ▸ led)
  obtain ⟨index, present⟩ : ∃ index, store.index .dir place = .ok index :=
    hasPlace_iff.mp (hasPlace_of_binding? bound)
  have target := Destination.of_follow checked parted (split ▸ short) ledFront present
  exact ⟨place, leaf, index, id, target, (target.binding? leaf).symm.trans bound, led⟩

variable (linked : store.Linked) (named : store.Named limits)
include linked named

theorem Linked.exists_walk : ∃ place stops, store.follow none (Path.components path) = some place ∧
    store.Preorder place stops ∧
    store.walk limits path = .ok (stops.map (store.visit (Path.components path))) ∧
    store.Rounds limits.maxStringLen [Path.join (Path.components path)]
      (stops.map (store.visit (Path.components path))) := by
  obtain ⟨-, place, led⟩ := follow_of_listDir listed
  have deep : store.dirs.size < (Path.components path).length + (store.dirs.size + 2) := by omega
  have shown := linked.visits_join named led deep
  have rounds := Rounds.of_visits shown .finished
  rw [List.append_nil] at rounds
  have preorder := linked.preorder_tour led fun way reached ledOn => by
    have whole : store.follow none (Path.components path ++ way) = some reached := by
      rw [follow_append, led, Option.bind_some, ledOn]
    have bounded := linked.length_le_size whole
    rw [List.length_append] at bounded
    exact show way.length < store.dirs.size + 2 by omega
  exact ⟨place, _, led, preorder, (walk_of_listDir listed).trans shown, rounds⟩

end Listed

section Counts

variable {stops : List (List String × Place)}

theorem sum_fileNames_visit (store : Store) (front : List String)
    (stops : List (List String × Place)) :
    ((stops.map (store.visit front)).map fun visit => visit.fileNames.length).sum =
      (stops.map fun stop => (store.names .file stop.2).length).sum := by
  rw [List.map_map]
  rfl

theorem Preorder.counts_export {top : Int} {content : Export} (linked : store.Linked)
    (preorder : store.Preorder (some top) stops) (exported : store.Exports top content) :
    stops.length = content.dirs.length ∧
      (stops.map fun stop => (store.names .file stop.2).length).sum = content.files.length := by
  have distinct : ((content.dirs.map DirExport.id).map some).Nodup :=
    exported.dirsAscend.nodup.map (Option.some_injective Int)
  have dirs_iff (reached : Place) : reached ∈ (content.dirs.map DirExport.id).map some ↔
      ∃ way, store.follow (some top) way = some reached := by
    rw [List.mem_map]
    constructor
    · rintro ⟨id, member, rfl⟩
      exact under_iff_follow.mp ((exported.dirs_iff id).mp member)
    · rintro ⟨way, led⟩
      obtain ⟨id, rfl⟩ := exists_dir_of_follow led
      exact ⟨id, (exported.dirs_iff id).mpr (under_iff_follow.mpr ⟨way, led⟩), rfl⟩
  have files_iff (id : Int) : id ∈ content.files.map FileExport.id ↔ ∃ way reached name,
      store.follow (some top) way = some reached ∧ store.binding? .file reached name = some id := by
    rw [exported.files_iff]
    constructor
    · rintro ⟨parent, name, under, bound⟩
      obtain ⟨way, led⟩ := under_iff_follow.mp under
      exact ⟨way, some parent, name, led, bound⟩
    · rintro ⟨way, reached, name, led, bound⟩
      obtain ⟨parent, rfl⟩ := exists_dir_of_follow led
      exact ⟨parent, name, under_iff_follow.mpr ⟨way, led⟩, bound⟩
  constructor
  · calc
      stops.length = ((content.dirs.map DirExport.id).map some).length :=
        preorder.length_eq distinct dirs_iff
      _ = content.dirs.length := by rw [List.length_map, List.length_map]
  · calc
      (stops.map fun stop => (store.names .file stop.2).length).sum =
        (content.files.map FileExport.id).length :=
        preorder.sum_files_eq linked exported.filesAscend.nodup files_iff
      _ = content.files.length := List.length_map _

theorem Preorder.counts_stats (intact : store.Intact) (preorder : store.Preorder none stops) :
    stops.length = store.stats.dirCount + 1 ∧
      (stops.map fun stop => (store.names .file stop.2).length).sum = store.stats.fileCount := by
  have distinct : (none :: (store.ids .dir).map some).Nodup := by
    rw [List.nodup_cons]
    exact ⟨by simp, (store.nodup_ids .dir).map (Option.some_injective Int)⟩
  have places_iff (reached : Place) : reached ∈ none :: (store.ids .dir).map some ↔
      ∃ way, store.follow none way = some reached := by
    have listed : reached ∈ none :: (store.ids .dir).map some ↔ store.HasPlace reached := by
      cases reached <;> simp [HasPlace]
    rw [listed]
    constructor
    · exact intact.exists_follow
    · rintro ⟨way, led⟩
      exact intact.toLinked.hasPlace_of_follow led
  have files_iff (id : Int) : id ∈ store.ids .file ↔ ∃ way reached name,
      store.follow none way = some reached ∧ store.binding? .file reached name = some id := by
    constructor
    · intro member
      obtain ⟨place, name, bound⟩ := intact.bound member
      obtain ⟨way, led⟩ := intact.exists_follow (hasPlace_of_binding? bound)
      exact ⟨way, place, name, led, bound⟩
    · rintro ⟨_, _, _, -, bound⟩
      exact intact.recorded bound
  constructor
  · calc
      stops.length = (none :: (store.ids .dir).map some).length :=
        preorder.length_eq distinct places_iff
      _ = (store.ids .dir).length + 1 := by rw [List.length_cons, List.length_map]
      _ = store.stats.dirCount + 1 := congrArg (· + 1) (store.count_eq_length_ids .dir).symm
  · calc
      (stops.map fun stop => (store.names .file stop.2).length).sum = (store.ids .file).length :=
        preorder.sum_files_eq intact.toLinked (store.nodup_ids .file) files_iff
      _ = store.stats.fileCount := (store.count_eq_length_ids .file).symm

end Counts

end Store

variable {σ : Type}

/-- What can be listed can be walked. The walk shows the subtree in preorder, as the loop over
pending paths does, and it agrees with the export of the subtree and, for the whole tree, with
the statistics. -/
theorem walk_is_preorder (fs : FileSystem σ) (stepsOnly : fs.StepsOnly) (world : World σ)
    (reachable : fs.Reachable world) (depth : Nat) (path : String) (entries : List Listing)
    (listed : (fs.perform depth (.call (.query (.listDir path))) world).1 =
      .ok (.reply (.listings entries))) :
    let store := world.host.committed
    let front := Path.components path
    let trimmed := Path.dropFinalSlash path
    ∃ place stops visits, store.follow none front = some place ∧ store.Preorder place stops ∧
      visits = stops.map (store.visit front) ∧
      fs.perform depth (.call (.query (.walk path))) world =
        (.ok (.reply (.visits visits)), world) ∧
      store.Rounds fs.limits.maxStringLen [if trimmed = "" then "/" else trimmed] visits ∧
      (if trimmed = "" then "/" else trimmed) = Path.join front ∧
      (∀ visit ∈ visits, visit.dirNames.Nodup ∧ visit.fileNames.Nodup) ∧
      (front ≠ [] → ∃ content,
        fs.perform depth (.call (.query (.exportDir path))) world =
          (.ok (.reply (.subtree content)), world) ∧
          visits.length = content.dirs.length ∧
          (visits.map fun visit => visit.fileNames.length).sum = content.files.length) ∧
      (front = [] → ∃ stats,
        fs.perform depth (.call (.query .stats)) world = (.ok (.reply (.stats stats)), world) ∧
          visits.length = stats.dirCount + 1 ∧
          (visits.map fun visit => visit.fileNames.length).sum = stats.fileCount) := by
  intro store front trimmed
  have sound := reachable.sound stepsOnly
  obtain ⟨lockFree, ran⟩ := FileSystem.run_of_perform_query rfl listed
  obtain ⟨_, found, same⟩ := map_eq_ok_iff.mp ran
  cases same
  have start : (if trimmed = "" then "/" else trimmed) = Path.join front :=
    Path.start_eq_join (Store.check_of_listDir found)
  obtain ⟨place, stops, led, preorder, walked, rounds⟩ :=
    Store.Linked.exists_walk found sound.toLinked (reachable.named stepsOnly)
  refine ⟨place, stops, stops.map (store.visit front), led, preorder, rfl, ?_, start ▸ rounds,
    start, ?_, ?_, ?_⟩
  · exact FileSystem.perform_query_of_run rfl lockFree (map_eq_ok_iff.mpr ⟨_, walked, rfl⟩)
  · intro visit member
    obtain ⟨stop, -, rfl⟩ := List.mem_map.mp member
    exact ⟨store.nodup_names .dir stop.2, store.nodup_names .file stop.2⟩
  · intro notRoot
    obtain ⟨parent, leaf, index, id, target, bound, ledDir⟩ := Store.target_of_listDir found notRoot
    obtain ⟨content, exported, holds⟩ := sound.toLinked.exists_exportDir target bound
    cases led.symm.trans ledDir
    have ran : (Query.exportDir path).run fs.limits store = .ok (.subtree content) :=
      congrArg (Except.map Reply.subtree) exported
    rw [List.length_map, store.sum_fileNames_visit]
    exact ⟨content, FileSystem.perform_query_of_run rfl lockFree ran,
      preorder.counts_export sound.toLinked holds⟩
  · intro root
    have here : store.follow none [] = some place := root ▸ led
    cases here
    rw [List.length_map, store.sum_fileNames_visit]
    exact ⟨store.stats, FileSystem.perform_query_of_run rfl lockFree rfl,
      preorder.counts_stats sound.toIntact⟩

theorem walk_is_preorder_populated :
    let store := FileSystem.populated.host.committed
    let listed : List Listing := [⟨"e", 7, true, [], 0, "", 0⟩, ⟨"f", 7, false, [], 1, "", 0⟩]
    let visits : List Visit := [⟨"/d", ["e"], ["f"]⟩, ⟨"/d/e", [], ["g"]⟩]
    FileSystem.roomy.StepsOnly ∧ FileSystem.roomy.Reachable FileSystem.populated ∧
      (FileSystem.roomy.perform 0 (.call (.query (.listDir "/d/"))) FileSystem.populated).1 =
        .ok (.reply (.listings listed)) ∧
      (∃ stops, store.Preorder (some 1) stops ∧ visits = stops.map (store.visit ["d"])) ∧
      FileSystem.roomy.perform 0 (.call (.query (.walk "/d/"))) FileSystem.populated =
        (.ok (.reply (.visits visits)), FileSystem.populated) := by
  intro store listed visits
  have here :
      (FileSystem.roomy.perform 0 (.call (.query (.listDir "/d/"))) FileSystem.populated).1 =
      .ok (.reply (.listings listed)) := by
    decide +kernel
  obtain ⟨place, stops, shown, led, preorder, same, walked, -⟩ := walk_is_preorder FileSystem.roomy
    FileSystem.stepsOnly_roomy FileSystem.populated FileSystem.reachable_populated 0
      "/d/" listed here
  have ledThere : store.follow none (Path.components "/d/") = some (some 1) := by decide +kernel
  have walkedThere :
      (FileSystem.roomy.perform 0 (.call (.query (.walk "/d/"))) FileSystem.populated).1 =
      .ok (.reply (.visits visits)) := by
    decide +kernel
  have split : Path.components "/d/" = ["d"] := by decide +kernel
  cases led.symm.trans ledThere
  rw [walked] at walkedThere
  cases walkedThere
  rw [split] at same
  exact ⟨FileSystem.stepsOnly_roomy, FileSystem.reachable_populated, here,
    ⟨stops, preorder, same⟩, walked⟩

end NameTree
