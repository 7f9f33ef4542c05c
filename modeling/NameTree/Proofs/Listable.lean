import NameTree.Proofs.Addressable
import NameTree.Proofs.Walk

/-!
Which directories can be listed and walked by their paths. Both calls check the path with a final
slash, the calls about one entry without. So a directory other than the root whose path has the
greatest length there may be is there for these, but not for those.
-/

namespace NameTree

namespace Store

variable {store : Store} {limits : Limits} {path : String} {front : List String} {place : Place}
  {entry : Listing}

section Listings

variable {kind : Kind} {name : String} {id : Int}

theorem of_listing (shown : store.listing kind name id = .ok entry) :
    entry.name = name ∧ (entry.isDir = true ↔ kind = .dir) := by
  cases kind <;> obtain ⟨record, -, rfl⟩ := map_eq_ok_iff.mp shown <;>
    simp [FileRecord.listing, DirRecord.listing]

theorem Linked.exists_listings (linked : store.Linked) {index : Index}
    (present : store.index kind place = .ok index) :
    ∃ entries, store.listings kind index = .ok entries ∧
      entries.map Listing.name = store.names kind place := by
  rw [names_of_index present, Index.names_eq_map_toList]
  refine exists_mapM fun binding member => ?_
  have bound : store.binding? kind place binding.1 = some binding.2 := by
    rw [← mem_links_iff, links_of_index present]
    exact member
  obtain ⟨entry, shown⟩ := exists_listing (linked.recorded bound) binding.1
  exact ⟨entry, shown, (of_listing shown).1⟩

end Listings

section Enumerated

variable (linked : store.Linked) (named : store.Named limits)
  (led : store.follow none front = some place)
  (accepted : limits.checkPath (Path.addFinalSlash (Path.join front)) = .ok ())
include linked named led accepted

theorem Linked.exists_listDir : ∃ entries, store.listDir limits (Path.join front) = .ok entries ∧
    entries.map Listing.name = store.names .dir place ++ store.names .file place := by
  obtain ⟨files, dirs, found, files_at, dirs_at⟩ := linked.children_join named led
  obtain ⟨dirEntries, dirsListed, dirNames⟩ := linked.exists_listings dirs_at
  obtain ⟨fileEntries, filesListed, fileNames⟩ := linked.exists_listings files_at
  refine ⟨dirEntries ++ fileEntries, ?_, ?_⟩
  · unfold listDir
    simp only [accepted, found, dirsListed, filesListed, bind, Except.bind]
    rfl
  · rw [List.map_append, dirNames, fileNames]

theorem Linked.exists_walk_join : ∃ later, store.walk limits (Path.join front) =
    .ok (⟨Path.join front, store.names .dir place, store.names .file place⟩ :: later) := by
  obtain ⟨entries, listed, -⟩ := linked.exists_listDir named led accepted
  have split := Path.components_join fun name member => (named.of_follow led name member).1
  have deep : store.dirs.size < front.length + (store.dirs.size + 2) := by omega
  rw [walk_of_listDir listed, split, linked.visits_join named led deep, map_visit_tour]
  exact ⟨_, rfl⟩

end Enumerated

theorem dir_of_stat (shown : store.stat limits path = .ok entry) (isDir : entry.isDir = true) :
    limits.checkPath (Path.dropFinalSlash path) = .ok () ∧ Path.components path ≠ [] ∧
      ∃ id, store.follow none (Path.components path) = some (some id) := by
  obtain ⟨_, checked, continued⟩ := bind_eq_ok_iff.mp shown
  obtain ⟨⟨place, leaf⟩, located, -⟩ := bind_eq_ok_iff.mp continued
  obtain ⟨-, front, split, -, led, -⟩ := locate_eq_ok_iff.mp located
  rw [Path.components_dropFinalSlash, Path.components_dropFinalSlash] at split
  rw [stat_of_located checked located] at shown
  refine ⟨checked, by simp [split], ?_⟩
  cases file : store.binding? .file place leaf with
  | some id =>
    rw [file] at shown
    cases (of_listing shown).2.mp isDir
  | none =>
    cases dir : store.binding? .dir place leaf with
    | none =>
      rw [file, dir] at shown
      cases shown
    | some id =>
      rw [split]
      exact ⟨id, follow_concat_eq_some_iff.mpr ⟨place, id, led, dir, rfl⟩⟩

end Store

variable {σ : Type}

/-- The directory at `place` can be listed and walked by its path. -/
structure FileSystem.Enumerates (fs : FileSystem σ) (world : World σ) (path : String)
    (place : Place) : Prop where
  listed : ∃ entries,
    entries.map Listing.name =
        world.host.committed.names .dir place ++ world.host.committed.names .file place ∧
      ∀ depth, fs.perform depth (.call (.query (.listDir path))) world =
        (.ok (.reply (.listings entries)), world)
  walked : ∃ later, ∀ depth, fs.perform depth (.call (.query (.walk path))) world =
    (.ok (.reply (.visits (⟨path, world.host.committed.names .dir place,
      world.host.committed.names .file place⟩ :: later))), world)

structure FileSystem.EnumeratesNot (fs : FileSystem σ) (world : World σ) (path : String)
    (fault : Fault) : Prop where
  unlisted : ∀ depth, fs.perform depth (.call (.query (.listDir path))) world =
    (.error fault, world)
  unwalked : ∀ depth, fs.perform depth (.call (.query (.walk path))) world = (.error fault, world)

namespace FileSystem

variable {fs : FileSystem σ} {world : World σ} {path : String} {place : Place} {front : List String}

theorem dir_of_isDir {depth : Nat} (bare : path = "/" ∨ Path.endsWithSlash path = false)
    (answered : (fs.perform depth (.call (.isDir path)) world).1 = .ok (.flag true)) :
    path = "/" ∨ (world.lockFree = true ∧ fs.limits.checkPath path = .ok () ∧
      Path.components path ≠ [] ∧
      ∃ id, world.host.committed.follow none (Path.components path) = some (some id)) := by
  have untrimmed := Path.dropFinalSlash_of_bare bare
  rw [perform_eq_step] at answered
  rcases of_probe answered with root | ⟨lockFree, entry, shown, isDir⟩
  · exact Or.inl (untrimmed.symm.trans root)
  · obtain ⟨checked, nonempty, led⟩ := Store.dir_of_stat shown isDir
    exact Or.inr ⟨lockFree, untrimmed ▸ checked, nonempty, led⟩

theorem enumerates_join (linked : world.host.committed.Linked)
    (named : world.host.committed.Named fs.limits)
    (led : world.host.committed.follow none front = some place)
    (accepted : fs.limits.checkPath (Path.addFinalSlash (Path.join front)) = .ok ())
    (lockFree : world.lockFree = true) : fs.Enumerates world (Path.join front) place := by
  obtain ⟨entries, listed, names⟩ := linked.exists_listDir named led accepted
  obtain ⟨later, walked⟩ := linked.exists_walk_join named led accepted
  refine ⟨⟨entries, names, fun depth => ?_⟩, ⟨later, fun depth => ?_⟩⟩
  · exact perform_query_of_run rfl lockFree (map_eq_ok_iff.mpr ⟨_, listed, rfl⟩)
  · exact perform_query_of_run rfl lockFree (map_eq_ok_iff.mpr ⟨_, walked, rfl⟩)

theorem enumeratesNot_of_locked (locked : world.lockFree = false) :
    fs.EnumeratesNot world path .lockUnavailable := by
  constructor <;> intro depth <;> rw [perform_query rfl, read, locked] <;> rfl

theorem enumeratesNot_join {fault : Fault} (free : ∀ name ∈ front, Path.IsName name)
    (refused : fs.limits.checkPath (Path.addFinalSlash (Path.join front)) = .error fault)
    (lockFree : world.lockFree = true) : fs.EnumeratesNot world (Path.join front) fault := by
  have listed : world.host.committed.listDir fs.limits (Path.join front) = .error fault :=
    Store.listDir_of_refused refused
  have untrimmed := Path.dropFinalSlash_join free
  have walked : world.host.committed.walk fs.limits (Path.join front) = .error fault :=
    Store.walk_of_refused (untrimmed.symm ▸ Path.join_ne_empty front) (untrimmed.symm ▸ refused)
  constructor <;> intro depth <;> rw [perform_query rfl, read, if_pos lockFree, Query.run]
  · rw [listed]
    rfl
  · rw [walked]
    rfl

end FileSystem

/-- A directory is enumerated by its path as long as there is room for a final slash. That is one
byte less than directories may be created and asked for with. -/
theorem dirs_enumerated_by_shorter_paths (fs : FileSystem σ) (stepsOnly : fs.StepsOnly)
    (world : World σ) (reachable : fs.Reachable world) (depth : Nat) (path : String)
    (bare : path = "/" ∨ Path.endsWithSlash path = false)
    (answered : (fs.perform depth (.call (.isDir path)) world).1 = .ok (.flag true)) :
    ∃ place, world.host.committed.follow none (Path.components path) = some place ∧
      (Path.byteLength path : Int) ≤ fs.limits.pathLen ∧
      (world.lockFree = true → path = "/" ∨ Path.byteLength path < fs.limits.pathLen →
        fs.Enumerates world path place) ∧
      (world.lockFree = true → path ≠ "/" → Path.byteLength path = fs.limits.pathLen →
        fs.EnumeratesNot world path
          (.malformedPath (path ++ "/") (.longerThan fs.limits.pathLen))) ∧
      (world.lockFree = false → path = "/" ∧ fs.EnumeratesNot world path .lockUnavailable) := by
  have sound := reachable.sound stepsOnly
  have named := reachable.named stepsOnly
  rcases FileSystem.dir_of_isDir bare answered with rfl | ⟨lockFree, checked, notRoot, id, led⟩
  · have positive := fs.limits.pathLen_pos
    have short : (Path.byteLength "/" : Int) ≤ fs.limits.pathLen := by
      have single : Path.byteLength "/" = 1 := rfl
      omega
    have accepted : fs.limits.checkPath (Path.addFinalSlash (Path.join [])) = .ok () := by
      have notLong : ¬ fs.limits.pathLen < Path.byteLength "/" := by omega
      exact (Path.check_join fs.limits.pathLen (by simp)).trans (if_neg notLong)
    refine ⟨none, rfl, short, ?_, ?_, ?_⟩
    · intro lockFree _
      exact FileSystem.enumerates_join sound.toLinked named rfl accepted lockFree
    · intro _ notRoot _
      exact absurd rfl notRoot
    · intro locked
      exact ⟨rfl, FileSystem.enumeratesNot_of_locked locked⟩
  · have other : path ≠ "/" := by
      rintro rfl
      exact notRoot rfl
    have joined : path = Path.join (Path.components path) := by
      rw [Path.join_components checked, Path.dropFinalSlash_of_bare bare]
    have free : ∀ name ∈ Path.components path, Path.IsName name :=
      fun name => Path.isName_of_mem_components
    -- from here on the path is the path of a list of names, whose check with a final slash is known
    generalize Path.components path = front at *
    subst joined
    have counted := Path.check_addFinalSlash_join fs.limits.pathLen notRoot free
    refine ⟨some id, led, (Path.check_eq_ok_iff.mp checked).1, ?_, ?_, ?_⟩
    · intro _ room
      have shorter := room.resolve_left other
      exact FileSystem.enumerates_join sound.toLinked named led
        (counted.trans (if_neg (by omega))) lockFree
    · intro _ _ full
      exact FileSystem.enumeratesNot_join free (counted.trans (if_pos (by omega))) lockFree
    · intro locked
      cases locked.symm.trans lockFree

def FileSystem.crampedLongest : World Notebook :=
  (cramped.perform 0 (.call (.mutate none (.createDir "/longest" (.items [])))) crampedWorld).2

theorem FileSystem.reachable_crampedLongest : cramped.Reachable crampedLongest :=
  reachable_crampedWorld.perform 0 _

theorem dir_of_longest_path_not_enumerated :
    let world := FileSystem.crampedLongest
    FileSystem.cramped.Reachable world ∧ FileSystem.cramped.limits.pathLen = 8 ∧
      (FileSystem.cramped.perform 0 (.call (.mutate none (.createDir "/longest" (.items []))))
        FileSystem.crampedWorld).1 = .ok (.id 3) ∧
      Path.byteLength "/longest" = 8 ∧ Path.endsWithSlash "/longest" = false ∧
      Path.hasEmptyComponent "/longest".toList = false ∧
      (FileSystem.cramped.perform 0 (.call (.isDir "/longest")) world).1 = .ok (.flag true) ∧
      (FileSystem.cramped.perform 0 (.call (.query (.walk "/"))) world).1 =
        .ok (.reply (.visits
          [⟨"/", ["d", "longest"], []⟩, ⟨"/d", [], ["f"]⟩, ⟨"/longest", [], []⟩])) ∧
      (FileSystem.cramped.perform 0 (.call (.query (.listDir "/longest"))) world).1 =
        .error (.malformedPath "/longest/" (.longerThan 8)) ∧
      (FileSystem.cramped.perform 0 (.call (.query (.walk "/longest"))) world).1 =
        .error (.malformedPath "/longest/" (.longerThan 8)) := by
  intro world
  refine ⟨FileSystem.reachable_crampedLongest, ?_, ?_, ?_, ?_, ?_, ?_, ?_, ?_,
    ?_⟩ <;> decide +kernel

theorem dirs_enumerated_but_longest :
    FileSystem.cramped.StepsOnly ∧ FileSystem.cramped.Reachable FileSystem.crampedLongest ∧
      FileSystem.cramped.Enumerates FileSystem.crampedLongest "/d" (some 1) ∧
      FileSystem.cramped.EnumeratesNot FileSystem.crampedLongest "/longest"
        (.malformedPath "/longest/" (.longerThan 8)) := by
  have enumerated := fun path bare answered => dirs_enumerated_by_shorter_paths FileSystem.cramped
    FileSystem.stepsOnly_cramped FileSystem.crampedLongest FileSystem.reachable_crampedLongest 0
      path bare answered
  refine ⟨FileSystem.stepsOnly_cramped, FileSystem.reachable_crampedLongest, ?_, ?_⟩
  · obtain ⟨place, led, -, lists, -⟩ :=
      enumerated "/d" (Or.inr (by decide +kernel)) (by decide +kernel)
    have ledThere : FileSystem.crampedLongest.host.committed.follow none (Path.components "/d") =
        some (some 1) := by
      decide +kernel
    cases led.symm.trans ledThere
    exact lists (by decide +kernel) (Or.inr (by decide +kernel))
  · obtain ⟨place, -, -, -, fails, -⟩ :=
      enumerated "/longest" (Or.inr (by decide +kernel)) (by decide +kernel)
    exact fails (by decide +kernel) (by decide +kernel) (by decide +kernel)

end NameTree
