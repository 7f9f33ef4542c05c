import NameTree.Proofs.Addressable

/-!
What a create does, as seen through paths. One name is bound to a new id: the path given leads to a
record with the metadata given, the entries beside it keep their order, and every other path leads
where it led, to the record that was there.
-/

namespace NameTree

namespace Store

/-- The name `leaf` at `place`, where the names in `front` lead, is bound to a new record. -/
structure NameBound (before after : Store) (kind : Kind) (front : List String) (leaf : String)
    (place : Place) (id : Int) : Prop where
  unrecorded : ∀ other, id ∉ before.ids other
  unbound : ∀ other elsewhere name, before.binding? other elsewhere name ≠ some id
  found : after.resolve? kind (front ++ [leaf]) = some id
  parentIndex : ∃ old new, before.index kind place = .ok old ∧ after.index kind place = .ok new ∧
    new.label = old.label ∧ new.capacity = old.capacity ∧
    (old.get? leaf = none → new.toList = old.toList ++ [(leaf, id)]) ∧
    ∀ replaced, old.get? leaf = some replaced →
      new.toList = old.toList.map fun binding => if binding.1 = leaf then (leaf, id) else binding
  otherIndexes : ∀ other elsewhere, before.HasPlace elsewhere → (other, elsewhere) ≠ (kind, place) →
    after.index other elsewhere = before.index other elsewhere
  replaced : ∀ old, before.binding? kind place leaf = some old → ∀ other,
    old ∉ after.ids other ∧ ∀ elsewhere name, after.binding? other elsewhere name ≠ some old
  otherEntries : ∀ other names, (other, names) ≠ (kind, front ++ [leaf]) →
    after.resolve? other names = before.resolve? other names ∧
      ∀ held, before.resolve? other names = some held → ∀ name,
        after.listing other name held = before.listing other name held
  counter : after.counter = id
  epoch : after.epoch = before.epoch
  capacity : after.capacity = before.capacity

/-- The store after a record of one kind was stored under a new id, before a name is bound to it. -/
structure Stored (before stored : Store) (kind : Kind) (id : Int) : Prop where
  indexes : ∀ other elsewhere, before.HasPlace elsewhere →
    stored.index other elsewhere = before.index other elsewhere
  listings : ∀ other held, held ∈ stored.ids other → ¬ (other = kind ∧ held = id) → ∀ name,
    stored.listing other name held = before.listing other name held
  epoch : stored.epoch = before.epoch
  capacity : stored.capacity = before.capacity

variable {before after stored : Store} {kind : Kind} {front : List String} {leaf : String}
  {place : Place} {id : Int}

section Binds

variable (change : Binds before after kind place leaf)
include change

theorem Binds.follow_old (free : kind = .dir → before.binding? .dir place leaf = none)
    {names : List String} {reached : Place} (led : before.follow none names = some reached) :
    after.follow none names = some reached := by
  refine follow_of_fewer ?_ led
  intro elsewhere name held bound
  rw [change.bindings, if_neg, bound]
  rintro ⟨rfl, rfl, rfl⟩
  rw [free rfl] at bound
  cases bound

variable (sound : before.Sound)
include sound

theorem Binds.resolve?_other (free : kind = .dir → before.binding? .dir place leaf = none)
    (led : before.follow none front = some place) {other : Kind} {names : List String}
    (ne : (other, names) ≠ (kind, front ++ [leaf])) :
    after.resolve? other names = before.resolve? other names := by
  refine Option.ext fun held => ⟨fun found => ?_, fun found => ?_⟩
  · rcases change.resolve?_new_or_old sound led found with old | ⟨rfl, rfl⟩
    · exact old
    · exact absurd rfl ne
  · obtain ⟨passed, last, parent, rfl, ledParent, bound⟩ := exists_concat_of_resolve? found
    refine resolve?_concat_eq_some_iff.mpr ⟨parent, change.follow_old free ledParent, ?_⟩
    rw [change.bindings, if_neg, bound]
    rintro ⟨rfl, rfl, rfl⟩
    exact ne (by rw [sound.follow_inj led ledParent])

theorem Binds.replaced_gone {old : Int} (bound : before.binding? kind place leaf = some old)
    (other : Kind) :
    old ∉ after.ids other ∧ ∀ elsewhere name, after.binding? other elsewhere name ≠ some old := by
  have recorded : old ∈ before.ids kind := sound.recorded bound
  have gone : old ∉ after.ids other := by
    intro held
    rcases (change.records other old).mp held with ⟨-, rfl⟩ | ⟨kept, survives⟩
    · exact sound.not_issued change.counter kind recorded
    · exact survives ⟨sound.kind_unique recorded kept, bound⟩
  exact ⟨gone, fun _ _ found => gone ((change.linked sound.toIntact).recorded found)⟩

theorem Binds.nameBound (free : kind = .dir → before.binding? .dir place leaf = none)
    (led : before.follow none front = some place) (drawn : id = after.counter)
    (placed : Stored before stored kind id) {old new : Index}
    (present : before.index kind place = .ok old) (inserted : old.insert leaf id = .ok new)
    (written : after = stored.setIndex kind place new) :
    NameBound before after kind front leaf place id := by
  subst drawn
  have linked := change.linked sound.toIntact
  have fresh := sound.not_issued change.counter
  have here : stored.index kind place = .ok old :=
    (placed.indexes kind place change.present).trans present
  constructor
  case unrecorded => exact fresh
  case unbound => exact fun other _ _ bound => fresh other (sound.recorded bound)
  case found => exact change.resolve?_new sound.toLinked led
  case parentIndex =>
    refine ⟨old, new, present, ?_, ?_, ?_, fun free => Index.toList_of_insert free inserted,
      fun _ bound => Index.toList_of_insert_of_bound bound inserted⟩
    · rw [written]
      exact index_setIndex_self here new
    · rw [Index.eq_of_insert inserted]
    · rw [Index.eq_of_insert inserted]
  case otherIndexes =>
    intro other elsewhere remains ne
    rw [written, index_setIndex_of_ne stored ne, placed.indexes other elsewhere remains]
  case replaced => exact fun _ bound => change.replaced_gone sound bound
  case otherEntries =>
    intro other names ne
    have same := change.resolve?_other sound free led ne
    refine ⟨same, fun held found name => ?_⟩
    have kept : held ∈ after.ids other := linked.mem_ids_of_resolve? (same.trans found)
    have notNew : ¬ (other = kind ∧ held = after.counter) := by
      rintro ⟨rfl, rfl⟩
      exact fresh other (sound.mem_ids_of_resolve? found)
    rw [written, ids_setIndex] at kept
    rw [written, listing_setIndex]
    exact placed.listings other held kept notNew name
  case counter => rfl
  case epoch => rw [written, epoch_setIndex, placed.epoch]
  case capacity => rw [written, capacity_setIndex, placed.capacity]

end Binds

section Stored

theorem get?_of_dropReplaced {replaced : Option Int} {cleared : Store}
    (dropped : before.dropReplaced replaced = .ok cleared) (held : id ∈ cleared.files.ids) :
    cleared.files.get? id = before.files.get? id := by
  cases replaced with
  | none =>
    cases dropped
    rfl
  | some old =>
    obtain ⟨-, rfl⟩ := dropReplaced_some_eq_ok_iff.mp dropped
    rw [Arena.get?_erase, if_neg (Arena.mem_ids_erase.mp held).2]

theorem Stored.file {replaced : Option Int} {cleared : Store} {files : Arena "file" FileRecord}
    {record : FileRecord} (dropped : before.dropReplaced replaced = .ok cleared)
    (inserted : cleared.files.insert id record = .ok files) :
    Stored before { cleared.advance with files := files } .file id := by
  obtain ⟨sameRest, -⟩ := dropReplaced_eq_ok dropped
  constructor
  case indexes =>
    intro other elsewhere _
    rw [index_withFiles, index_advance, sameRest, index_withFiles]
  case listings =>
    intro other held member notNew name
    cases other with
    | file =>
      have ne : held ≠ id := fun same => notNew ⟨rfl, same⟩
      have kept : held ∈ cleared.files.ids :=
        ((Arena.mem_ids_of_insert inserted).mp member).resolve_left ne
      have same : files.get? held = before.files.get? held := by
        rw [Arena.get?_of_insert inserted, if_neg ne, get?_of_dropReplaced dropped kept]
      simp only [listing, Arena.require, same]
    | dir =>
      rw [sameRest]
      rfl
  case epoch =>
    rw [sameRest]
    rfl
  case capacity =>
    rw [sameRest]
    rfl

theorem Stored.dir {dirs : Arena "dir" DirRecord} {record : DirRecord}
    (fresh : id ∉ before.ids .dir) (inserted : before.dirs.insert id record = .ok dirs) :
    Stored before { before.advance with dirs := dirs } .dir id where
  indexes other elsewhere present := by
    have apart : elsewhere ≠ some id := by
      rintro rfl
      exact fresh present
    rw [index_withDirs_of_ne before.advance inserted apart, index_advance]
  listings other held _ notNew name := by
    cases other with
    | file => rfl
    | dir =>
      have ne : held ≠ id := fun same => notNew ⟨rfl, same⟩
      simp only [listing, Arena.require, Arena.get?_of_insert inserted, if_neg ne]
  epoch := rfl
  capacity := rfl

end Stored

variable {limits : Limits} {reading : Option Int} {path : String}

theorem createFile_binds_new (sound : before.Sound) {spec : FileSpec}
    (done : (before.createFile limits reading path spec).result = .ok id) :
    let after := (before.createFile limits reading path spec).store
    ∃ front leaf place now draft, Path.components path = front ++ [leaf] ∧
      before.follow none front = some place ∧
      NameBound before after .file front leaf place id ∧ reading = some now ∧
      spec.check limits = .ok draft ∧
      after.stat limits path = .ok ((draft.stamp now).listing leaf) := by
  rw [createFile_eq_after] at done ⊢
  obtain ⟨plan, planned, done, same⟩ := Outcome.exists_plan_of_after done
  rw [same]
  obtain ⟨target, drafted, replaced, -⟩ := planFile_eq_ok_iff.mp planned
  obtain ⟨now, cleared, files, index, shown, dropped, drawn, stored, inserted, written⟩ :=
    plan.write_eq_ok done
  have change := plan.write_binds target.present replaced done
  obtain ⟨front, led, split, -, -⟩ := target.exists_front
  have next : id = (plan.write reading before).store.counter := by
    rw [drawn, change.counter]
    rfl
  have bound := change.nameBound sound (by simp) led next (.file dropped stored) target.present
    inserted written
  obtain ⟨-, new, -, present, -⟩ := bound.parentIndex
  have targetAfter := target.trimmed.persists (fun _ => change.follow_front sound.toLinked) present
  have here : (plan.write reading before).store.binding? .file plan.place plan.leaf = some id := by
    rw [change.bindings, if_pos ⟨rfl, rfl, rfl⟩, next]
  have record : (plan.write reading before).store.files.get? id = some (plan.draft.stamp now) := by
    rw [written, files_setIndex, Arena.get?_of_insert stored, if_pos rfl]
  refine ⟨front, plan.leaf, plan.place, now, plan.draft, split, led, bound, shown, drafted, ?_⟩
  rw [stat_of_unhidden targetAfter.checked targetAfter.located here (Or.inl rfl)]
  simp only [listing, Arena.require, record]
  rfl

theorem createDir_binds_new (sound : before.Sound) {tags : Tags}
    (done : (before.createDir limits reading path tags).result = .ok id) :
    let after := (before.createDir limits reading path tags).store
    ∃ front leaf place now texts, Path.components path = front ++ [leaf] ∧
      before.follow none front = some place ∧
      before.binding? .dir place leaf = none ∧ NameBound before after .dir front leaf place id ∧
      reading = some now ∧ limits.checkTags tags = .ok texts ∧
      after.dirs.get? id = some (.make now texts before.capacity) ∧
      (after.resolve? .file (front ++ [leaf]) = none →
        after.stat limits path = .ok ⟨leaf, now, true, texts, 0, "", 0⟩) := by
  rw [createDir_eq_after] at done ⊢
  obtain ⟨plan, planned, done, same⟩ := Outcome.exists_plan_of_after done
  rw [same]
  obtain ⟨target, tagged, free⟩ := planDir_eq_ok_iff.mp planned
  have apart := sound.place_ne_next target.hasPlace
  obtain ⟨now, dirs, index, shown, drawn, stored, inserted, written⟩ := plan.write_eq_ok apart done
  have change := plan.write_binds sound.toIntact target.present free done
  obtain ⟨front, led, split, -, -⟩ := target.exists_front
  rw [Path.components_dropFinalSlash] at split
  have next : id = (plan.write reading before).store.counter := by
    rw [drawn, change.counter]
    rfl
  have fresh : id ∉ before.ids .dir := next ▸ sound.not_issued change.counter .dir
  have unbound : before.binding? .dir plan.place plan.leaf = none :=
    (target.binding? plan.leaf).trans free
  have bound := change.nameBound sound (fun _ => unbound) led next (.dir fresh stored)
    target.present inserted written
  obtain ⟨-, new, -, present, -⟩ := bound.parentIndex
  have targetAfter := target.persists (fun _ => change.follow_front sound.toLinked) present
  have here : (plan.write reading before).store.binding? .dir plan.place plan.leaf = some id := by
    rw [change.bindings, if_pos ⟨rfl, rfl, rfl⟩, next]
  have record : (plan.write reading before).store.dirs.get? id =
      some (.make now plan.tags before.capacity) := by
    rw [written, get?_dirs_setIndex, if_neg (drawn ▸ apart)]
    exact (Arena.get?_of_insert stored id).trans (if_pos rfl)
  refine ⟨front, plan.leaf, plan.place, now, plan.tags, split, led, unbound, bound, shown,
    tagged, record, ?_⟩
  intro noFile
  rw [resolve?_concat_of_follow (change.follow_front sound.toLinked led)] at noFile
  rw [stat_of_unhidden targetAfter.checked targetAfter.located here (Or.inr noFile)]
  simp only [listing, Arena.require, record]
  rfl

end Store

variable {σ : Type}

/-- A create that succeeds binds the one name that it was given, to a new record with the
metadata that it was given, and changes nothing else. A new directory is empty, whatever had its
path before. -/
theorem create_binds_one_name (fs : FileSystem σ) (stepsOnly : fs.StepsOnly) (world : World σ)
    (reachable : fs.Reachable world) (path : String) :
    let before := world.host.committed
    let reading := fs.clock world.ticks
    (∀ spec id, (before.createFile fs.limits reading path spec).result = .ok id →
        let after := (before.createFile fs.limits reading path spec).store
        ∃ front leaf place now tags size expiry, Path.components path = front ++ [leaf] ∧
          before.follow none front = some place ∧ before.NameBound after .file front leaf place id ∧
          reading = some now ∧ spec.tags = .items (tags.map .text) ∧ spec.size = .int size ∧
          spec.expiry = .int expiry ∧
          after.stat fs.limits path = .ok ⟨leaf, now, false, tags, size, spec.contentRef, expiry⟩) ∧
      (∀ given id, (before.createDir fs.limits reading path given).result = .ok id →
        let after := (before.createDir fs.limits reading path given).store
        ∃ front leaf place now tags, Path.components path = front ++ [leaf] ∧
          before.follow none front = some place ∧ before.binding? .dir place leaf = none ∧
          before.NameBound after .dir front leaf place id ∧ reading = some now ∧
          given = .items (tags.map .text) ∧
          (∀ kind, ∃ index, after.index kind (some id) = .ok index ∧ index.toList = []) ∧
          after.listing .dir leaf id = .ok ⟨leaf, now, true, tags, 0, "", 0⟩ ∧
          (after.resolve? .file (front ++ [leaf]) = none →
            after.stat fs.limits path = .ok ⟨leaf, now, true, tags, 0, "", 0⟩)) ∧
      ∀ depth caller m id, (fs.perform depth (.call (.mutate caller m)) world).1 = .ok (.id id) →
        let outcome := m.apply fs.limits reading before
        outcome.result = .ok (.bound id) ∧ (fs.transact m world).2.host.committed = outcome.store ∧
          ∀ hearing : Option (Hearing σ), fs.listener = hearing.map Listener.plain →
            (fs.perform depth (.call (.mutate caller m)) world).2.host.committed =
              outcome.store := by
  intro before reading
  have sound := reachable.sound stepsOnly
  refine ⟨?_, ?_, ?_⟩
  · intro spec id done
    obtain ⟨front, leaf, place, now, draft, split, led, bound, shown, drafted, stat⟩ :=
      Store.createFile_binds_new sound done
    obtain ⟨tags, size, contentRef, expiry⟩ := FileSpec.eq_of_check drafted
    rw [contentRef]
    exact ⟨front, leaf, place, now, draft.tags, draft.size, draft.expiry, split, led, bound,
      shown, tags, size, expiry, stat⟩
  · intro given id done
    obtain ⟨front, leaf, place, now, tags, split, led, unbound, bound, shown, tagged,
      record, stat⟩ :=
      Store.createDir_binds_new sound done
    refine ⟨front, leaf, place, now, tags, split, led, unbound, bound, shown,
      (Limits.checkTags_eq_ok_iff.mp tagged).1, ?_, ?_, stat⟩
    · intro kind
      refine ⟨_, Store.index_place record, ?_⟩
      cases kind <;> rfl
    · exact congrArg (Except.map _) (Arena.require_eq_ok_iff.mpr record)
  · intro depth caller m id answered
    obtain ⟨admitted, done⟩ := FileSystem.apply_of_perform_id answered
    have copied : before.clone = before := reachable.clone stepsOnly
    have committed : (fs.transact m world).2.host.committed =
        (m.apply fs.limits reading before.clone).store := by
      rw [FileSystem.transact_of_ok done]
    have committedPlain (hearing : Option (Hearing σ))
        (plain : fs.listener = hearing.map Listener.plain) :
        (fs.perform depth (.call (.mutate caller m)) world).2.host.committed =
          (m.apply fs.limits reading before.clone).store :=
      FileSystem.committed_perform_of_ok plain depth admitted done
    rw [copied] at done committed committedPlain
    exact ⟨done, committed, committedPlain⟩

theorem create_binds_one_name_populated :
    let spec : FileSpec := ⟨.items [.text "x"], .int 2, "ref", .int 9, true⟩
    let before := FileSystem.populated.host.committed
    let written := before.createFile FileSystem.roomy.limits (some 7) "/d/f" spec
    let deleted :=
      (FileSystem.roomy.perform 0 (.call (.mutate none (.deleteDir "/d"))) FileSystem.populated).2
    let again := deleted.host.committed.createDir FileSystem.roomy.limits (some 7) "/d/" (.items [])
    FileSystem.roomy.StepsOnly ∧ FileSystem.roomy.Reachable FileSystem.populated ∧
      written.result = .ok 8 ∧ before.resolve? .file ["d", "f"] = some 3 ∧
      before.NameBound written.store .file ["d"] "f" (some 1) 8 ∧ 3 ∉ written.store.ids .file ∧
      written.store.stat FileSystem.roomy.limits "/d/f" = .ok ⟨"f", 7, false, ["x"], 2, "ref", 9⟩ ∧
      FileSystem.roomy.Reachable deleted ∧ again.result = .ok 8 ∧
      deleted.host.committed.NameBound again.store .dir [] "d" none 8 ∧
      ∀ kind, ∃ index, again.store.index kind (some 8) = .ok index ∧ index.toList = [] := by
  intro spec before written deleted again
  have reachable : FileSystem.roomy.Reachable deleted := FileSystem.reachable_populated.perform 0 _
  have replaced : written.result = .ok 8 := by decide +kernel
  have created : again.result = .ok 8 := by decide +kernel
  obtain ⟨files, -, -⟩ := create_binds_one_name FileSystem.roomy FileSystem.stepsOnly_roomy
    FileSystem.populated FileSystem.reachable_populated "/d/f"
  obtain ⟨-, dirs, -⟩ :=
    create_binds_one_name FileSystem.roomy FileSystem.stepsOnly_roomy deleted reachable "/d/"
  obtain ⟨front, leaf, place, _, _, _, _, split, led, bound, -, -, -, -, -⟩ := files spec 8 replaced
  obtain ⟨frontDir, leafDir, placeDir, _, _, splitDir, ledDir, -, boundDir, -, -, empty, -⟩ :=
    dirs (.items []) 8 created
  have ledThere : before.follow none ["d"] = some (some 1) := by decide +kernel
  obtain ⟨rfl, rfl⟩ : ["d"] = front ∧ "f" = leaf := by
    refine List.append_singleton_inj.mp (Eq.trans ?_ split)
    decide +kernel
  obtain ⟨rfl, rfl⟩ : [] = frontDir ∧ "d" = leafDir := by
    refine List.append_singleton_inj.mp (Eq.trans ?_ splitDir)
    decide +kernel
  cases led.symm.trans ledThere
  cases ledDir
  refine ⟨FileSystem.stepsOnly_roomy, FileSystem.reachable_populated, replaced, by decide +kernel,
    bound, ?_, ?_, reachable, created, boundDir, empty⟩
  · exact (bound.replaced 3 (by decide +kernel) .file).1
  · decide +kernel

end NameTree
