import NameTree.FileSystem.Listeners
import NameTree.Proofs.Reachable
import NameTree.Proofs.Uniform
import NameTree.Proofs.Written

/-!
What holds of the committed store in every world of a file system whose listener, if it has one,
keeps to steps. The committed store is a tree, whatever calls were made, failed or were nested in
others.
-/

namespace NameTree

variable {σ : Type} {fs : FileSystem σ} {world : World σ}

theorem FileSystem.keeps_sound (fs : FileSystem σ) :
    fs.Keeps fun world => world.host.committed.Sound ∧
      world.host.committed.Uniform fs.capacity := by
  have kept (m : Mutation) (reading : Option Int) (store : Store) (effect : Effect)
      (before : store.Sound ∧ store.Uniform fs.capacity)
      (done : (m.apply fs.limits reading store.clone).result = .ok effect) :
      (m.apply fs.limits reading store.clone).store.Sound ∧
        (m.apply fs.limits reading store.clone).store.Uniform fs.capacity := by
    obtain ⟨sound, uniform⟩ := before
    rw [uniform.clone] at done ⊢
    exact ⟨(m.does sound.toIntact done).sound sound, m.uniform_apply uniform fs.limits reading⟩
  exact keeps_committed kept

section Reachable

variable (reachable : fs.Reachable world) (stepsOnly : fs.StepsOnly)
include reachable stepsOnly

theorem FileSystem.Reachable.sound : world.host.committed.Sound :=
  (reachable.of_keeps fs.keeps_sound stepsOnly fun _ =>
    ⟨Store.sound_empty fs.capacity, Store.uniform_empty fs.capacity⟩).1

theorem FileSystem.Reachable.uniform : world.host.committed.Uniform fs.capacity :=
  (reachable.of_keeps fs.keeps_sound stepsOnly fun _ =>
    ⟨Store.sound_empty fs.capacity, Store.uniform_empty fs.capacity⟩).2

theorem FileSystem.Reachable.clone : world.host.committed.clone = world.host.committed :=
  (reachable.uniform stepsOnly).clone

theorem FileSystem.Reachable.result_transact (m : Mutation) :
    (fs.transact m world).1 =
      (m.apply fs.limits (fs.clock world.ticks) world.host.committed).result := by
  rw [fs.result_transact, reachable.clone stepsOnly]

theorem FileSystem.Reachable.of_sound {property : Store → Prop}
    (applied : ∀ (m : Mutation) (reading : Option Int) (store : Store) (effect : Effect),
      store.Sound → store.Uniform fs.capacity → property store →
      (m.apply fs.limits reading store).result = .ok effect →
      property (m.apply fs.limits reading store).store)
    (start : property (Store.empty fs.capacity)) : property world.host.committed := by
  have kept (m : Mutation) (reading : Option Int) (store : Store) (effect : Effect)
      (before : (store.Sound ∧ store.Uniform fs.capacity) ∧ property store)
      (done : (m.apply fs.limits reading store.clone).result = .ok effect) :
      ((m.apply fs.limits reading store.clone).store.Sound ∧
        (m.apply fs.limits reading store.clone).store.Uniform fs.capacity) ∧
        property (m.apply fs.limits reading store.clone).store := by
    obtain ⟨⟨sound, uniform⟩, holds⟩ := before
    rw [uniform.clone] at done ⊢
    exact ⟨⟨(m.does sound.toIntact done).sound sound, m.uniform_apply uniform fs.limits reading⟩,
      applied m reading store effect sound uniform holds done⟩
  exact (reachable.of_keeps (keeps_committed kept) stepsOnly fun _ =>
    ⟨⟨Store.sound_empty fs.capacity, Store.uniform_empty fs.capacity⟩, start⟩).2

end Reachable

theorem committed_isTree (fs : FileSystem σ) (stepsOnly : fs.StepsOnly) (world : World σ)
    (reachable : fs.Reachable world) : world.host.committed.IsTree :=
  (reachable.sound stepsOnly).isTree

/-- A file system whose listener creates a file in each new directory. -/
def FileSystem.filling : FileSystem Notebook where
  owner := none
  capacity := some 2
  limits := .default
  capacity_nonneg := by simp
  clock := .stopped 7
  listener := some (.stepping ["dir_added"]
    (.call (.mutate none (.createFile "/d/f" ⟨.items [], .int 1, "", .int 0, true⟩))))

theorem FileSystem.stepsOnly_filling : filling.StepsOnly := by
  intro listener present
  cases present
  exact Listener.stepsOnly_stepping _ _

theorem committed_isTree_of_nested_creates :
    let world := (FileSystem.filling.run 1
      [.call (.mutate none (.createDir "/d" (.items []))), .call (.mutate none (.deleteDir "/d")),
        .call (.mutate none (.createDir "/d" (.items []))), .call (.mutate none (.deleteFile "/d"))]
      (FileSystem.filling.start ⟨[], 2⟩)).2
    FileSystem.filling.StepsOnly ∧ FileSystem.filling.Reachable world ∧
      world.host.committed.IsTree ∧
      world.host.committed.resolve? .file ["d", "f"] = some 4 := by
  intro world
  have reachable : FileSystem.filling.Reachable world := FileSystem.filling.reachable_run 1 _ _
  refine ⟨FileSystem.stepsOnly_filling, reachable, ?_, ?_⟩
  · exact committed_isTree FileSystem.filling FileSystem.stepsOnly_filling world reachable
  · decide +kernel

def FileSystem.roomy : FileSystem Notebook :=
  { filling with capacity := some 16, capacity_nonneg := by simp, listener := none }

theorem FileSystem.stepsOnly_roomy : roomy.StepsOnly := by
  intro listener present
  cases present

/-- Two directories with files in them, one in the other, a file of the same name as the outer one,
and a third directory aside. -/
def FileSystem.populated : World Notebook :=
  let file (path : String) : Step :=
    .call (.mutate none (.createFile path ⟨.items [], .int 1, "", .int 0, false⟩))
  let dir (path : String) : Step := .call (.mutate none (.createDir path (.items [])))
  (roomy.run 0 [dir "/d", dir "/d/e", file "/d/f", file "/d/e/g", file "/d", dir "/k", file "/k/h"]
    (roomy.start ⟨[], 0⟩)).2

theorem FileSystem.reachable_populated : roomy.Reachable populated := roomy.reachable_run 0 _ _

end NameTree
