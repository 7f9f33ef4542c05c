import NameTree.Proofs.Addressable
import NameTree.Proofs.AsOf
import NameTree.Proofs.Calls
import NameTree.Proofs.Obstacles
import NameTree.Proofs.Strangers

/-!
A directory as a bracket. Whatever is done below a directory after its create, by calls that succeed
or fail, is taken back when the directory is deleted: the store is then what it was before the
create, with the same records and bindings in the same order, and only the counter remembers. Two
facts carry this. As of the counter at the create, a mutation inside the directory changes nothing;
and all that came later lies under the directory.
-/

namespace NameTree

/-- The path leads further than `names` do. -/
def Path.Below (names : List String) (path : String) : Prop :=
  ∃ suffix, suffix ≠ [] ∧ components path = names ++ suffix

theorem Path.below_dropFinalSlash {names : List String} {path : String} :
    Path.Below names (dropFinalSlash path) ↔ Path.Below names path := by
  rw [Below, Below, components_dropFinalSlash]

/-- The mutation creates, renames or deletes below `names` only. -/
def Mutation.Inside (names : List String) : Mutation → Prop
  | .createFile path _ | .createDir path _ | .deleteFile path | .deleteDir path =>
    Path.Below names path
  | .rename _ source target => Path.Below names source ∧ Path.Below names target
  | .updateEpoch _ => False

def Call.Inside (names : List String) : Call → Prop
  | .mutate _ m => m.Inside names
  | _ => True

/-- A directory about to be created in a sound store: `leaf` is free in `index`, and `marked` is
that index with the next id bound to it. -/
structure Bracket (limits : Limits) (start : Store) (path : String) where
  place : Place
  leaf : String
  index : Index
  marked : Index
  sound : start.Sound
  target : Destination start limits .dir (Path.dropFinalSlash path) place leaf index
  free : index.get? leaf = none
  bound : index.insert leaf (start.counter + 1) = .ok marked

namespace Bracket

variable {limits : Limits} {start store : Store} {path : String}

def top (_ : Bracket limits start path) : Int := start.counter + 1

/-- A store while the bracket is open. As of the counter at the create, it has the binding of the
directory added and nothing else. -/
structure Holds (b : Bracket limits start path) (store : Store) : Prop where
  sound : store.Sound
  asOf : store.asOf start.counter = start.setIndex .dir b.place b.marked

theorem lt_top (b : Bracket limits start path) : (start.counter : Int) < b.top := Int.lt_succ _

theorem marked_leaf (b : Bracket limits start path) : b.marked.get? b.leaf = some b.top := by
  rw [Index.get?_of_insert b.bound, if_pos rfl]
  rfl

theorem old_of_hasPlace (b : Bracket limits start path) {place : Place}
    (present : start.HasPlace place) :
    ∀ id ∈ place, id ≤ (start.counter : Int) := by
  intro id here
  obtain rfl : place = some id := here
  have isDir : id ∈ start.ids .dir := present
  exact b.sound.issued isDir

variable {b : Bracket limits start path}

namespace Holds

variable (holds : b.Holds store)
include holds

theorem old_of_mem {kind : Kind} {id : Int} (member : id ∈ store.ids kind)
    (old : id ≤ start.counter) :
    id ∈ start.ids kind := by
  have listed : id ∈ (store.asOf start.counter).ids kind := Store.mem_ids_asOf.mpr ⟨member, old⟩
  rw [holds.asOf, Store.ids_setIndex] at listed
  exact listed

theorem binding?_old {place : Place} (old : ∀ id ∈ place, id ≤ (start.counter : Int)) (kind : Kind)
    (name : String) : store.binding? kind place name =
      if kind = .dir ∧ place = b.place ∧ name = b.leaf then some b.top
      else start.binding? kind place name := by
  rw [← Store.binding?_asOf old, holds.asOf,
    Store.binding?_setIndex_insert b.target.present b.bound]
  rfl

theorem binding?_top : store.binding? .dir b.place b.leaf = some b.top := by
  rw [holds.binding?_old (b.old_of_hasPlace b.target.hasPlace), if_pos ⟨rfl, rfl, rfl⟩]

theorem mem_ids_top : b.top ∈ store.ids .dir := holds.sound.recorded holds.binding?_top

theorem counter_lt : start.counter < store.counter := by
  have issued := holds.sound.issued holds.mem_ids_top
  unfold top at issued
  omega

theorem follow_place {front : List String} (led : start.follow none front = some b.place) :
    store.follow none front = some b.place :=
  b.sound.follow_congr_of_place_ne led fun elsewhere present ne name => by
    rw [holds.binding?_old (b.old_of_hasPlace present), if_neg fun all => ne all.2.1]

theorem index_place : store.index .dir b.place = .ok b.marked := by
  rw [← Store.index_asOf (b.old_of_hasPlace b.target.hasPlace), holds.asOf]
  exact Store.index_setIndex_self b.target.present b.marked

theorem target : Destination store limits .dir
    (Path.dropFinalSlash path) b.place b.leaf b.marked where
  checked := b.target.checked
  located := by
    obtain ⟨notRoot, front, split, checked, led, -⟩ := Store.locate_eq_ok_iff.mp b.target.located
    refine Store.locate_eq_ok_iff.mpr ⟨notRoot, front, split, checked, holds.follow_place led, ?_⟩
    exact Store.hasPlace_iff.mpr ⟨b.marked, holds.index_place⟩
  present := holds.index_place

theorem later : store.Later start.counter := by
  intro kind parent name id new bound
  by_contra notNew
  have old := holds.old_of_mem (holds.sound.recorded bound) (not_lt.mp notNew)
  obtain ⟨place, asked, boundBefore⟩ := b.sound.bound old
  have placeOld := b.old_of_hasPlace (Store.hasPlace_of_binding? boundBefore)
  have elsewhere_ne : ¬ (kind = .dir ∧ place = b.place ∧ asked = b.leaf) := by
    intro all
    rcases all with ⟨rfl, rfl, rfl⟩
    rw [b.target.binding?, b.free] at boundBefore
    cases boundBefore
  have again : store.binding? kind place asked = some id := by
    rw [holds.binding?_old placeOld, if_neg elsewhere_ne, boundBefore]
  have here := (holds.sound.unique bound again).1
  have := placeOld parent here
  omega

theorem under_top {id : Int} (member : id ∈ store.ids .dir) (new : start.counter < id) :
    store.Under b.top id := by
  -- climbing from a later directory passes later ones only, up to that of the bracket
  have isPlace : store.HasPlace (some id) := member
  obtain ⟨names, led⟩ := holds.sound.exists_follow isPlace
  induction names using List.reverseRecOn generalizing id with
  | nil => cases led
  | append_singleton front name ih =>
    obtain ⟨place, _, ledPlace, bound, same⟩ := Store.follow_concat_eq_some_iff.mp led
    cases same
    by_cases old : ∀ parent ∈ place, parent ≤ (start.counter : Int)
    · rw [holds.binding?_old old] at bound
      split at bound
      · cases bound
        exact Relation.ReflTransGen.refl
      · have := b.sound.issued (b.sound.recorded bound)
        omega
    · push Not at old
      obtain ⟨parent, rfl, newParent⟩ := old
      have isParent : store.HasPlace (some parent) := Store.hasPlace_of_binding? bound
      exact (ih isParent newParent isParent ledPlace).tail ⟨name, bound⟩

theorem fileUnder_top {id : Int} (member : id ∈ store.ids .file) (new : start.counter < id) :
    store.FileUnder b.top id := by
  obtain ⟨place, name, bound⟩ := holds.sound.bound member
  by_cases old : ∀ parent ∈ place, parent ≤ (start.counter : Int)
  · have notDir : ¬ (Kind.file = .dir ∧ place = b.place ∧ name = b.leaf) :=
      fun all => by cases all.1
    rw [holds.binding?_old old, if_neg notDir] at bound
    have := b.sound.issued (b.sound.recorded bound)
    omega
  · push Not at old
    obtain ⟨parent, rfl, newParent⟩ := old
    have isParent : store.HasPlace (some parent) := Store.hasPlace_of_binding? bound
    exact ⟨parent, name, holds.under_top isParent newParent, bound⟩

theorem later_of_below {kind : Kind} {inner : String} {place : Place} {leaf : String}
    {index : Index} (target : Destination store limits kind inner place leaf index)
    (below : Path.Below (Path.components path) inner) :
    ∃ parent ∈ place, (start.counter : Int) < parent := by
  obtain ⟨suffix, nonempty, split⟩ := below
  obtain ⟨front, ledFront, splitFront, -⟩ := b.target.exists_front
  obtain ⟨passed, led, splitPassed, -⟩ := target.exists_front
  obtain ⟨between, last, rfl⟩ := (List.eq_nil_or_concat' suffix).resolve_left nonempty
  rw [Path.components_dropFinalSlash] at splitFront
  rw [splitPassed, splitFront, ← List.append_assoc] at split
  obtain ⟨rfl, -⟩ := List.append_singleton_inj.mp split
  have ledTop : store.follow none (front ++ [b.leaf]) = some (some b.top) :=
    Store.follow_concat_eq_some_iff.mpr ⟨b.place, b.top, holds.follow_place ledFront,
      holds.binding?_top, rfl⟩
  rw [Store.follow_append, ledTop, Option.bind_some] at led
  exact holds.later.of_follow b.lt_top led

section Step

variable {m : Mutation} {reading : Option Int}

theorem later_of_plan {plan : Plan} (inside : m.Inside (Path.components path))
    (planned : m.plan limits store = .ok plan) :
    ∃ parent ∈ plan.place, (start.counter : Int) < parent := by
  cases m with
  | createFile inner spec =>
    obtain ⟨plan, done, rfl⟩ := map_eq_ok_iff.mp planned
    exact holds.later_of_below (Store.planFile_eq_ok_iff.mp done).1 inside
  | createDir inner tags =>
    obtain ⟨plan, done, rfl⟩ := map_eq_ok_iff.mp planned
    exact holds.later_of_below (Store.planDir_eq_ok_iff.mp done).1
      (Path.below_dropFinalSlash.mpr inside)
  | rename kind source target =>
    obtain ⟨plan, done, rfl⟩ := map_eq_ok_iff.mp planned
    exact holds.later_of_below (Store.planRename_eq_ok_iff.mp done).1
      (Path.below_dropFinalSlash.mpr inside.1)
  | deleteFile inner | deleteDir inner =>
    obtain ⟨plan, done, rfl⟩ := map_eq_ok_iff.mp planned
    exact holds.later_of_below (Store.planDelete_eq_ok_iff.mp done).1
      (Path.below_dropFinalSlash.mpr inside)
  | updateEpoch epoch => cases inside

theorem asOf_apply {effect : Effect} (inside : m.Inside (Path.components path))
    (done : (m.apply limits reading store).result = .ok effect) :
    (m.apply limits reading store).store.asOf start.counter = store.asOf start.counter := by
  obtain ⟨plan, planned, written, same⟩ := m.exists_plan_of_apply done
  rw [same]
  exact (Mutation.suits_of_plan planned).asOf_write holds.sound.toIntact holds.later
    holds.counter_lt.le (holds.later_of_plan inside planned) written

theorem apply {effect : Effect} (inside : m.Inside (Path.components path))
    (done : (m.apply limits reading store).result = .ok effect) :
    b.Holds (m.apply limits reading store).store where
  sound := (m.does holds.sound.toIntact done).sound holds.sound
  asOf := (holds.asOf_apply inside done).trans holds.asOf

end Step

section Close

theorem planDelete : store.planDelete limits .dir path = .ok ⟨b.place, b.leaf, b.marked, b.top⟩ :=
  Store.planDelete_eq_ok_iff.mpr ⟨holds.target, b.marked_leaf⟩

theorem exists_deleteDir : ∃ removed, (store.deleteDir limits path).result = .ok removed := by
  rw [Store.deleteDir_eq_after, Outcome.after_of_ok holds.planDelete]
  exact DeletePlan.exists_writeDir _ holds.sound.toLinked holds.index_place holds.mem_ids_top path

theorem prunes {removed : Removed} (done : (store.deleteDir limits path).result = .ok removed) :
    Store.Prunes store (store.deleteDir limits path).store b.place b.leaf b.top := by
  obtain ⟨place, name, index, top, target, change⟩ := Store.deleteDir_prunes done
  cases target.located.symm.trans holds.target.located
  cases change.found.symm.trans holds.binding?_top
  exact change

theorem store_deleteDir {removed : Removed}
    (done : (store.deleteDir limits path).result = .ok removed) :
    (store.deleteDir limits path).store = { start with counter := store.counter } := by
  have change := holds.prunes done
  have old : ∀ kind, ∀ id ∈ (store.deleteDir limits path).store.ids kind, id ≤
      (start.counter : Int) := by
    intro kind id member
    by_contra notOld
    have new := not_le.mp notOld
    cases kind with
    | file =>
      obtain ⟨held, outside⟩ := (change.files id).mp member
      exact outside (holds.fileUnder_top held new)
    | dir =>
      obtain ⟨held, outside⟩ := (change.dirs id).mp member
      exact outside (holds.under_top held new)
  have restored : (store.deleteDir limits path).store.asOf start.counter = start := by
    rw [Store.deleteDir_eq_after, Outcome.after_of_ok holds.planDelete] at done ⊢
    calc
      _ = (store.setIndex .dir b.place (b.marked.erase b.leaf)).asOf start.counter :=
        DeletePlan.asOf_writeDir holds.later b.lt_top holds.index_place b.marked_leaf done
      _ = (start.setIndex .dir b.place b.marked).setIndex .dir b.place (b.marked.erase b.leaf) := by
        rw [Store.asOf_setIndex, holds.asOf]
      _ = start.setIndex .dir b.place b.index := by
        rw [Store.setIndex_setIndex, Index.erase_of_insert b.free b.bound]
      _ = start := Store.setIndex_of_index b.target.present
  rw [Store.asOf_of_all old] at restored
  rw [← restored, ← change.counter]

end Close

end Holds

theorem exists_holds {reading : Option Int} {tags : Tags} {effect : Effect} (sound : start.Sound)
    (done : ((Mutation.createDir path tags).apply limits reading start).result = .ok effect) :
    ∃ b : Bracket limits start path,
      b.Holds ((Mutation.createDir path tags).apply limits reading start).store := by
  have soundAfter := ((Mutation.createDir path tags).does sound.toIntact done).sound sound
  obtain ⟨_, planned, written, same⟩ := Mutation.exists_plan_of_apply done
  obtain ⟨plan, made, rfl⟩ := map_eq_ok_iff.mp planned
  obtain ⟨id, written, -⟩ := map_eq_ok_iff.mp written
  obtain ⟨target, -, free⟩ := Store.planDir_eq_ok_iff.mp made
  obtain ⟨marked, bound, asOf⟩ :=
    plan.asOf_write le_rfl (sound.place_ne_next target.hasPlace) written
  let b : Bracket limits start path :=
    ⟨plan.place, plan.leaf, plan.index, marked, sound, target, free, bound⟩
  refine ⟨b, soundAfter, ?_⟩
  rw [same]
  exact asOf.trans <| by rw [Store.asOf_setIndex, sound.asOf_counter]

end Bracket

section Calls

variable {σ : Type} {fs : FileSystem σ} {hearing : Option (Hearing σ)} {world : World σ}
  {start : Store} {path : String} {b : Bracket fs.limits start path}

namespace Bracket.Holds

variable (plain : fs.listener = hearing.map Listener.plain) (reachable : fs.Reachable world)
  (holds : b.Holds world.host.committed)
include plain reachable holds

theorem perform (depth : Nat) {call : Call} (inside : call.Inside (Path.components path)) :
    b.Holds (fs.perform depth (.call call) world).2.host.committed := by
  rcases FileSystem.committed_perform_plain plain depth call world with
    same | ⟨caller, m, effect, rfl, done, same⟩
  · rw [same]
    exact holds
  · rw [reachable.clone (FileSystem.stepsOnly_of_plain plain)] at done same
    rw [same]
    exact holds.apply inside done

theorem run (depth : Nat) {calls : List Call}
    (inside : ∀ call ∈ calls, call.Inside (Path.components path)) :
    b.Holds (fs.run depth (calls.map .call) world).2.host.committed := by
  induction calls generalizing world with
  | nil => exact holds
  | cons call rest ih =>
    have ⟨insideFirst, insideRest⟩ := List.forall_mem_cons.mp inside
    exact ih (reachable.perform depth _)
      (holds.perform plain reachable depth insideFirst) insideRest

end Bracket.Holds

end Calls

/-- The create counts when it was committed, also where the listener fails at it. Between it and the
deletion anybody may read anything, and may try any mutation below the directory. -/
theorem deletion_restores_store {σ : Type} (fs : FileSystem σ) (hearing : Option (Hearing σ))
    (plain : fs.listener = hearing.map Listener.plain) (world : World σ)
    (reachable : fs.Reachable world) (lockFree : world.lockFree = true) (caller : Option String)
    (accepted : fs.owner = none ∨ caller = fs.owner) (path : String) (tags : Tags) (effect : Effect)
    (created : (fs.transact (.createDir path tags) world).1 = .ok effect) (depth : Nat)
    (calls : List Call) (inside : ∀ call ∈ calls, call.Inside (Path.components path)) :
    let opened := (fs.perform depth (.call (.mutate caller (.createDir path tags))) world).2
    let filled := (fs.run depth (calls.map .call) opened).2
    let closed := fs.perform depth (.call (.mutate caller (.deleteDir path))) filled
    (∃ removed, (fs.transact (.deleteDir path) filled).1 = .ok (.removedDir removed)) ∧
      closed.1 =
        ((heard hearing (some (.deleted path)) filled.listener).1.bind fun _ => .ok .done) ∧
      closed.2.host.committed =
        { world.host.committed with counter := filled.host.committed.counter } := by
  intro opened filled closed
  have stepsOnly := FileSystem.stepsOnly_of_plain plain
  have sound : world.host.committed.Sound := reachable.sound stepsOnly
  have reachableOpened : fs.Reachable opened := reachable.perform depth _
  have reachableFilled : fs.Reachable filled := reachableOpened.run depth _
  have admittedCreate : fs.turnAway caller (.createDir path tags) world = .ok () :=
    FileSystem.turnAway_eq_ok_iff.mpr ⟨rfl, lockFree, accepted⟩
  rw [fs.result_transact] at created
  have committed := FileSystem.committed_perform_of_ok plain depth admittedCreate created
  rw [reachable.clone stepsOnly] at created committed
  obtain ⟨b, holds⟩ := Bracket.exists_holds sound created
  rw [← committed] at holds
  have holdsFilled : b.Holds filled.host.committed := holds.run plain reachableOpened depth inside
  have neverHolds := FileSystem.neverHolds_of_plain plain
  have free : filled.lockFree = true := by
    refine FileSystem.lockFree_run neverHolds depth ?_
      (FileSystem.lockFree_perform neverHolds depth (by simp) lockFree)
    simp
  obtain ⟨removed, deleted⟩ := holdsFilled.exists_deleteDir
  have copied := reachableFilled.clone stepsOnly
  have done : ((Mutation.deleteDir path).apply fs.limits (fs.clock filled.ticks)
      filled.host.committed.clone).result = .ok (.removedDir removed) := by
    rw [copied]
    exact map_eq_ok_iff.mpr ⟨removed, deleted, rfl⟩
  have ended := (fs.result_transact (.deleteDir path) filled).trans done
  have admittedDelete : fs.turnAway caller (.deleteDir path) filled = .ok () :=
    FileSystem.turnAway_eq_ok_iff.mpr ⟨rfl, free, accepted⟩
  refine ⟨⟨removed, ended⟩, ?_, ?_⟩
  · have deletion : (fs.transact (.deletion .dir path) filled).1 =
        .ok (.removedDir removed) := ended
    exact FileSystem.perform_deletion plain free accepted deletion depth
  · have emptied := FileSystem.committed_perform_of_ok plain depth admittedDelete done
    rw [copied] at emptied
    exact emptied.trans (holdsFilled.store_deleteDir deleted)

/-- A file system for two files and two directories. Its clock fails at the fourth call, its
listener at every new file. -/
def FileSystem.shaky : FileSystem Notebook :=
  { filling with
    owner := some "owner"
    clock := .stepping 7 1 [3]
    listener := some (.failing ["file_added"] "refused") }

/-- Inside the directory a file is created, moved and replaced, and a directory created at the
second attempt and moved; a third file is over the capacity, and the guest is turned away. -/
theorem deletion_restores_store_shaky :
    let owner (m : Mutation) : Call := .mutate (some "owner") m
    let file (path : String) : Mutation := .createFile path ⟨.items [], .int 1, "", .int 0, true⟩
    let dir (path : String) : Mutation := .createDir path (.items [])
    let world :=
      (FileSystem.shaky.run 0 [.call (owner (file "/f"))] (FileSystem.shaky.start ⟨[], 0⟩)).2
    let calls := [owner (file "/d/g"), owner (dir "/d/s"), owner (dir "/d/s"),
      .mutate (some "guest") (.deleteFile "/d/g"), owner (.rename .dir "/d/s" "/d/t"),
      owner (.rename .file "/d/g" "/d/h"), owner (file "/d/h"), owner (file "/d/t/h"),
      .query (.stat "/f")]
    let opened := (FileSystem.shaky.perform 0 (.call (owner (dir "/d/"))) world).2
    let filled := (FileSystem.shaky.run 0 (calls.map .call) opened).2
    let closed := FileSystem.shaky.perform 0 (.call (owner (.deleteDir "/d/"))) filled
    (FileSystem.shaky.run 0 (calls.map .call) opened).1 =
      [.error (.raised "refused"), .error .clockFailed, .ok (.id 4),
        .error (.unauthorized (some "guest")), .ok .done, .ok .done, .error (.raised "refused"),
        .error (.capacityExceeded "file arena" 2 2),
        .ok (.reply (.listing ⟨"f", 7, false, [], 1, "", 0⟩))] ∧
      filled.host.committed.counter = 5 ∧ closed.1 = .ok .done ∧
      closed.2.host.committed = { world.host.committed with counter := 5 } := by
  intro owner file dir world calls opened filled closed
  have plain : FileSystem.shaky.listener = (some fun event book =>
      (if event.kind ∈ ["file_added"] then .error (.raised "refused") else .ok (),
        Notebook.add book (.event event))).map Listener.plain :=
    congrArg some (Listener.failing_eq_plain _ _)
  have below (path : String) (rest : List String) (split : Path.components path = "d" :: rest)
      (nonempty : rest ≠ []) : Path.Below (Path.components "/d/") path :=
    ⟨rest, nonempty, split.trans
      (congrArg (· ++ rest) (show ["d"] = Path.components "/d/" by decide +kernel))⟩
  have belowG := below "/d/g" ["g"] (by decide +kernel) (by simp)
  have belowS := below "/d/s" ["s"] (by decide +kernel) (by simp)
  have belowT := below "/d/t" ["t"] (by decide +kernel) (by simp)
  have belowH := below "/d/h" ["h"] (by decide +kernel) (by simp)
  have belowTH := below "/d/t/h" ["t", "h"] (by decide +kernel) (by simp)
  have inside : ∀ call ∈ calls, call.Inside (Path.components "/d/") := by
    simp only [calls, List.forall_mem_cons, List.not_mem_nil, false_implies, implies_true, and_true]
    exact ⟨belowG, belowS, belowS, belowG, ⟨belowS, belowT⟩, ⟨belowG, belowH⟩, belowH,
      belowTH, trivial⟩
  have reachable : FileSystem.shaky.Reachable world := FileSystem.shaky.reachable_run 0 _ _
  have created : (FileSystem.shaky.transact (dir "/d/") world).1 = .ok (.bound 2) := by
    decide +kernel
  obtain ⟨-, answered, restored⟩ := deletion_restores_store FileSystem.shaky _ plain world reachable
    (by decide +kernel) (some "owner") (Or.inr rfl) "/d/" (.items []) _ created 0 calls inside
  have counter : filled.host.committed.counter = 5 := by decide +kernel
  refine ⟨by decide +kernel, counter, answered.trans (by decide +kernel), ?_⟩
  rw [← counter]
  dsimp only [closed, filled, opened, owner, dir]
  exact restored

end NameTree
