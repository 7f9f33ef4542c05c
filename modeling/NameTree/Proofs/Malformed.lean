import NameTree.Proofs.FinalSlash
import NameTree.Proofs.Walk

/-!
Malformed paths. Most of them are refused by every call. Two get through where the slash at their
end is dropped or added before the check: an acceptable path with two final slashes, and for
enumerations the empty path.
-/

namespace NameTree

namespace Path

variable {limits : Limits} {path : String}

/-- Empty, or without a slash at the start, or with two slashes in a row. -/
def Malformed (path : String) : Prop :=
  path = "" ∨ ¬ ['/'] <+: path.toList ∨ ['/', '/'] <:+: path.toList

theorem head?_eq_slash_iff {chars : List Char} : chars.head? = some '/' ↔ ['/'] <+: chars := by
  cases chars with
  | nil => simp
  | cons c rest =>
    rw [List.head?_cons, Option.some_inj, List.cons_prefix_cons, eq_comm]
    simp

theorem hasEmptyComponent_iff {chars : List Char} : hasEmptyComponent chars = true ↔
    ['/', '/'] <:+: chars := by
  induction chars with
  | nil => simp [hasEmptyComponent]
  | cons c rest ih =>
    rw [hasEmptyComponent, Bool.or_eq_true, ih, List.infix_cons_iff, List.cons_prefix_cons,
      ← head?_eq_slash_iff, Bool.and_eq_true, beq_iff_eq, beq_iff_eq, eq_comm]

theorem not_malformed_iff :
    ¬ Malformed path ↔ path.toList.head? = some '/' ∧ hasEmptyComponent path.toList = false := by
  rw [Malformed, ← hasEmptyComponent_iff, ← head?_eq_slash_iff, ← String.toList_eq_nil_iff]
  cases path.toList <;> simp

theorem check_eq_ok_iff_malformed {limit : Int} :
    check limit path = .ok () ↔ (byteLength path : Int) ≤ limit ∧ ¬ Malformed path := by
  rw [check_eq_ok_iff, not_malformed_iff]

/-- Acceptable with one final slash, but given with two. -/
def TwiceClosed (limits : Limits) (path : String) : Prop :=
  ∃ once, path = once ++ "/" ∧ endsWithSlash once = true ∧ limits.checkPath once = .ok ()

theorem ne_empty_of_check {limit : Int} (accepted : check limit path = .ok ()) : path ≠ "" := by
  rintro rfl
  exact (check_eq_ok_iff_malformed.mp accepted).2 (Or.inl rfl)

theorem check_dropFinalSlash_iff (malformed : Malformed path) :
    limits.checkPath (dropFinalSlash path) = .ok () ↔ TwiceClosed limits path := by
  constructor
  · intro accepted
    have sound := (check_eq_ok_iff_malformed.mp accepted).2
    have ends : path = dropFinalSlash path ++ "/" := by
      rcases dropFinalSlash_eq path with same | trailing
      · rw [same] at sound
        exact absurd malformed sound
      · rw [← String.toList_inj, trailing, toList_append_slash]
    refine ⟨dropFinalSlash path, ends, ?_, accepted⟩
    by_contra bare
    refine absurd malformed (not_malformed_iff.mpr ?_)
    rw [ends]
    exact (absolute_append_slash_iff (ne_empty_of_check accepted) (by simpa using bare)).mpr
      (not_malformed_iff.mp sound)
  · rintro ⟨once, rfl, -, accepted⟩
    rwa [dropFinalSlash_append_slash (ne_empty_of_check accepted)]

theorem check_of_check_addFinalSlash (nonempty : path ≠ "")
    (accepted : limits.checkPath (addFinalSlash path) = .ok ()) :
    limits.checkPath path = .ok () := by
  unfold addFinalSlash at accepted
  split at accepted
  · exact accepted
  · rename_i bare
    exact ((check_append_slash_iff nonempty (by simpa using bare)).mp accepted).1

theorem sameUse_join (accepted : limits.checkPath (dropFinalSlash path) = .ok ()) :
    SameUse limits path (join (components path)) := by
  have free : ∀ name ∈ components path, IsName name := fun name => isName_of_mem_components
  have joined := join_components accepted
  rw [components_dropFinalSlash] at joined
  have shorter := byteLength_dropFinalSlash_le (dropFinalSlash path)
  have fits := (check_eq_ok_iff.mp accepted).1
  have again : limits.checkPath (join (components path)) = .ok () := by
    rw [Limits.checkPath, check_join _ free, joined, if_neg (by omega)]
  have cleaned := dropFinalSlash_join free
  refine ⟨⟨?_, ?_, ?_⟩, ?_⟩
  · rw [accepted, cleaned, again]
    exact .refl _
  · rw [cleaned, cleaned, joined]
  · rw [components_dropFinalSlash, components_dropFinalSlash, components_join free]
  · rw [cleaned, joined]
    constructor
    · intro root
      rw [root]
      rfl
    · intro root
      rcases dropFinalSlash_eq (dropFinalSlash path) with same | trailing
      · exact same.symm.trans root
      · -- two slashes are an empty component
        have doubled : hasEmptyComponent (dropFinalSlash path).toList = true := by
          rw [trailing, root]
          decide +kernel
        cases doubled.symm.trans (check_eq_ok_iff.mp accepted).2.2

theorem addFinalSlash_addFinalSlash (path : String) :
    addFinalSlash (addFinalSlash path) = addFinalSlash path :=
  if_pos (endsWithSlash_addFinalSlash path)

theorem child_addFinalSlash (path name : String) :
    child (addFinalSlash path) name = child path name := by
  unfold addFinalSlash
  split
  · rfl
  · simp [child]

theorem TwiceClosed.eq_append (twice : TwiceClosed limits path) :
    path = addFinalSlash (join (components path)) ++ "/" ∧
      limits.checkPath (addFinalSlash (join (components path))) = .ok () := by
  obtain ⟨once, rfl, ends, accepted⟩ := twice
  have closed : addFinalSlash once = once := if_pos ends
  have same : components (once ++ "/") = components once := by
    rw [← components_dropFinalSlash (once ++ "/"),
      dropFinalSlash_append_slash (ne_empty_of_check accepted)]
  rw [same, addFinalSlash_join_components (closed.symm ▸ accepted), closed]
  exact ⟨rfl, accepted⟩

end Path

def Fault.OfPath (fault : Fault) : Prop := ∃ path flaw, fault = .malformedPath path flaw

namespace Store

variable {store : Store} {limits : Limits} {path : String} {fault : Fault}

theorem planFile_of_refused (spec : FileSpec) (refused : limits.checkPath path = .error fault) :
    store.planFile limits path spec = .error fault := by
  rw [planFile, refused]
  rfl

section Trimmed

variable (refused : limits.checkPath (Path.dropFinalSlash path) = .error fault)
include refused

theorem planDir_of_refused (tags : Tags) : store.planDir limits path tags = .error fault := by
  rw [planDir, refused]
  rfl

theorem planDelete_of_refused (kind : Kind) : store.planDelete limits kind path = .error fault := by
  rw [planDelete, refused]
  rfl

theorem stat_of_refused : store.stat limits path = .error fault := by
  rw [stat, refused]
  rfl

theorem exportDir_of_refused : store.exportDir limits path = .error fault := by
  rw [exportDir, refused]
  rfl

theorem planRename_of_source_refused (kind : Kind) (target : String) :
    store.planRename limits kind path target = .error fault := by
  rw [planRename, locatePair, refused]
  rfl

theorem planRename_of_target_refused (kind : Kind) {source : String} (isPath : fault.OfPath) :
    ∃ other, store.planRename limits kind source path = .error other ∧ other.OfPath := by
  cases first : limits.checkPath (Path.dropFinalSlash source) with
  | error other =>
    exact ⟨other, planRename_of_source_refused first kind path, _, Path.exists_flaw_of_check first⟩
  | ok _ =>
    refine ⟨fault, ?_, isPath⟩
    rw [planRename, locatePair, first, refused]
    rfl

theorem exists_walk_refused (nonempty : Path.dropFinalSlash path ≠ "") :
    ∃ other, store.walk limits path = .error other ∧ other.OfPath := by
  cases closed : limits.checkPath (Path.addFinalSlash (Path.dropFinalSlash path)) with
  | ok _ =>
    rw [Path.check_of_check_addFinalSlash nonempty closed] at refused
    cases refused
  | error other =>
    exact ⟨other, walk_of_refused nonempty closed, _, Path.exists_flaw_of_check closed⟩

end Trimmed

theorem exists_listDir_refused (malformed : Path.Malformed path) (nonempty : path ≠ "") :
    ∃ fault, store.listDir limits path = .error fault ∧ fault.OfPath := by
  cases closed : limits.checkPath (Path.addFinalSlash path) with
  | ok _ =>
    have accepted := Path.check_of_check_addFinalSlash nonempty closed
    exact absurd malformed (Path.check_eq_ok_iff_malformed.mp accepted).2
  | error fault =>
    exact ⟨fault, listDir_of_refused closed, _, Path.exists_flaw_of_check closed⟩

theorem visits_addFinalSlash (maxLen : Int) (depth : Nat) (path : String) :
    store.visits maxLen (depth + 1) (Path.addFinalSlash path) =
      (store.visits maxLen (depth + 1) path).map
        (List.modifyHead ({ · with path := Path.addFinalSlash path })) := by
  simp only [visits, Path.addFinalSlash_addFinalSlash, Path.child_addFinalSlash]
  cases store.children maxLen (Path.addFinalSlash path) with
  | error fault => rfl
  | ok found =>
    simp only [bind, Except.bind]
    cases found.2.names.mapM (fun name => store.visits maxLen depth (Path.child path name)) <;> rfl

theorem walk_of_twiceClosed (twice : Path.TwiceClosed limits path) :
    store.walk limits path = (store.walk limits (Path.join (Path.components path))).map
      (List.modifyHead ({ · with path := Path.dropFinalSlash path })) := by
  obtain ⟨whole, accepted⟩ := twice.eq_append
  have clean : Path.dropFinalSlash (Path.join (Path.components path)) =
      Path.join (Path.components path) :=
    Path.dropFinalSlash_join fun name => Path.isName_of_mem_components
  have present := Path.join_ne_empty (Path.components path)
  generalize Path.join (Path.components path) = start at *
  have nonempty := Path.ne_empty_of_check accepted
  have trimmed : Path.dropFinalSlash path = Path.addFinalSlash start := by
    rw [whole, Path.dropFinalSlash_append_slash nonempty]
  have listed : store.listDir limits (Path.addFinalSlash start) = store.listDir limits start := by
    rw [listDir, Path.addFinalSlash_addFinalSlash]
    rfl
  rw [walk, walk, trimmed, clean, if_neg nonempty, if_neg present, listed, visits_addFinalSlash]
  cases store.listDir limits start <;> rfl

end Store

namespace FileSystem

variable {σ : Type} {fs : FileSystem σ} {world : World σ} {depth : Nat} {path : String}
  {fault : Fault}

def Rejects (fs : FileSystem σ) (depth : Nat) (world : World σ) (call : Call) : Prop :=
  (∃ fault, (fs.perform depth (.call call) world).1 = .error fault ∧ fault.OfPath) ∧
    (fs.perform depth (.call call) world).2.host.committed = world.host.committed

/-- Calls by an accepted caller about one entry, as functions of its path, or of one of the two
paths of a rename. -/
inductive PointCall (fs : FileSystem σ) : (String → Call) → Prop where
  | createDir {caller : Option String} (accepted : checkCaller fs.owner caller = .ok ())
    (tags : Tags) :
    PointCall fs fun path => .mutate caller (.createDir path tags)
  | renameFrom {caller : Option String} (accepted : checkCaller fs.owner caller = .ok ())
    (kind : Kind) (target : String) : PointCall fs fun path =>
      .mutate caller (.rename kind path target)
  | renameTo {caller : Option String} (accepted : checkCaller fs.owner caller = .ok ())
    (kind : Kind) (source : String) : PointCall fs fun path =>
      .mutate caller (.rename kind source path)
  | deleteFile {caller : Option String} (accepted : checkCaller fs.owner caller = .ok ()) :
    PointCall fs fun path => .mutate caller (.deleteFile path)
  | deleteDir {caller : Option String} (accepted : checkCaller fs.owner caller = .ok ()) :
    PointCall fs fun path => .mutate caller (.deleteDir path)
  | stat : PointCall fs fun path => .query (.stat path)
  | exportDir : PointCall fs fun path => .query (.exportDir path)

inductive Question : (String → Call) → Prop where
  | pathExists : Question .pathExists
  | isDir : Question .isDir
  | isFile : Question .isFile

theorem rejects_mutation {caller : Option String} {m : Mutation}
    (admitted : fs.turnAway caller m world = .ok ())
    (unplanned : ∃ fault, m.plan fs.limits world.host.committed.clone = .error fault ∧
      fault.OfPath) :
    fs.Rejects depth world (.mutate caller m) := by
  obtain ⟨_, failed, path, flaw, rfl⟩ := unplanned
  have applied : (m.apply fs.limits (fs.clock world.ticks) world.host.committed.clone).result =
      .error (.malformedPath path flaw) := by
    rw [Mutation.apply_eq_after, failed]
    rfl
  have silent : m.collision? (.malformedPath path flaw) = none := by
    cases m <;> rfl
  exact ⟨⟨_, (perform_of_error admitted applied silent).1, path, flaw, rfl⟩,
    (perform_of_error admitted applied silent).2⟩

theorem rejects_query {q : Query} (lockFree : world.lockFree = true)
    (failed : ∃ fault, q.run fs.limits world.host.committed = .error fault ∧ fault.OfPath) :
    fs.Rejects depth world (.query q) := by
  obtain ⟨fault, failed, ofPath⟩ := failed
  have answered : fs.perform depth (.call (.query q)) world = (.error fault, world) := by
    rw [perform_eq_step]
    simp only [step, respond, query, read, if_pos lockFree, failed]
  rw [Rejects, answered]
  exact ⟨⟨fault, rfl, ofPath⟩, rfl⟩

theorem PointCall.rejects {call : String → Call} (point : fs.PointCall call)
    (lockFree : world.lockFree = true)
    (refused : fs.limits.checkPath (Path.dropFinalSlash path) = .error fault) :
    fs.Rejects depth world (call path) := by
  have ofPath : fault.OfPath := ⟨_, Path.exists_flaw_of_check refused⟩
  have admitted {caller : Option String} {m : Mutation}
      (accepted : checkCaller fs.owner caller = .ok ()) (unchecked : precheck m = .ok ()) :
          fs.turnAway caller m world = .ok () :=
    turnAway_eq_ok_iff.mpr ⟨unchecked, lockFree, checkCaller_eq_ok_iff.mp accepted⟩
  cases point with
  | createDir accepted tags =>
    exact rejects_mutation (admitted accepted rfl)
      ⟨fault, map_eq_error_iff.mpr (Store.planDir_of_refused refused tags), ofPath⟩
  | renameFrom accepted kind =>
    exact rejects_mutation (admitted accepted rfl)
      ⟨fault, map_eq_error_iff.mpr (Store.planRename_of_source_refused refused kind _), ofPath⟩
  | renameTo accepted kind =>
    obtain ⟨other, unplanned, otherOfPath⟩ := Store.planRename_of_target_refused refused kind ofPath
    exact rejects_mutation (admitted accepted rfl)
      ⟨other, map_eq_error_iff.mpr unplanned, otherOfPath⟩
  | deleteFile accepted | deleteDir accepted =>
    exact rejects_mutation (admitted accepted rfl)
      ⟨fault, map_eq_error_iff.mpr (Store.planDelete_of_refused refused _), ofPath⟩
  | stat =>
    exact rejects_query lockFree
      ⟨fault, map_eq_error_iff.mpr (Store.stat_of_refused refused), ofPath⟩
  | exportDir =>
    exact rejects_query lockFree
      ⟨fault, map_eq_error_iff.mpr (Store.exportDir_of_refused refused), ofPath⟩

theorem probe_of_refused (lockFree : world.lockFree = true)
    (refused : fs.limits.checkPath (Path.dropFinalSlash path) = .error fault) (root : Bool)
    (view : Listing → Bool) :
    fs.probe path root view world = .ok (.flag false) := by
  have notRoot : Path.dropFinalSlash path ≠ "/" := by
    intro isRoot
    rw [isRoot, fs.limits.checkPath_root] at refused
    cases refused
  obtain ⟨flaw, rfl⟩ := Path.exists_flaw_of_check refused
  simp only [probe, if_neg notRoot, read, if_pos lockFree, Store.stat_of_refused refused]
  rfl

theorem Question.answer_of_refused {call : String → Call} (question : Question call)
    (lockFree : world.lockFree = true)
    (refused : fs.limits.checkPath (Path.dropFinalSlash path) = .error fault) :
    fs.perform depth (.call (call path)) world = (.ok (.flag false), world) := by
  rw [perform_eq_step]
  cases question <;>
    exact congrArg (·, world) (probe_of_refused lockFree refused _ _)

theorem PointCall.sameTargets {call : String → Call} (point : fs.PointCall call) {other : String}
    (same : Path.SameUse fs.limits path other) :
    Step.SameTargets fs.limits (.call (call path)) (.call (call other)) := by
  cases point with
  | createDir _ tags => exact .call (.mutate _ (.createDir same tags))
  | renameFrom _ kind => exact .call (.mutate _ (.rename kind same (.refl _ _)))
  | renameTo _ kind => exact .call (.mutate _ (.rename kind (.refl _ _) same))
  | deleteFile => exact .call (.mutate _ (.deleteFile same))
  | deleteDir => exact .call (.mutate _ (.deleteDir same))
  | stat => exact .call (.query (.stat same))
  | exportDir => exact .call (.query (.exportDir same))

theorem Question.sameTargets {limits : Limits} {call : String → Call} (question : Question call)
    {other : String} (same : Path.SameUse limits path other) :
    Step.SameTargets limits (.call (call path)) (.call (call other)) := by
  cases question with
  | pathExists => exact .call (.pathExists same)
  | isDir => exact .call (.isDir same)
  | isFile => exact .call (.isFile same)

/-- The call ends as with the other path, if the listener does not look at paths. -/
def TakesAs (fs : FileSystem σ) (depth : Nat) (world : World σ) (call : String → Call)
    (path other : String) : Prop :=
  ∀ same, fs.PathBlind same → same world.listener world.listener →
    EndAlike same AnsweredAlike (fs.perform depth (.call (call path)) world)
      (fs.perform depth (.call (call other)) world)

end FileSystem

/-- A malformed path is refused by every call and not found by any question, with two exceptions.
The empty path is enumerated as the root. A path that would be acceptable with one final slash less
is taken for the path of its names, except by a create of a file and by a listing. -/
theorem malformed_refused_unless_closed_twice {σ : Type} (fs : FileSystem σ) (world : World σ)
    (lockFree : world.lockFree = true) (path : String) (malformed : Path.Malformed path)
    (depth : Nat) :
    (∀ caller spec, checkCaller fs.owner caller = .ok () →
      fs.Rejects depth world (.mutate caller (.createFile path spec))) ∧
    (path ≠ "" → fs.Rejects depth world (.query (.listDir path))) ∧
    (path = "" →
      fs.perform depth (.call (.query (.listDir path))) world =
        fs.perform depth (.call (.query (.listDir "/"))) world ∧
      fs.perform depth (.call (.query (.walk path))) world =
        fs.perform depth (.call (.query (.walk "/"))) world) ∧
    (¬ Path.TwiceClosed fs.limits path →
      (∀ call, fs.PointCall call → fs.Rejects depth world (call path)) ∧
      (∀ call, FileSystem.Question call →
        fs.perform depth (.call (call path)) world = (.ok (.flag false), world)) ∧
      (path ≠ "" → fs.Rejects depth world (.query (.walk path)))) ∧
    (Path.TwiceClosed fs.limits path →
      (∀ call, fs.PointCall call ∨ FileSystem.Question call →
        fs.TakesAs depth world call path (Path.join (Path.components path))) ∧
      world.host.committed.walk fs.limits path =
        (world.host.committed.walk fs.limits (Path.join (Path.components path))).map
          (List.modifyHead ({ · with path := Path.dropFinalSlash path }))) := by
  refine ⟨?_, ?_, ?_, ?_, ?_⟩
  · intro caller spec accepted
    have admitted : fs.turnAway caller (.createFile path spec) world = .ok () :=
      FileSystem.turnAway_eq_ok_iff.mpr ⟨rfl, lockFree, checkCaller_eq_ok_iff.mp accepted⟩
    cases checked : fs.limits.checkPath path with
    | ok _ => exact absurd malformed (Path.check_eq_ok_iff_malformed.mp checked).2
    | error fault =>
      exact FileSystem.rejects_mutation admitted
        ⟨fault, map_eq_error_iff.mpr (Store.planFile_of_refused spec checked), _,
          Path.exists_flaw_of_check checked⟩
  · intro nonempty
    obtain ⟨fault, unlisted, ofPath⟩ := Store.exists_listDir_refused malformed nonempty
    exact FileSystem.rejects_query lockFree ⟨fault, map_eq_error_iff.mpr unlisted, ofPath⟩
  · rintro rfl
    -- with a slash added the empty path is the root, so that both sides compute alike
    constructor <;> rw [FileSystem.perform_query rfl, FileSystem.perform_query rfl] <;> rfl
  · intro once
    cases checked : fs.limits.checkPath (Path.dropFinalSlash path) with
    | ok _ => exact absurd ((Path.check_dropFinalSlash_iff malformed).mp checked) once
    | error fault =>
      refine ⟨fun call point => point.rejects lockFree checked, ?_, fun nonempty => ?_⟩
      · intro call question
        exact question.answer_of_refused lockFree checked
      · obtain ⟨fault, unwalked, ofPath⟩ : ∃ other, world.host.committed.walk fs.limits path =
          .error other ∧ other.OfPath :=
          Store.exists_walk_refused checked (Path.dropFinalSlash_ne_empty nonempty)
        exact FileSystem.rejects_query lockFree ⟨fault, map_eq_error_iff.mpr unwalked, ofPath⟩
  · intro twice
    have same := Path.sameUse_join ((Path.check_dropFinalSlash_iff malformed).mpr twice)
    refine ⟨fun call used relation blind listener => ?_, Store.walk_of_twiceClosed twice⟩
    have steps : Step.SameTargets fs.limits (.call (call path))
        (.call (call (Path.join (Path.components path)))) :=
      used.elim (·.sameTargets same) (·.sameTargets same)
    exact FileSystem.alike_perform blind depth _ _ _ _ steps (.refl listener)

theorem malformed_paths_accepted :
    let dir (path : String) : Call := .mutate none (.createDir path (.items []))
    let answer := fun call => (FileSystem.roomy.perform 0 (.call call) FileSystem.populated).1
    FileSystem.roomy.Reachable FileSystem.populated ∧ FileSystem.populated.lockFree = true ∧
      Path.Malformed "" ∧ Path.Malformed "//" ∧ Path.Malformed "/d//" ∧ Path.Malformed "/b//" ∧
      answer (dir "/b//") = .ok (.id 8) ∧
      answer (.query (.listDir "")) = answer (.query (.listDir "/")) ∧
      answer (.query (.stat "/d/e//")) = .ok (.reply (.listing ⟨"e", 7, true, [], 0, "", 0⟩)) ∧
      answer (.pathExists "/d//") = .ok (.flag true) ∧ answer (.isDir "//") = .ok (.flag true) := by
  intro dir answer
  have malformed (path : String) (doubled : Path.hasEmptyComponent path.toList = true) :
      Path.Malformed path :=
    Or.inr (Or.inr (Path.hasEmptyComponent_iff.mp doubled))
  refine ⟨FileSystem.reachable_populated, ?_, Or.inl rfl, malformed _ ?_, malformed _ ?_,
    malformed _ ?_, ?_, ?_, ?_, ?_, ?_⟩ <;> decide +kernel

theorem malformed_refused_unless_closed_twice_populated :
    let world := FileSystem.populated
    let answer := fun call => (FileSystem.roomy.perform 0 (.call call) world).1
    world.lockFree = true ∧ Path.Malformed "/d//e" ∧ Path.Malformed "/d//" ∧
      FileSystem.roomy.Rejects 0 world (.mutate none (.deleteDir "/d//e")) ∧
      FileSystem.roomy.Rejects 0 world (.query (.walk "/d//e")) ∧
      FileSystem.roomy.Rejects 0 world (.query (.listDir "/d//")) ∧
      answer (.pathExists "/d//e") = .ok (.flag false) ∧
      FileSystem.roomy.TakesAs 0 world .isFile "/d//" "/d" ∧
      answer (.isFile "/d") = .ok (.flag true) := by
  intro world answer
  have lockFree : world.lockFree = true := by decide +kernel
  have malformed (path : String) (doubled : Path.hasEmptyComponent path.toList = true) :
      Path.Malformed path :=
    Or.inr (Or.inr (Path.hasEmptyComponent_iff.mp doubled))
  have inner := malformed "/d//e" (by decide +kernel)
  have final := malformed "/d//" (by decide +kernel)
  have unaccepted : ¬ Path.TwiceClosed FileSystem.roomy.limits "/d//e" := by
    intro twice
    exact absurd ((Path.check_dropFinalSlash_iff inner).mpr twice) (by decide +kernel)
  have twice : Path.TwiceClosed FileSystem.roomy.limits "/d//" :=
    (Path.check_dropFinalSlash_iff final).mp (by decide +kernel)
  obtain ⟨-, -, -, refused, -⟩ :=
    malformed_refused_unless_closed_twice FileSystem.roomy world lockFree "/d//e" inner 0
  obtain ⟨points, questions, walks⟩ := refused unaccepted
  obtain ⟨-, lists, -, -, taken⟩ :=
    malformed_refused_unless_closed_twice FileSystem.roomy world lockFree "/d//" final 0
  have nonempty (path : String) (long : path.toList ≠ []) : path ≠ "" :=
    fun empty => long (empty ▸ rfl)
  have names : Path.join (Path.components "/d//") = "/d" := by decide +kernel
  have takenAs := (taken twice).1 Call.isFile (Or.inr .isFile)
  rw [names] at takenAs
  refine ⟨lockFree, inner, final, ?_, walks ?_, lists ?_, ?_, takenAs, ?_⟩
  · exact points (fun path => .mutate none (.deleteDir path)) (.deleteDir rfl)
  · exact nonempty "/d//e" (by decide +kernel)
  · exact nonempty "/d//" (by decide +kernel)
  · exact congrArg Prod.fst (questions Call.pathExists .pathExists)
  · decide +kernel

end NameTree
