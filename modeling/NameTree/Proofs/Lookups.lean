import NameTree.Proofs.Listable
import NameTree.Proofs.Renaming

/-!
Looking one entry up by its path, and listing the directory that it is in. Both agree on what is
there and on what is shown of it. A path that leads nowhere is reported as absent, whatever it is
that is missing.
-/

namespace NameTree

section Components

/-- The fault is one that a question about existence answers with "no". -/
abbrev Absent {α : Type} (result : Except Fault α) : Prop :=
  FailsOnly (fun fault => fault.meansAbsent = true) result

theorem Path.absent_checkLength (field : String) (limit : Int) (text : String) :
    Absent (Path.checkLength field limit text) := by
  unfold Path.checkLength
  split
  · exact .error rfl
  · exact .ok ()

theorem Path.absent_checkComponents (limit : Int) (names : List String) :
    Absent (Path.checkComponents limit names) :=
  .forM fun name => absent_checkLength _ limit name

theorem Path.exists_join_concat {limit : Int} {path : String} (accepted : check limit path = .ok ())
    (notRoot : path ≠ "/") (bare : endsWithSlash path = false) :
    ∃ front leaf, path = join (front ++ [leaf]) ∧ components path = front ++ [leaf] := by
  have joined : join (components path) = path := by
    rw [join_components accepted, dropFinalSlash_of_bare (Or.inr bare)]
  have nonempty : components path ≠ [] := by
    intro empty
    rw [empty] at joined
    exact notRoot joined.symm
  obtain ⟨front, leaf, split⟩ := (List.eq_nil_or_concat' (components path)).resolve_left nonempty
  exact ⟨front, leaf, split ▸ joined.symm, split⟩

end Components

namespace Store

variable {store : Store} {limits : Limits} {path leaf : String} {front : List String}
  {place : Place} {kind : Kind} {entry : Listing}

/-- What is shown of the entry of one kind that `front ++ [leaf]` leads to. -/
def Shows (store : Store) (kind : Kind) (front : List String) (leaf : String)
    (entry : Listing) : Prop :=
  ∃ id, store.resolve? kind (front ++ [leaf]) = some id ∧ store.listing kind leaf id = .ok entry

theorem Shows.isDir_iff (shows_ : store.Shows kind front leaf entry) : entry.isDir = true ↔
    kind = .dir := by
  obtain ⟨id, -, shown⟩ := shows_
  exact (of_listing shown).2

theorem Shows.resolve?_ne_none (shows_ : store.Shows kind front leaf entry) :
    store.resolve? kind (front ++ [leaf]) ≠ none := by
  obtain ⟨id, found, -⟩ := shows_
  rw [found]
  exact Option.some_ne_none id

theorem Shows.unique {other : Listing} (shows_ : store.Shows kind front leaf entry)
    (again : store.Shows kind front leaf other) : other = entry := by
  obtain ⟨id, found, shown⟩ := shows_
  obtain ⟨id', found', shown'⟩ := again
  cases found.symm.trans found'
  cases shown.symm.trans shown'
  rfl

section Stat

theorem stat_of_unlocated {fault : Fault}
    (checked : limits.checkPath (Path.dropFinalSlash path) = .ok ())
    (lost : store.locate limits.maxStringLen (Path.dropFinalSlash path) = .error fault) :
    store.stat limits path = .error fault := by
  unfold stat
  simp only [checked, lost, bind, Except.bind]

theorem locate_of_long {maxLen : Int} {fault : Fault}
    (split : Path.components path = front ++ [leaf])
    (long : Path.checkComponents maxLen (front ++ [leaf]) = .error fault) :
    store.locate maxLen path = .error fault := by
  have parted : Path.components (Path.dropFinalSlash path) = front ++ [leaf] := by
    rw [Path.components_dropFinalSlash, split]
  unfold locate
  simp only [if_neg (Path.dropFinalSlash_ne_root split), parted, List.getLast?_concat, long]
  rfl

/-- The three ways in which a look at an acceptable path can end. -/
inductive Looked (store : Store) (front : List String) (leaf : String) :
    Except Fault Listing → Prop where
  | file {entry : Listing} (shows_ : store.Shows .file front leaf entry) :
    Looked store front leaf (.ok entry)
  | dir {entry : Listing} (shows_ : store.Shows .dir front leaf entry)
    (noFile : store.resolve? .file (front ++ [leaf]) = none) : Looked store front leaf (.ok entry)
  | absent {fault : Fault} (nothing : ∀ kind, store.resolve? kind (front ++ [leaf]) = none)
    (absent : fault.meansAbsent = true) : Looked store front leaf (.error fault)

theorem Linked.looked (linked : store.Linked) (named : store.Named limits)
    (checked : limits.checkPath (Path.dropFinalSlash path) = .ok ())
    (split : Path.components path = front ++ [leaf]) :
    store.Looked front leaf (store.stat limits path) := by
  have parted : Path.components (Path.dropFinalSlash path) = front ++ [leaf] := by
    rw [Path.components_dropFinalSlash, split]
  cases short : Path.checkComponents limits.maxStringLen (front ++ [leaf]) with
  | error fault =>
    rw [stat_of_unlocated checked (locate_of_long parted short)]
    refine .absent (fun kind => ?_) (Path.absent_checkComponents _ _ _ short)
    -- what is bound has names that are short enough
    cases found : store.resolve? kind (front ++ [leaf]) with
    | none => rfl
    | some id =>
      rw [Path.checkComponents_eq_ok_iff.mpr fun name member =>
        (named.of_resolve? found name member).2] at short
      cases short
  | ok _ =>
    have located := linked.locate_eq parted short
    cases led : store.follow none front with
    | none =>
      rw [led] at located
      rw [stat_of_unlocated checked located]
      refine .absent (fun kind => ?_) rfl
      rw [resolve?_concat, led]
      rfl
    | some place =>
      rw [led] at located
      have resolved (kind : Kind) := resolve?_concat_of_follow led kind leaf
      rw [stat_of_located checked located]
      cases file : store.binding? .file place leaf with
      | some id =>
        obtain ⟨entry, shown⟩ := exists_listing (linked.recorded file) leaf
        dsimp only
        rw [shown]
        exact .file ⟨id, (resolved .file).trans file, shown⟩
      | none =>
        cases dir : store.binding? .dir place leaf with
        | some id =>
          obtain ⟨entry, shown⟩ := exists_listing (linked.recorded dir) leaf
          dsimp only
          rw [shown]
          exact .dir ⟨id, (resolved .dir).trans dir, shown⟩ ((resolved .file).trans file)
        | none =>
          refine .absent (fun kind => ?_) rfl
          cases kind
          · exact (resolved .file).trans file
          · exact (resolved .dir).trans dir

end Stat

section Listed

variable {entries : List Listing}

theorem mem_listings_iff {index : Index} (present : store.index kind place = .ok index)
    (listed : store.listings kind index = .ok entries) : entry ∈ entries ↔
      ∃ id, store.binding? kind place entry.name = some id ∧
        store.listing kind entry.name id = .ok entry := by
  rw [mem_of_mapM listed, ← links_of_index present, Prod.exists]
  constructor
  · rintro ⟨name, id, bound, shown⟩
    obtain ⟨rfl, -⟩ := of_listing shown
    exact ⟨id, mem_links_iff.mp bound, shown⟩
  · rintro ⟨id, bound, shown⟩
    exact ⟨entry.name, id, mem_links_iff.mpr bound, shown⟩

structure ListsKind (store : Store) (kind : Kind) (place : Place)
    (entries : List Listing) : Prop where
  mem_iff : ∀ entry, entry ∈ entries ↔
    ∃ id, store.binding? kind place entry.name = some id ∧
      store.listing kind entry.name id = .ok entry
  names : entries.map Listing.name = store.names kind place

theorem ListsKind.isDir_iff (lists : store.ListsKind kind place entries)
    (member : entry ∈ entries) :
    entry.isDir = true ↔ kind = .dir := by
  obtain ⟨id, -, shown⟩ := (lists.mem_iff entry).mp member
  exact (of_listing shown).2

theorem ListsKind.nodup (lists : store.ListsKind kind place entries) :
    (entries.map Listing.name).Nodup := by
  rw [lists.names]
  exact store.nodup_names kind place

theorem Linked.listsKind (linked : store.Linked) {index : Index}
    (present : store.index kind place = .ok index)
    (listed : store.listings kind index = .ok entries) : store.ListsKind kind place entries := by
  obtain ⟨shown, listedAgain, names⟩ := linked.exists_listings present
  cases listed.symm.trans listedAgain
  exact ⟨fun entry => mem_listings_iff present listed, names⟩

theorem Linked.of_listDir (linked : store.Linked)
    (listed : store.listDir limits path = .ok entries) :
    ∃ place dirs files, store.follow none (Path.components path) = some place ∧
      entries = dirs ++ files ∧
      store.ListsKind .dir place dirs ∧ store.ListsKind .file place files := by
  obtain ⟨_, -, continued⟩ := bind_eq_ok_iff.mp listed
  obtain ⟨⟨files, dirs⟩, found, continued⟩ := bind_eq_ok_iff.mp continued
  obtain ⟨dirEntries, dirsListed, continued⟩ := bind_eq_ok_iff.mp continued
  obtain ⟨fileEntries, filesListed, same⟩ := bind_eq_ok_iff.mp continued
  cases same
  obtain ⟨-, -, place, led, files_at, dirs_at⟩ := children_eq_ok_iff.mp found
  rw [Path.components_addFinalSlash] at led
  exact ⟨place, dirEntries, fileEntries, led, rfl, linked.listsKind dirs_at dirsListed,
    linked.listsKind files_at filesListed⟩

theorem Linked.exists_parts (linked : store.Linked)
    (listed : store.listDir limits path = .ok entries) :
    ∃ dirs files, entries = dirs ++ files ∧ (∀ entry ∈ dirs, entry.isDir = true) ∧
      (∀ entry ∈ files, entry.isDir = false) ∧ (dirs.map Listing.name).Nodup ∧
      (files.map Listing.name).Nodup := by
  obtain ⟨place, dirs, files, -, parts, listsDirs, listsFiles⟩ := linked.of_listDir listed
  refine ⟨dirs, files, parts, fun entry member => (listsDirs.isDir_iff member).mpr rfl, ?_,
    listsDirs.nodup, listsFiles.nodup⟩
  intro entry member
  rw [← Bool.not_eq_true, listsFiles.isDir_iff member]
  exact Kind.noConfusion

theorem Linked.mem_listDir_iff (linked : store.Linked) (free : ∀ name ∈ front, Path.IsName name)
    (listed : store.listDir limits (Path.join front) = .ok entries) :
    entry ∈ entries ∧ entry.name = leaf ∧ (entry.isDir = true ↔ kind = .dir) ↔
      store.Shows kind front leaf entry := by
  obtain ⟨place, dirs, files, led, rfl, listsDirs, listsFiles⟩ := linked.of_listDir listed
  rw [Path.components_join free] at led
  rw [Shows, resolve?_concat_of_follow led]
  constructor
  · rintro ⟨member, rfl, isKind⟩
    rcases List.mem_append.mp member with inDirs | inFiles
    · obtain rfl : kind = .dir := isKind.mp ((listsDirs.isDir_iff inDirs).mpr rfl)
      exact (listsDirs.mem_iff entry).mp inDirs
    · have notDir : kind ≠ .dir := by
        intro isDir
        cases (listsFiles.isDir_iff inFiles).mp (isKind.mpr isDir)
      obtain rfl : kind = .file := by
        cases kind
        · rfl
        · exact absurd rfl notDir
      exact (listsFiles.mem_iff entry).mp inFiles
  · rintro ⟨id, bound, shown⟩
    obtain ⟨rfl, isKind⟩ := of_listing shown
    refine ⟨?_, rfl, isKind⟩
    cases kind with
    | dir => exact List.mem_append_left _ ((listsDirs.mem_iff entry).mpr ⟨id, bound, shown⟩)
    | file => exact List.mem_append_right _ ((listsFiles.mem_iff entry).mpr ⟨id, bound, shown⟩)

theorem Linked.exists_listDir_of_shows (linked : store.Linked) (named : store.Named limits)
    (accepted : limits.checkPath (Path.join (front ++ [leaf])) = .ok ())
    (shows_ : store.Shows kind front leaf entry) :
    ∃ entries, store.listDir limits (Path.join front) = .ok entries := by
  obtain ⟨id, found, -⟩ := shows_
  obtain ⟨place, led, -⟩ := resolve?_concat_eq_some_iff.mp found
  have free : ∀ name ∈ front, Path.IsName name :=
    fun name member => (named.of_follow led name member).1
  have closed := Path.check_addFinalSlash_front free limits.checkPath_root accepted
  obtain ⟨entries, listed, -⟩ := linked.exists_listDir named led closed
  exact ⟨entries, listed⟩

section Parent

variable (linked : store.Linked) (named : store.Named limits)
  (free : ∀ name ∈ front, Path.IsName name)
  (accepted : limits.checkPath (Path.join (front ++ [leaf])) = .ok ())
include linked named free accepted

theorem Linked.exists_file_entry_iff :
    (∃ entries, store.listDir limits (Path.join front) = .ok entries ∧
      ∃ entry ∈ entries, entry.isDir = false ∧ entry.name = leaf) ↔
        ∃ entry, store.Shows .file front leaf entry := by
  constructor
  · rintro ⟨entries, listed, entry, member, isFile, isNamed⟩
    exact ⟨entry, (linked.mem_listDir_iff free listed).mp ⟨member, isNamed, by simp [isFile]⟩⟩
  · rintro ⟨entry, shows_⟩
    obtain ⟨entries, listed⟩ := linked.exists_listDir_of_shows named accepted shows_
    obtain ⟨member, isNamed, isKind⟩ := (linked.mem_listDir_iff free listed).mpr shows_
    exact ⟨entries, listed, entry, member, by simpa using isKind, isNamed⟩

theorem Linked.exists_dir_entry_iff :
    (∃ entries, store.listDir limits (Path.join front) = .ok entries ∧
      (∃ entry ∈ entries, entry.isDir = true ∧ entry.name = leaf) ∧
      ∀ entry ∈ entries, entry.isDir = false → entry.name ≠ leaf) ↔
      (∃ entry, store.Shows .dir front leaf entry) ∧
      ∀ entry, ¬ store.Shows .file front leaf entry := by
  constructor
  · rintro ⟨entries, listed, ⟨entry, member, isDir, isNamed⟩, noFile⟩
    refine ⟨⟨entry, (linked.mem_listDir_iff free listed).mp ⟨member, isNamed, by simp [isDir]⟩⟩, ?_⟩
    intro other shows_
    obtain ⟨there, isNamed, isKind⟩ := (linked.mem_listDir_iff free listed).mpr shows_
    exact noFile other there (by simpa using isKind) isNamed
  · rintro ⟨⟨entry, shows_⟩, noFile⟩
    obtain ⟨entries, listed⟩ := linked.exists_listDir_of_shows named accepted shows_
    obtain ⟨member, isNamed, isKind⟩ := (linked.mem_listDir_iff free listed).mpr shows_
    refine ⟨entries, listed, ⟨entry, member, isKind.mpr rfl, isNamed⟩, ?_⟩
    intro other there isFile isNamed
    exact noFile other ((linked.mem_listDir_iff free listed).mp ⟨there, isNamed, by simp [isFile]⟩)

end Parent

end Listed

end Store

variable {σ : Type}

/-- How the three questions about a path are answered. -/
structure FileSystem.Finds (fs : FileSystem σ) (depth : Nat) (world : World σ) (path : String)
    (isFile isDir : Bool) : Prop where
  pathExists : fs.perform depth (.call (.pathExists path)) world =
    (.ok (.flag (isFile || isDir)), world)
  isDir : fs.perform depth (.call (.isDir path)) world = (.ok (.flag isDir), world)
  isFile : fs.perform depth (.call (.isFile path)) world = (.ok (.flag isFile), world)

def FileSystem.Lists (fs : FileSystem σ) (depth : Nat) (world : World σ) (path : String)
    (entries : List Listing) : Prop :=
  fs.perform depth (.call (.query (.listDir path))) world =
    (.ok (.reply (.listings entries)), world)

namespace FileSystem

variable {fs : FileSystem σ} {depth : Nat} {world : World σ} {path : String} {entry : Listing}
  {entries : List Listing} (lockFree : world.lockFree = true)
include lockFree

theorem lists_iff : fs.Lists depth world path entries ↔
    world.host.committed.listDir fs.limits path = .ok entries := by
  unfold Lists
  rw [perform_query rfl, read, if_pos lockFree, Query.run]
  cases world.host.committed.listDir fs.limits path <;> simp [Except.map]

theorem finds_of_stat (notRoot : Path.dropFinalSlash path ≠ "/")
    (shown : world.host.committed.stat fs.limits path = .ok entry) :
    fs.Finds depth world path (!entry.isDir) entry.isDir := by
  have answered (root : Bool) (view : Listing → Bool) : fs.probe path root view world =
      .ok (.flag (view entry)) := by
    simp only [probe, if_neg notRoot, read, if_pos lockFree, shown]
  constructor <;> rw [perform_eq_step]
  · rw [Bool.not_or_self]
    exact congrArg (·, world) (answered true _)
  · exact congrArg (·, world) (answered true _)
  · exact congrArg (·, world) (answered false _)

theorem finds_of_absent {fault : Fault} (notRoot : Path.dropFinalSlash path ≠ "/")
    (lost : world.host.committed.stat fs.limits path = .error fault)
    (absent : fault.meansAbsent = true) :
    fs.Finds depth world path false false := by
  have answered (root : Bool) (view : Listing → Bool) : fs.probe path root view world =
      .ok (.flag false) := by
    simp only [probe, if_neg notRoot, read, if_pos lockFree, lost, absent, if_true]
  constructor <;> rw [perform_eq_step]
  · exact congrArg (·, world) (answered true _)
  · exact congrArg (·, world) (answered true _)
  · exact congrArg (·, world) (answered false _)

end FileSystem

theorem FileSystem.exists_finds (fs : FileSystem σ) (depth : Nat) {world : World σ}
    {path leaf : String} {front : List String} (lockFree : world.lockFree = true)
    (notRoot : Path.dropFinalSlash path ≠ "/")
    (looked : world.host.committed.Looked front leaf (world.host.committed.stat fs.limits path)) :
    ∃ isFile isDir, fs.Finds depth world path isFile isDir ∧
      (isFile = true ↔ ∃ entry, world.host.committed.Shows .file front leaf entry) ∧
      (isDir = true ↔ (∃ entry, world.host.committed.Shows .dir front leaf entry) ∧
        ∀ entry, ¬ world.host.committed.Shows .file front leaf entry) ∧
      ∀ kind entry, world.host.committed.Shows kind front leaf entry →
        (kind = .dir ↔ isFile = false) →
        fs.perform depth (.call (.query (.stat path))) world =
          (.ok (.reply (.listing entry)), world) := by
  have stat_eq {entry : Listing} (shown : world.host.committed.stat fs.limits path = .ok entry) :
      fs.perform depth (.call (.query (.stat path))) world =
        (.ok (.reply (.listing entry)), world) := by
    rw [perform_stat lockFree, shown]
    rfl
  generalize answered : world.host.committed.stat fs.limits path = result at looked
  cases looked with
  | @file entry shows_ =>
    have isFile : entry.isDir = false := by
      rw [← Bool.not_eq_true, shows_.isDir_iff]
      exact Kind.noConfusion
    have finds : fs.Finds depth world path (!entry.isDir) entry.isDir :=
      finds_of_stat lockFree notRoot answered
    rw [isFile] at finds
    refine ⟨true, false, finds, by simpa using ⟨entry, shows_⟩, by simpa using fun _ _ =>
      ⟨entry, shows_⟩, ?_⟩
    intro kind other shown isKind
    cases kind with
    | file => exact stat_eq (shows_.unique shown ▸ answered)
    | dir => cases isKind.mp rfl
  | @dir entry shows_ noFile =>
    have finds : fs.Finds depth world path (!entry.isDir) entry.isDir :=
      finds_of_stat lockFree notRoot answered
    rw [shows_.isDir_iff.mpr rfl] at finds
    have hides (other : Listing) : ¬ world.host.committed.Shows .file front leaf other :=
      fun shown => shown.resolve?_ne_none noFile
    refine ⟨false, true, finds, by simpa using hides, by simpa using ⟨⟨entry, shows_⟩, hides⟩, ?_⟩
    intro kind other shown isKind
    obtain rfl : kind = .dir := isKind.mpr rfl
    exact stat_eq (shows_.unique shown ▸ answered)
  | absent nothing absent =>
    have hides (kind : Kind) (other : Listing) :
        ¬ world.host.committed.Shows kind front leaf other :=
      fun shown => shown.resolve?_ne_none (nothing kind)
    refine ⟨false, false, finds_of_absent lockFree notRoot answered
      absent, by simpa using hides .file,
      by simpa using fun other shown => absurd shown (hides .dir other), ?_⟩
    intro kind other shown
    exact absurd shown (hides kind other)

/-- What the questions about a path and its status say is what the listing of its parent shows: a
file, or a directory that no file hides, or nothing. -/
theorem lookups_agree_with_listing (fs : FileSystem σ) (stepsOnly : fs.StepsOnly) (world : World σ)
    (reachable : fs.Reachable world) (lockFree : world.lockFree = true) (depth : Nat)
    (path : String) (accepted : fs.limits.checkPath path = .ok ()) (notRoot : path ≠ "/")
    (bare : Path.endsWithSlash path = false) :
    ∃ front leaf isFile isDir, path = Path.join (front ++ [leaf]) ∧
      Path.components path = front ++ [leaf] ∧
      fs.Finds depth world path isFile isDir ∧ ¬ (isFile = true ∧ isDir = true) ∧
      (isFile = true ↔ ∃ entries, fs.Lists depth world (Path.join front) entries ∧
        ∃ entry ∈ entries, entry.isDir = false ∧ entry.name = leaf) ∧
      (isDir = true ↔ ∃ entries, fs.Lists depth world (Path.join front) entries ∧
        (∃ entry ∈ entries, entry.isDir = true ∧ entry.name = leaf) ∧
        ∀ entry ∈ entries, entry.isDir = false → entry.name ≠ leaf) ∧
      ∀ entries, fs.Lists depth world (Path.join front) entries →
        (∀ entry ∈ entries, entry.name = leaf → entry.isDir = !isFile →
          fs.perform depth (.call (.query (.stat path))) world =
            (.ok (.reply (.listing entry)), world)) ∧
        ∃ dirs files, entries = dirs ++ files ∧ (∀ entry ∈ dirs, entry.isDir = true) ∧
          (∀ entry ∈ files, entry.isDir = false) ∧ (dirs.map Listing.name).Nodup ∧
          (files.map Listing.name).Nodup := by
  have linked := (reachable.sound stepsOnly).toLinked
  have named := reachable.named stepsOnly
  have untrimmed : Path.dropFinalSlash path = path := Path.dropFinalSlash_of_bare (Or.inr bare)
  obtain ⟨front, leaf, joined, split⟩ := Path.exists_join_concat accepted notRoot bare
  have free : ∀ name ∈ front, Path.IsName name := fun name member =>
    Path.isName_of_mem_components (split ▸ List.mem_append_left [leaf] member)
  have acceptedThere : fs.limits.checkPath (Path.join (front ++ [leaf])) = .ok () :=
    joined ▸ accepted
  obtain ⟨isFile, isDir, finds, file_iff, dir_iff, status⟩ := fs.exists_finds depth lockFree
    (untrimmed.symm ▸ notRoot) (linked.looked named (untrimmed.symm ▸ accepted) split)
  simp only [FileSystem.lists_iff lockFree]
  refine ⟨front, leaf, isFile, isDir, joined, split, finds, ?_, ?_, ?_, ?_⟩
  · rintro ⟨file, dir⟩
    obtain ⟨entry, shown⟩ := file_iff.mp file
    exact (dir_iff.mp dir).2 entry shown
  · rw [file_iff, linked.exists_file_entry_iff named free acceptedThere]
  · rw [dir_iff, linked.exists_dir_entry_iff named free acceptedThere]
  intro entries listed
  constructor
  · intro entry member isNamed isKind
    refine status (if isFile then .file else .dir) entry ?_ (by cases isFile <;> simp)
    refine (linked.mem_listDir_iff free listed).mp ⟨member, isNamed, ?_⟩
    cases isFile <;> simp [isKind]
  · exact linked.exists_parts listed

theorem lookups_agree_with_listing_shared_name :
    let entries : List Listing :=
      [⟨"d", 7, true, [], 0, "", 0⟩, ⟨"k", 7, true, [], 0, "", 0⟩, ⟨"d", 7, false, [], 1, "", 0⟩]
    FileSystem.roomy.StepsOnly ∧ FileSystem.roomy.Reachable FileSystem.populated ∧
      FileSystem.populated.lockFree = true ∧ FileSystem.roomy.limits.checkPath "/d" = .ok () ∧
      Path.endsWithSlash "/d" = false ∧ FileSystem.roomy.Lists 0 FileSystem.populated "/" entries ∧
      FileSystem.roomy.Finds 0 FileSystem.populated "/d" true false ∧
      FileSystem.roomy.perform 0 (.call (.query (.stat "/d"))) FileSystem.populated =
        (.ok (.reply (.listing ⟨"d", 7, false, [], 1, "", 0⟩)), FileSystem.populated) := by
  intro entries
  have lockFree : FileSystem.populated.lockFree = true := by decide +kernel
  have accepted : FileSystem.roomy.limits.checkPath "/d" = .ok () := by decide +kernel
  have bare : Path.endsWithSlash "/d" = false := by decide +kernel
  have listed : FileSystem.roomy.Lists 0 FileSystem.populated (Path.join []) entries := by
    refine (FileSystem.lists_iff lockFree).mpr ?_
    decide +kernel
  obtain ⟨front, leaf, isFile, isDir, -, split, finds, exclusive, file_iff, -, shape⟩ :=
    lookups_agree_with_listing FileSystem.roomy FileSystem.stepsOnly_roomy FileSystem.populated
      FileSystem.reachable_populated lockFree 0 "/d"
    accepted (by decide) bare
  have names : Path.components "/d" = [] ++ ["d"] := by decide +kernel
  obtain ⟨rfl, same⟩ := List.append_inj' (split.symm.trans names) rfl
  cases same
  obtain rfl : isFile = true :=
    file_iff.mpr ⟨entries, listed, _, List.mem_of_getLast? rfl, rfl, rfl⟩
  obtain rfl : isDir = false := by simpa using exclusive
  exact ⟨FileSystem.stepsOnly_roomy, FileSystem.reachable_populated, lockFree, accepted, bare,
    listed, finds, (shape entries listed).1 _ (List.mem_of_getLast? rfl) rfl rfl⟩

end NameTree
