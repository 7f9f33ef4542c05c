import NameTree.Proofs.Exports
import NameTree.Proofs.Walk

/-!
What can be read off an export. Its directories are looked up by id and followed by name through the
lists that the export itself holds, and this leads to what the paths below its top lead to in the
store.
-/

namespace NameTree

namespace DirExport

def names (entry : DirExport) : Kind → List String
  | .file => entry.fileNames
  | .dir => entry.dirNames

def ids (entry : DirExport) : Kind → List Int
  | .file => entry.fileIds
  | .dir => entry.dirIds

def links (entry : DirExport) (kind : Kind) : List (String × Int) :=
  (entry.names kind).zip (entry.ids kind)

end DirExport

theorem find?_id_eq {α : Type} {id : α → Int} {entries : List α} {entry : α}
    (distinct : (entries.map id).Nodup) (member : entry ∈ entries) :
    entries.find? (fun other => id other = id entry) = some entry := by
  cases found : entries.find? (fun other => id other = id entry) with
  | none =>
    have absent := List.find?_eq_none.mp found entry member
    simp at absent
  | some other =>
    have same : id other = id entry := by simpa using List.find?_some found
    rw [List.inj_on_of_nodup_map distinct (List.mem_of_find?_eq_some found) member same]

namespace Export

def dir? (content : Export) (id : Int) : Option DirExport := content.dirs.find? (·.id = id)

def file? (content : Export) (id : Int) : Option FileExport := content.files.find? (·.id = id)

def ids (content : Export) : Kind → List Int
  | .file => content.files.map FileExport.id
  | .dir => content.dirs.map DirExport.id

/-- The bindings in an exported directory, in order; none where it is not exported. -/
def links (content : Export) (kind : Kind) (id : Int) : List (String × Int) :=
  match content.dir? id with
  | none => []
  | some entry => entry.links kind

def binding? (content : Export) (kind : Kind) (id : Int) (name : String) : Option Int :=
  OrderedMap.lookup name (content.links kind id)

def follow (content : Export) (id : Int) : List String → Option Int
  | [] => some id
  | name :: rest =>
    match content.binding? .dir id name with
    | none => none
    | some child => content.follow child rest

def resolve? (content : Export) (kind : Kind) (names : List String) : Option Int :=
  match names.getLast? with
  | none =>
    match kind with
    | .file => none
    | .dir => some content.top
  | some leaf =>
    match content.follow content.top names.dropLast with
    | none => none
    | some parent => content.binding? kind parent leaf

/-- The ways shorter than `depth` that lead on from an exported directory, with the directories that
they lead to. -/
def tour (content : Export) : Nat → Int → List (List String × Int)
  | 0, _ => []
  | depth + 1, id =>
    ([], id) :: (content.links .dir id).flatMap fun link =>
      (content.tour depth link.2).map fun stop => (link.1 :: stop.1, stop.2)

/-- The export is a copy of what the store holds below the directory that `front` leads to. -/
structure Mirrors (content : Export) (store : Store) (front : List String) : Prop where
  ascend : ∀ kind, (content.ids kind).Pairwise (· < ·)
  top_mem : content.top ∈ content.ids .dir
  bound_once : ∀ kind, ∀ id ∈ content.ids kind, (kind, id) ≠ (.dir, content.top) →
    ∃! entry, entry ∈ content.dirs ∧ id ∈ entry.ids kind
  closed : ∀ entry ∈ content.dirs, ∀ kind, (entry.ids kind).Nodup ∧
    ∀ id ∈ entry.ids kind, id ∈ content.ids kind ∧ (kind, id) ≠ (.dir, content.top)
  aligned : ∀ entry ∈ content.dirs, ∀ kind, ∃ index, store.index kind (some entry.id) = .ok index ∧
    entry.names kind = index.names ∧ entry.ids kind = index.ids ∧ entry.links kind = index.toList
  resolves : ∀ kind names, kind = .dir ∨ names ≠ [] →
    content.resolve? kind names = store.resolve? kind (front ++ names)
  dir_same : ∀ names id, content.resolve? .dir names = some id →
    ∃ record, store.dirs.get? id = some record ∧ content.dir? id = some
      { id := id, createTs := record.createTs, tags := record.tags
        fileNames := record.files.names, fileIds := record.files.ids
        dirNames := record.dirs.names, dirIds := record.dirs.ids }
  file_same : ∀ names id, content.resolve? .file names = some id →
    ∃ record, store.files.get? id = some record ∧
      content.file? id = some { id := id, record := record }
  only_below : ∀ kind id, id ∈ content.ids kind ↔ ∃ names, content.resolve? kind names = some id
  rebuilt : store.Preorder (some content.top)
    ((content.tour content.dirs.length content.top).map fun stop => (stop.1, some stop.2))

variable {content : Export}

theorem resolve?_concat (kind : Kind) (names : List String) (leaf : String) :
    content.resolve? kind (names ++ [leaf]) =
      (content.follow content.top names).bind fun parent => content.binding? kind parent leaf := by
  simp only [resolve?, List.getLast?_concat, List.dropLast_concat]
  cases content.follow content.top names <;> rfl

end Export

namespace Store

variable {store : Store} {content : Export} {kind : Kind} {id : Int} {names : List String}

theorem lookup_links (store : Store) (kind : Kind) (place : Place) (name : String) :
    OrderedMap.lookup name (store.links kind place) = store.binding? kind place name := by
  unfold links binding?
  cases store.index kind place <;> rfl

theorem ids_toExport (record : DirRecord) {index : Index} (found : store.dirs.get? id = some record)
    (present : store.index kind (some id) = .ok index) :
    (record.toExport id).names kind = index.names ∧ (record.toExport id).ids kind = index.ids ∧
      (record.toExport id).links kind = index.toList := by
  rw [index_place found] at present
  have paired (index : Index) : index.names.zip index.ids = index.toList :=
    (List.zip_of_prod rfl rfl).symm
  cases kind <;> cases present <;> exact ⟨rfl, rfl, paired _⟩

namespace Copied

variable (copied : store.Copied content)
include copied

theorem mem_dirs_iff {entry : DirExport} : entry ∈ content.dirs ↔
    store.Under content.top entry.id ∧ ∃ record, store.dirs.get? entry.id = some record ∧
      entry = record.toExport entry.id := by
  constructor
  · intro member
    exact ⟨(copied.exports.dirs_iff entry.id).mp (List.mem_map_of_mem member),
      copied.dirs entry member⟩
  · rintro ⟨under, record, found, same⟩
    obtain ⟨other, member, sameId⟩ := List.mem_map.mp ((copied.exports.dirs_iff entry.id).mpr under)
    obtain ⟨record', found', same'⟩ := copied.dirs other member
    rw [sameId, found] at found'
    cases found'
    rw [same, ← sameId, ← same']
    exact member

theorem aligned {entry : DirExport} (member : entry ∈ content.dirs) (kind : Kind) :
    ∃ index, store.index kind (some entry.id) = .ok index ∧ entry.names kind = index.names ∧
      entry.ids kind = index.ids ∧ entry.links kind = index.toList := by
  obtain ⟨record, found, same⟩ := copied.dirs entry member
  obtain ⟨index, present⟩ : ∃ index, store.index kind (some entry.id) = .ok index :=
    hasPlace_iff.mp (mem_ids_dir.mpr ⟨record, found⟩)
  exact ⟨index, present, same ▸ ids_toExport record found present⟩

theorem dir?_eq {record : DirRecord} (under : store.Under content.top id)
    (found : store.dirs.get? id = some record) :
    content.dir? id = some (record.toExport id) := by
  have member : record.toExport id ∈ content.dirs :=
    copied.mem_dirs_iff.mpr ⟨under, record, found, rfl⟩
  exact find?_id_eq copied.exports.dirsAscend.nodup member

theorem file?_eq {record : FileRecord} (under : store.FileUnder content.top id)
    (found : store.files.get? id = some record) : content.file? id = some ⟨id, record⟩ := by
  obtain ⟨file, member, rfl⟩ := List.mem_map.mp ((copied.exports.files_iff id).mpr under)
  have same := copied.files file member
  rw [found] at same
  cases same
  exact find?_id_eq copied.exports.filesAscend.nodup member

theorem links_eq (kind : Kind) (under : store.Under content.top id) :
    content.links kind id = store.links kind (some id) := by
  obtain ⟨entry, member, rfl⟩ := List.mem_map.mp ((copied.exports.dirs_iff id).mpr under)
  obtain ⟨index, present, -, -, listed⟩ := copied.aligned member kind
  have found : content.dir? entry.id = some entry :=
    find?_id_eq copied.exports.dirsAscend.nodup member
  rw [Export.links, found, links_of_index present]
  exact listed

theorem binding?_eq (kind : Kind) (under : store.Under content.top id) (name : String) :
    content.binding? kind id name = store.binding? kind (some id) name := by
  rw [Export.binding?, copied.links_eq kind under, lookup_links]

theorem follow_eq (under : store.Under content.top id) (names : List String) :
    store.follow (some id) names = (content.follow id names).map some := by
  -- each step stays below the top
  induction names generalizing id with
  | nil => rfl
  | cons name rest ih =>
    rw [follow, Export.follow, copied.binding?_eq .dir under]
    cases bound : store.binding? .dir (some id) name with
    | none => rfl
    | some child => exact ih (under.tail ⟨name, bound⟩)

theorem tour_eq (under : store.Under content.top id) (depth : Nat) :
    store.tour depth (some id) = (content.tour depth id).map fun stop => (stop.1, some stop.2) := by
  induction depth generalizing id with
  | zero => rfl
  | succ depth ih =>
    rw [tour, Export.tour, List.map_cons, List.map_flatMap, copied.links_eq .dir under]
    refine congrArg _ (List.flatMap_congr fun link member => ?_)
    rw [ih (under.tail ⟨link.1, mem_links_iff.mp member⟩), List.map_map, List.map_map]
    rfl

variable {front : List String} (led : store.follow none front = some (some content.top))
include led

theorem resolve?_eq (given : kind = .dir ∨ names ≠ []) :
    content.resolve? kind names = store.resolve? kind (front ++ names) := by
  have atTop : store.Under content.top content.top := Relation.ReflTransGen.refl
  rcases List.eq_nil_or_concat' names with rfl | ⟨most, leaf, rfl⟩
  · cases given with
    | inl isDir =>
      subst isDir
      rw [List.append_nil, follow_eq_some_dir_iff.mp led]
      rfl
    | inr nonempty => exact absurd rfl nonempty
  · rw [← List.append_assoc, resolve?_concat, follow_append, led, Option.bind_some,
      copied.follow_eq atTop, Export.resolve?_concat]
    cases ledOn : content.follow content.top most with
    | none => rfl
    | some parent =>
      have under : store.Under content.top parent := by
        refine under_iff_follow.mpr ⟨most, ?_⟩
        rw [copied.follow_eq atTop, ledOn]
        rfl
      exact copied.binding?_eq kind under leaf

theorem length_lt (linked : store.Linked) {way : List String} {reached : Place}
    (ledOn : store.follow (some content.top) way = some reached) :
    way.length < content.dirs.length := by
  obtain ⟨ids, sameLength, distinct, passed⟩ := linked.exists_passed led ledOn
  have fresh : content.top ∉ ids := by
    intro member
    obtain ⟨part, nonempty, -, again⟩ := passed content.top member
    have here : store.follow (some content.top) [] = some (some content.top) := rfl
    exact nonempty (linked.follow_inj_onward led here again)
  have exported : content.top :: ids ⊆ content.dirs.map DirExport.id := by
    intro id member
    rw [copied.exports.dirs_iff]
    rcases List.mem_cons.mp member with rfl | later
    · exact Relation.ReflTransGen.refl
    · obtain ⟨part, -, -, here⟩ := passed id later
      exact under_iff_follow.mpr ⟨part, here⟩
  calc
    way.length < (content.top :: ids).length := by
      rw [List.length_cons, sameLength]; exact Nat.lt_succ_self _
    _ ≤ (content.dirs.map DirExport.id).length :=
      (List.subperm_of_subset (List.nodup_cons.mpr ⟨fresh, distinct⟩) exported).length_le
    _ = content.dirs.length := List.length_map _

omit led

theorem mem_entry_ids_iff {entry : DirExport} (member : entry ∈ content.dirs) :
    id ∈ entry.ids kind ↔ ∃ name, store.binding? kind (some entry.id) name = some id := by
  obtain ⟨index, present, -, same, -⟩ := copied.aligned member kind
  rw [exists_binding?_iff present, same]

theorem mem_ids_iff : id ∈ content.ids kind ↔ (kind, id) = (.dir, content.top) ∨
    ∃ parent name, store.Under content.top parent ∧
      store.binding? kind (some parent) name = some id := by
  cases kind with
  | file =>
    rw [Export.ids, copied.exports.files_iff]
    simp [FileUnder]
  | dir =>
    rw [Export.ids, copied.exports.dirs_iff]
    constructor
    · intro under
      by_cases isTop : id = content.top
      · exact Or.inl (by rw [isTop])
      · exact Or.inr (exists_binding?_of_under under isTop)
    · rintro (same | ⟨parent, name, under, bound⟩)
      · cases same
        exact Relation.ReflTransGen.refl
      · exact under.tail ⟨name, bound⟩

end Copied

theorem Linked.mirrors (linked : store.Linked) (copied : store.Copied content) {front : List String}
    (led : store.follow none front = some (some content.top)) : content.Mirrors store front where
  ascend kind := by
    cases kind
    · exact copied.exports.filesAscend
    · exact copied.exports.dirsAscend
  top_mem := copied.mem_ids_iff.mpr (Or.inl rfl)
  bound_once kind id member other := by
    obtain ⟨parent, name, under, bound⟩ := (copied.mem_ids_iff.mp member).resolve_left other
    obtain ⟨entry, exported, rfl⟩ := List.mem_map.mp ((copied.exports.dirs_iff parent).mpr under)
    refine ⟨entry, ⟨exported, (copied.mem_entry_ids_iff exported).mpr ⟨name, bound⟩⟩, ?_⟩
    rintro again ⟨exportedAgain, listed⟩
    obtain ⟨name', bound'⟩ := (copied.mem_entry_ids_iff exportedAgain).mp listed
    have same := Option.some.inj (linked.unique bound bound').1
    exact List.inj_on_of_nodup_map copied.exports.dirsAscend.nodup exportedAgain exported same
  closed entry member kind := by
    have under : store.Under content.top entry.id :=
      (copied.exports.dirs_iff entry.id).mp (List.mem_map_of_mem member)
    obtain ⟨index, present, -, same, -⟩ := copied.aligned member kind
    constructor
    · rw [same]
      exact linked.nodup_index_ids present
    · intro id listed
      obtain ⟨name, bound⟩ := (copied.mem_entry_ids_iff member).mp listed
      refine ⟨copied.mem_ids_iff.mpr (Or.inr ⟨entry.id, name, under, bound⟩), ?_⟩
      intro isTop
      cases isTop
      exact (linked.subtreeIsTree
        (linked.mem_ids_of_resolve? (follow_eq_some_dir_iff.mp led))).no_way_back _ _ under bound
  aligned entry member kind := copied.aligned member kind
  resolves kind names given := copied.resolve?_eq led given
  dir_same names id found := by
    rw [copied.resolve?_eq led (Or.inl rfl)] at found
    obtain ⟨record, recorded⟩ := mem_ids_dir.mp (linked.mem_ids_of_resolve? found)
    exact ⟨record, recorded, copied.dir?_eq ((under_iff_resolve? led).mpr ⟨names, found⟩) recorded⟩
  file_same names id found := by
    have nonempty : names ≠ [] := by
      rintro rfl
      cases found
    rw [copied.resolve?_eq led (Or.inr nonempty)] at found
    obtain ⟨record, recorded⟩ := mem_ids_file.mp (linked.mem_ids_of_resolve? found)
    exact ⟨record, recorded, copied.file?_eq
      ((fileUnder_iff_resolve? led).mpr ⟨names, nonempty, found⟩) recorded⟩
  only_below kind id := by
    cases kind with
    | dir =>
      rw [Export.ids, copied.exports.dirs_iff, under_iff_resolve? led]
      exact exists_congr fun names => by rw [copied.resolve?_eq led (Or.inl rfl)]
    | file =>
      rw [Export.ids, copied.exports.files_iff, fileUnder_iff_resolve? led]
      refine exists_congr fun names => ?_
      by_cases nonempty : names = []
      · subst nonempty
        simp [Export.resolve?]
      · rw [copied.resolve?_eq led (Or.inr nonempty), and_iff_right nonempty]
  rebuilt := by
    rw [← copied.tour_eq Relation.ReflTransGen.refl]
    exact linked.preorder_tour led fun way reached ledOn => copied.length_lt led linked ledOn

end Store

/-- The export of a directory is a closed copy of what lies below it. Each entry but the top is
bound once in it, names lead in it to what they lead to in the store, and the tree of names can be
rebuilt from it alone. -/
theorem export_mirrors_subtree {σ : Type} (fs : FileSystem σ) (stepsOnly : fs.StepsOnly)
    (world : World σ) (reachable : fs.Reachable world) (depth : Nat) (path : String)
    (content : Export) (exported : (fs.perform depth (.call (.query (.exportDir path))) world).1 =
      .ok (.reply (.subtree content))) :
    content.Mirrors world.host.committed (Path.components path) := by
  obtain ⟨-, ran⟩ := FileSystem.run_of_perform_query rfl exported
  obtain ⟨_, found, same⟩ := map_eq_ok_iff.mp ran
  cases same
  obtain ⟨copied, place, leaf, index, target, bound⟩ := Store.copied_of_exportDir found
  obtain ⟨-, front, split, -, led, -⟩ := Store.locate_eq_ok_iff.mp target.located
  rw [Path.components_dropFinalSlash, Path.components_dropFinalSlash] at split
  rw [split]
  refine (reachable.sound stepsOnly).toLinked.mirrors copied ?_
  exact Store.follow_concat_eq_some_iff.mpr ⟨place, _, led, (target.binding? leaf).trans bound, rfl⟩

def FileSystem.dated : FileSystem Notebook :=
  { roomy with clock := .stepping 100 10 [] }

theorem export_mirrors_subtree_dated :
    let tags (text : String) : Tags := .items [.text text]
    let file (path text : String) : Step :=
      .call (.mutate none (.createFile path ⟨tags text, .int 1, "", .int 0, false⟩))
    let dir (path text : String) : Step := .call (.mutate none (.createDir path (tags text)))
    let world :=
      (FileSystem.dated.run 0 [dir "/d" "outer", file "/d/f" "x", dir "/d/e" "inner",
        file "/d/e/g" "y"] (FileSystem.dated.start ⟨[], 0⟩)).2
    let store := world.host.committed
    let content : Export := ⟨1, [⟨2, ⟨110, ["x"], 1, "", 0⟩⟩, ⟨4, ⟨130, ["y"], 1, "", 0⟩⟩],
      [⟨1, 100, ["outer"], ["f"], [2], ["e"], [3]⟩, ⟨3, 120, ["inner"], ["g"], [4], [], []⟩]⟩
    FileSystem.dated.StepsOnly ∧ FileSystem.dated.Reachable world ∧
      (FileSystem.dated.perform 0 (.call (.query (.exportDir "/d"))) world).1 =
        .ok (.reply (.subtree content)) ∧
      content.Mirrors store ["d"] ∧ content.tour content.dirs.length content.top =
        [([], 1), (["e"], 3)] ∧
      (∃ record, store.dirs.get? 3 = some record ∧ record.createTs = 120 ∧ record.tags = ["inner"] ∧
        record.files.names = ["g"] ∧ record.files.ids = [4]) ∧
      store.files.get? 4 = some ⟨130, ["y"], 1, "", 0⟩ := by
  intro tags file dir world store content
  have stepsOnly : FileSystem.dated.StepsOnly := FileSystem.stepsOnly_roomy
  have reachable : FileSystem.dated.Reachable world := FileSystem.dated.reachable_run 0 _ _
  have exported : (FileSystem.dated.perform 0 (.call (.query (.exportDir "/d"))) world).1 =
      .ok (.reply (.subtree content)) := by
    decide +kernel
  have mirrors :=
    export_mirrors_subtree FileSystem.dated stepsOnly world reachable 0 "/d" content exported
  have names : Path.components "/d" = ["d"] := by decide +kernel
  rw [names] at mirrors
  obtain ⟨dirRecord, dirHeld, dirShown⟩ := mirrors.dir_same ["e"] 3 (by decide +kernel)
  obtain ⟨fileRecord, fileHeld, fileShown⟩ := mirrors.file_same ["e", "g"] 4 (by decide +kernel)
  have inner : content.dir? 3 = some ⟨3, 120, ["inner"], ["g"], [4], [], []⟩ := by decide +kernel
  obtain ⟨-, time, tagged, fileNames, fileIds, -⟩ :=
    DirExport.mk.injEq .. ▸ Option.some.inj (dirShown.symm.trans inner)
  have leaf : content.file? 4 = some ⟨4, 130, ["y"], 1, "", 0⟩ := by decide +kernel
  cases fileShown.symm.trans leaf
  exact ⟨stepsOnly, reachable, exported, mirrors, by decide +kernel,
    ⟨dirRecord, dirHeld, time, tagged, fileNames, fileIds⟩, fileHeld⟩

end NameTree
