import NameTree.Store
import NameTree.Store.Ascending

/-!
The consistency check: every id bound in the root, or in a directory reached from it, has a record,
and no directory is reached twice. The answer lists the records that nothing refers to.

Records of directories are taken out of the arena as they are reached; what is left at the end is
unreachable, and the search ends on every store.
-/

namespace NameTree.Store

def requireFiles (files : Arena "file" FileRecord) : List Int → Except Fault Unit
  | [] => .ok ()
  | id :: rest =>
    match files.require id with
    | .error fault => .error fault
    | .ok _ => requireFiles files rest

/-- The directories reached from one index: their records in order, and the arena without them. An
id that is no longer in `rest` was reached before, or has no record in `all`. -/
def reach (all : Arena "dir" DirRecord) (rest : Arena "dir" DirRecord) :
    List Int → Except Fault (List DirRecord × Arena "dir" DirRecord)
  | [] => .ok ([], rest)
  | id :: ids =>
    match rest.get? id with
    | none => .error (if all.contains id then .cycle id else .mismatch id "dir")
    | some record =>
      match reach all (rest.erase id) ids with
      | .error fault => .error fault
      | .ok (records, left) => .ok (record :: records, left)

theorem size_of_reach {all rest left : Arena "dir" DirRecord} {ids : List Int}
    {records : List DirRecord} (done : reach all rest ids = .ok (records, left)) :
    records.length + left.size ≤ rest.size := by
  induction ids generalizing rest records left with
  | nil =>
    cases done
    simp
  | cons id ids ih =>
    unfold reach at done
    split at done
    · cases done
    · rename_i record found
      split at done
      · cases done
      · rename_i later left' next
        cases done
        have tail := ih next
        have head := Arena.size_erase_lt found
        simp only [List.length_cons]
        omega

/-- Visits the pairs of indexes in `pending`, the next one first, and gives the file ids reached and
the directories left over. -/
def sweep (files : Arena "file" FileRecord) (all rest : Arena "dir" DirRecord)
    (pending : List (Index × Index)) (reached : List Int) :
    Except Fault (List Int × Arena "dir" DirRecord) :=
  match pending with
  | [] => .ok (reached, rest)
  | (fileIndex, dirIndex) :: later =>
    match requireFiles files fileIndex.ids with
    | .error fault => .error fault
    | .ok () =>
      match _reached : reach all rest dirIndex.ids with
      | .error fault => .error fault
      | .ok (records, left) =>
        sweep files all left ((records.map fun r => (r.files, r.dirs)).reverse ++ later)
          (fileIndex.ids ++ reached)
termination_by rest.size + pending.length
decreasing_by
  have shrinks := size_of_reach (by assumption)
  simp only [List.length_append, List.length_reverse, List.length_map, List.length_cons]
  omega

/-- The ids of the records that nothing refers to, ascending. -/
def checkConsistency (store : Store) : Except Fault (List Int) :=
  match sweep store.files store.dirs store.dirs [(store.rootFiles, store.rootDirs)] [] with
  | .error fault => .error fault
  | .ok (reached, left) =>
    .ok (ascending (store.files.ids.filter (· ∉ reached) ++ left.ids))

end NameTree.Store
