import NameTree.Store
import NameTree.Store.Ascending

/-!
All ids below a directory, found by following directory bindings depth first, the last one first.

Reaching a directory twice is a cycle fault, entering one without a record a mismatch. Each record
is taken out of the arena when its directory is entered, so the search ends on every store.
-/

namespace NameTree.Store

/-- Adds `children` in order to the directories seen so far; one seen before is a cycle. -/
def meet (seen : List Int) : List Int → Except Fault (List Int)
  | [] => .ok seen
  | child :: rest => if child ∈ seen then .error (.cycle child) else meet (child :: seen) rest

/-- `pending` holds the directories still to enter, the next one first. The answer holds the file
ids bound and all directories seen. -/
def explore (rest : Arena "dir" DirRecord) (pending seen files : List Int) :
    Except Fault (List Int × List Int) :=
  match pending with
  | [] => .ok (files, seen)
  | id :: later =>
    match _found : rest.get? id with
    | none => .error (.mismatch id "dir")
    | some record =>
      match meet seen record.dirs.ids with
      | .error fault => .error fault
      | .ok met =>
        explore (rest.erase id) (record.dirs.ids.reverse ++ later) met (record.files.ids ++ files)
termination_by rest.size
decreasing_by exact Arena.size_erase_lt (by assumption)

/-- The ids of the files and of the directories below `start`, without `start`, each ascending. -/
def subtree (store : Store) (start : Int) : Except Fault (List Int × List Int) :=
  match explore store.dirs [start] [start] [] with
  | .error fault => .error fault
  | .ok (files, seen) => .ok (ascending files, (ascending seen).filter (· ≠ start))

end NameTree.Store
