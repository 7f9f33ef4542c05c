import NameTree.FileSystem

/-!
Runs: sequences of steps, calls between which another thread may take the lock and let it go again.
-/

namespace NameTree

variable {σ : Type}

namespace FileSystem

def run (fs : FileSystem σ) (depth : Nat) : List Step → World σ →
    List (Except Fault Answer) × World σ
  | [], world => ([], world)
  | s :: rest, world =>
    let (answer, after) := fs.perform depth s world
    let (answers, last) := run fs depth rest after
    (answer :: answers, last)

end FileSystem
end NameTree
