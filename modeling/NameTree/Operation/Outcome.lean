import NameTree.Log
import NameTree.Store

/-!
What running one operation on a store gives: a result or a fault, the store afterwards, which may be
half changed when it failed, how often the clock was read, and log records.
-/

namespace NameTree

structure Outcome (α : Type) where
  result : Except Fault α
  store : Store
  clockCalls : Nat
  log : List LogRecord

namespace Outcome

variable {α β : Type}

def failed (fault : Fault) (store : Store) : Outcome α := ⟨.error fault, store, 0, []⟩

def done (value : α) (store : Store) : Outcome α := ⟨.ok value, store, 0, []⟩

def map (f : α → β) (o : Outcome α) : Outcome β := ⟨o.result.map f, o.store, o.clockCalls, o.log⟩

end Outcome
end NameTree
