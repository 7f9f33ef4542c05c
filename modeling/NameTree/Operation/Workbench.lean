import NameTree.Clock
import NameTree.Operation

/-!
Operations without transactions: they work on one store directly, and what an operation changed
before it failed stays changed.
-/

namespace NameTree

inductive Operation where
  | mutate (mutation : Mutation)
  | query (query : Query)

inductive Product where
  | effect (effect : Effect)
  | reply (reply : Reply)
  deriving DecidableEq

/-- The store, how often its operations have read the clock, and what they have logged. -/
structure Workbench where
  store : Store
  ticks : Nat
  log : List LogRecord
  deriving DecidableEq

namespace Workbench

def start (store : Store) : Workbench := ⟨store, 0, []⟩

def perform (limits : Limits) (clock : Clock) (op : Operation) (bench : Workbench) :
    Except Fault Product × Workbench :=
  match op with
  | .mutate m =>
    let outcome := m.apply limits (clock bench.ticks) bench.store
    (outcome.result.map .effect,
      ⟨outcome.store, bench.ticks + outcome.clockCalls, bench.log ++ outcome.log⟩)
  | .query q =>
    ((q.run limits bench.store).map .reply, { bench with log := bench.log ++ q.log bench.store })

def run (limits : Limits) (clock : Clock) :
    List Operation → Workbench → List (Except Fault Product) × Workbench
  | [], bench => ([], bench)
  | op :: rest, bench =>
    let (result, after) := bench.perform limits clock op
    let (results, last) := run limits clock rest after
    (result :: results, last)

end Workbench
end NameTree
