import NameTree.Operation.Outcome

/-!
Transactions. A mutation works on a copy of the committed store; the copy replaces the committed
store only when the mutation succeeds.
-/

namespace NameTree

inductive TransactionState where
  | active
  | committed
  | aborted (fault : Fault)
  deriving DecidableEq

structure Transaction where
  number : Nat
  label : String
  state : TransactionState
  deriving DecidableEq

/-- The journal has every transaction begun, in the order in which they began; `last` is the place
there of the one begun last. -/
structure Host where
  committed : Store
  nextNumber : Nat
  last : Option Nat
  journal : List Transaction
  deriving DecidableEq

/-- What a transaction leaves: its result, the host, and what the mutation did beside the store. -/
structure Run (α : Type) where
  result : Except Fault α
  host : Host
  clockCalls : Nat
  log : List LogRecord

namespace Transaction

def name (number : Nat) (label : String) : String :=
  "txn " ++ toString number ++ " (" ++ label ++ ")"

def commitRecord (number : Nat) (label : String) : LogRecord :=
  ⟨.debug, .host, name number label ++ " committed"⟩

def abortRecord (number : Nat) (label : String) (fault : Fault) : LogRecord :=
  ⟨.debug, .host, name number label ++ " aborted: " ++ fault.describe⟩

end Transaction

namespace Host

def start (store : Store) : Host := ⟨store, 0, none, []⟩

/-- The transaction begun last, which need not be the one that ended last. -/
def lastTransaction (host : Host) : Option Transaction := host.last.bind (host.journal[·]?)

def begin (host : Host) (label : String) : Host :=
  { host with
    nextNumber := host.nextNumber + 1
    last := some host.journal.length
    journal := host.journal ++ [⟨host.nextNumber, label, .active⟩] }

def close (host : Host) (place : Nat) (state : TransactionState) : Host :=
  { host with journal := host.journal.modify place ({ · with state }) }

def commit (host : Host) (place : Nat) (store : Store) : Host :=
  { host.close place .committed with committed := store }

def abort (host : Host) (place : Nat) (fault : Fault) : Host := host.close place (.aborted fault)

def run {α : Type} (host : Host) (label : String) (operation : Store → Outcome α) : Run α :=
  let place := host.journal.length
  let number := host.nextNumber
  let begun := host.begin label
  let outcome := operation begun.committed.clone
  match outcome.result with
  | .ok value =>
    ⟨.ok value, begun.commit place outcome.store, outcome.clockCalls,
      outcome.log ++ [Transaction.commitRecord number label]⟩
  | .error fault =>
    ⟨.error fault, begun.abort place fault, outcome.clockCalls,
      outcome.log ++ [Transaction.abortRecord number label fault]⟩

def ending {α : Type} : Except Fault α → TransactionState
  | .ok _ => .committed
  | .error fault => .aborted fault

theorem ending_ne_active {α : Type} (result : Except Fault α) : ending result ≠ .active := by
  cases result <;> simp [ending]

theorem close_begin (host : Host) (label : String) (state : TransactionState) :
    (host.begin label).close host.journal.length state =
      ⟨host.committed, host.nextNumber + 1, some host.journal.length,
        host.journal ++ [⟨host.nextNumber, label, state⟩]⟩ := by
  simp [begin, close, List.modify_eq_take_cons_drop]

theorem run_of_error {α : Type} {host : Host} {label : String} {operation : Store → Outcome α}
    {fault : Fault} (failed : (operation host.committed.clone).result = .error fault) :
    host.run label operation =
      ⟨.error fault,
        ⟨host.committed, host.nextNumber + 1, some host.journal.length,
          host.journal ++ [⟨host.nextNumber, label, .aborted fault⟩]⟩,
        (operation host.committed.clone).clockCalls,
        (operation host.committed.clone).log ++
          [Transaction.abortRecord host.nextNumber label fault]⟩ := by
  rw [← close_begin]
  simp only [run, begin, failed]
  rfl

theorem run_of_ok {α : Type} {host : Host} {label : String}
    {operation : Store → Outcome α} {value : α}
    (done : (operation host.committed.clone).result = .ok value) :
    host.run label operation =
      ⟨.ok value,
        ⟨(operation host.committed.clone).store, host.nextNumber + 1, some host.journal.length,
          host.journal ++ [⟨host.nextNumber, label, .committed⟩]⟩,
        (operation host.committed.clone).clockCalls,
        (operation host.committed.clone).log ++
          [Transaction.commitRecord host.nextNumber label]⟩ := by
  have closed := host.close_begin label .committed
  simp only [run, commit, closed]
  simp only [begin, done]

end Host
end NameTree
