import NameTree.Host
import NameTree.Store.Direct

/-!
Scripts of direct acts run by a host: as a transaction, on a working copy, or as a reader, on the
committed store itself. Scripts nest. A reader keeps the store that was committed when it began,
also when a transaction that it runs commits another one; what it changes later is then seen by
nobody else.
-/

namespace NameTree

inductive Script where
  | finish
  | act (step : StoreAct) (rest : Script)
  | fail (reason : String)
  | run (label : String) (body : Script) (caught : Bool) (rest : Script)
  | read (body : Script) (caught : Bool) (rest : Script)
  | committed (rest : Script)
  | lastTransaction (rest : Script)

inductive Entry where
  | found (finding : StoreFinding)
  | nested (entries : List Entry)
  | caught (entries : List Entry)
  | caughtFault (fault : Fault)
  | store (store : Store)
  | transaction (transaction : Option Transaction)

/-- The host, the stores that were committed before, oldest first, and the log. -/
structure Session where
  host : Host
  superseded : List Store
  log : List LogRecord

/-- Where the acts of a script go: a working copy, or a committed store by the number of stores
committed before it. -/
inductive Target where
  | working (store : Store)
  | version (number : Nat)

namespace Session

def start (store : Store) : Session := ⟨.start store, [], []⟩

def current (s : Session) : Target := .version s.superseded.length

def load (s : Session) : Target → Store
  | .working store => store
  | .version number => s.superseded[number]?.getD s.host.committed

def save (s : Session) (target : Target) (store : Store) : Target × Session :=
  match target with
  | .working _ => (.working store, s)
  | .version number =>
    if number < s.superseded.length then
      (target, { s with superseded := s.superseded.set number store })
    else (target, { s with host := { s.host with committed := store } })

def begin (s : Session) (label : String) : Session := { s with host := s.host.begin label }

def conclude (s : Session) (place number : Nat) (label : String)
    (result : Except Fault (List Entry)) (store : Store) : Session :=
  match result with
  | .ok _ =>
    ⟨s.host.commit place store, s.superseded ++ [s.host.committed],
      s.log ++ [Transaction.commitRecord number label]⟩
  | .error fault =>
    ⟨s.host.abort place fault, s.superseded,
      s.log ++ [Transaction.abortRecord number label fault]⟩

end Session

/-- The entry of a nested script, unless it failed and the fault is not caught. -/
def Entry.ofNested (result : Except Fault (List Entry)) (caught : Bool) : Except Fault Entry :=
  match result, caught with
  | .ok entries, false => .ok (.nested entries)
  | .ok entries, true => .ok (.caught entries)
  | .error fault, true => .ok (.caughtFault fault)
  | .error fault, false => .error fault

namespace Script

def prepend (entry : Entry) (tail : Except Fault (List Entry) × Target × Session) :
    Except Fault (List Entry) × Target × Session :=
  (tail.1.map (entry :: ·), tail.2)

def perform : Script → Target → Session → Except Fault (List Entry) × Target × Session
  | .finish, target, s => (.ok [], target, s)
  | .fail reason, target, s => (.error (.raised reason), target, s)
  | .act step rest, target, s =>
    let (found, store) := step.run (s.load target)
    let (target, s) := s.save target store
    match found with
    | .error fault => (.error fault, target, s)
    | .ok finding => prepend (.found finding) (rest.perform target s)
  | .run label body caught rest, target, s =>
    let place := s.host.journal.length
    let number := s.host.nextNumber
    let begun := s.begin label
    let (result, working, ended) := body.perform (.working begun.host.committed.clone) begun
    let closed := ended.conclude place number label result (ended.load working)
    match Entry.ofNested result caught with
    | .error fault => (.error fault, target, closed)
    | .ok entry => prepend entry (rest.perform target closed)
  | .read body caught rest, target, s =>
    let (result, _, ended) := body.perform s.current s
    match Entry.ofNested result caught with
    | .error fault => (.error fault, target, ended)
    | .ok entry => prepend entry (rest.perform target ended)
  | .committed rest, target, s => prepend (.store s.host.committed) (rest.perform target s)
  | .lastTransaction rest, target, s =>
    prepend (.transaction s.host.lastTransaction) (rest.perform target s)

end Script

namespace Session

def run (s : Session) (label : String) (body : Script) : Except Fault (List Entry) × Session :=
  let place := s.host.journal.length
  let number := s.host.nextNumber
  let begun := s.begin label
  let (result, working, ended) := body.perform (.working begun.host.committed.clone) begun
  (result, ended.conclude place number label result (ended.load working))

def read (s : Session) (body : Script) : Except Fault (List Entry) × Session :=
  let (result, _, ended) := body.perform s.current s
  (result, ended)

end Session
end NameTree
