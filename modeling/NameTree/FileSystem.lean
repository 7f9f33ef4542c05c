import NameTree.Clock
import NameTree.FileSystem.Call
import NameTree.FileSystem.Settings
import NameTree.Owner

/-!
The file system: calls under one lock. A mutation is checked for its caller, runs as one
transaction, and is told to the listener while the lock is still held, after the transaction has
ended. A listener that fails makes the call fail but does not undo the transaction.
-/

namespace NameTree

structure FileSystem (σ : Type) extends Settings where
  clock : Clock
  listener : Option (Listener σ)

/-- The changing part: the host, the number of clock calls so far, whether the lock can be taken,
the state of the listener, and the log. -/
structure World (σ : Type) where
  host : Host
  ticks : Nat
  lockFree : Bool
  listener : σ
  log : List LogRecord

variable {σ : Type}

/-- Acts directly on the committed store: outside any transaction, without the lock, and not told
to anybody. -/
def World.act (act : StoreAct) (world : World σ) : Except Fault StoreFinding × World σ :=
  let (found, store) := act.run world.host.committed
  (found, { world with host := { world.host with committed := store } })

namespace Reaction

def run (perform : Step → World σ → Except Fault Answer × World σ) :
    Reaction σ → World σ → Except Fault Unit × World σ
  | .stop state, world => (.ok (), { world with listener := state })
  | .fail state fault, world => (.error fault, { world with listener := state })
  | .step state taken next, world =>
    let (answer, after) := perform taken { world with listener := state }
    (next after.listener answer).run perform after
  | .act state done next, world =>
    let (found, after) := World.act done { world with listener := state }
    (next after.listener found).run perform after

end Reaction

namespace FileSystem

def start (fs : FileSystem σ) (listener : σ) : World σ :=
  ⟨.start (.empty fs.capacity), 0, true, listener, []⟩

def read {α : Type} (view : Store → Except Fault α) (world : World σ) : Except Fault α :=
  if world.lockFree then view world.host.committed else .error .lockUnavailable

def transact (fs : FileSystem σ) (m : Mutation) (world : World σ) : Except Fault Effect × World σ :=
  let run := world.host.run m.label (m.apply fs.limits (fs.clock world.ticks))
  (run.result,
    { world with
      host := run.host, ticks := world.ticks + run.clockCalls, log := world.log ++ run.log })

def tell (listener : Listener σ) (nested : Step → World σ → Except Fault Answer × World σ)
    (event : Option Event) (world : World σ) : Except Fault Unit × World σ :=
  match event with
  | none => (.ok (), world)
  | some event => (listener event world.listener).run nested world

def announce (fs : FileSystem σ) (nested : Step → World σ → Except Fault Answer × World σ)
    (m : Mutation) (result : Except Fault Effect) (world : World σ) : Except Fault Unit × World σ :=
  match fs.listener with
  | none => (.ok (), world)
  | some listener =>
    match result with
    | .error fault => tell listener nested (m.collision? fault) world
    | .ok effect =>
      match m.event? effect world.host.committed with
      | .error fault => (.error fault, world)
      | .ok event => tell listener nested event world

/-- The check of arguments that precedes even the lock. -/
def precheck : Mutation → Except Fault Unit
  | .updateEpoch epoch =>
    match checkWord "epoch" epoch with
    | .error fault => .error fault
    | .ok _ => .ok ()
  | _ => .ok ()

/-- Why a mutation is turned away before its transaction begins, if it is. -/
def turnAway (fs : FileSystem σ) (caller : Option String) (m : Mutation) (world : World σ) :
    Except Fault Unit :=
  match precheck m with
  | .error fault => .error fault
  | .ok () => if world.lockFree then checkCaller fs.owner caller else .error .lockUnavailable

def mutate (fs : FileSystem σ) (nested : Step → World σ → Except Fault Answer × World σ)
    (caller : Option String) (m : Mutation) (world : World σ) : Except Fault Answer × World σ :=
  match fs.turnAway caller m world with
  | .error fault => (.error fault, world)
  | .ok () =>
    let (result, ended) := fs.transact m world
    match fs.announce nested m result ended with
    | (.error fault, after) => (.error fault, after)
    | (.ok (), after) => (result.map Effect.answer, after)

def query (fs : FileSystem σ) (q : Query) (world : World σ) : Except Fault Answer × World σ :=
  match read (q.run fs.limits) world with
  | .error fault => (.error fault, world)
  | .ok reply => (.ok (.reply reply), { world with log := world.log ++ q.log world.host.committed })

/-- Answers a question about one path by its listing. The root needs no lock, and a path that is not
found or not admissible gets the answer `false`. -/
def probe (fs : FileSystem σ) (path : String) (root : Bool) (view : Listing → Bool)
    (world : World σ) : Except Fault Answer :=
  if Path.dropFinalSlash path = "/" then .ok (.flag root)
  else
    match read (·.stat fs.limits path) world with
    | .ok entry => .ok (.flag (view entry))
    | .error fault => if fault.meansAbsent then .ok (.flag false) else .error fault

def respond (fs : FileSystem σ) (nested : Step → World σ → Except Fault Answer × World σ)
    (call : Call) (world : World σ) : Except Fault Answer × World σ :=
  match call with
  | .mutate caller m => fs.mutate nested caller m world
  | .query q => fs.query q world
  | .pathExists path => (fs.probe path true (fun _ => true) world, world)
  | .isDir path => (fs.probe path true (·.isDir) world, world)
  | .isFile path => (fs.probe path false (fun entry => !entry.isDir) world, world)
  | .owner => (.ok (.owner fs.owner), world)
  | .lastTransaction => (.ok (.transaction world.host.lastTransaction), world)

def step (fs : FileSystem σ) (nested : Step → World σ → Except Fault Answer × World σ)
    (taken : Step) (world : World σ) : Except Fault Answer × World σ :=
  match taken with
  | .call call => fs.respond nested call world
  | .hold => (.ok .done, { world with lockFree := false })
  | .release => (.ok .done, { world with lockFree := true })

/-- Takes a step; listeners may nest steps within steps up to `depth` levels. -/
def perform (fs : FileSystem σ) : Nat → Step → World σ → Except Fault Answer × World σ
  | 0 => fs.step (fun _ world => (.error .nestedTooDeep, world))
  | depth + 1 => fs.step (fs.perform depth)

end FileSystem
end NameTree
