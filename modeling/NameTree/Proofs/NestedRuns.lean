import NameTree.Host.Session
import NameTree.Proofs.Checked

/-!
Scripts that run others as transactions of their own. Every run works on a copy of the store that
was committed when it began and replaces the committed store when it returns, so a run that returns
leaves its own acts and nothing of what its nested runs committed; of a run that fails, its nested
runs are what is left. The tree of runs says which; it lists them in the order in which they began,
which is the order of their numbers.
-/

namespace NameTree

namespace Script

/-- The script never reads the committed store outside a transaction. -/
def RunsOnly : Script → Prop
  | .finish | .fail _ => True
  | .act _ rest | .committed rest | .lastTransaction rest => rest.RunsOnly
  | .run _ body _ rest => body.RunsOnly ∧ rest.RunsOnly
  | .read _ _ _ => False

def acts : Script → List StoreAct
  | .finish | .fail _ => []
  | .act step rest => step :: rest.acts
  | .run _ _ _ rest | .read _ _ rest | .committed rest | .lastTransaction rest => rest.acts

end Script

def StoreAct.runAll (acts : List StoreAct) (store : Store) : Store :=
  acts.foldl (fun store act => (act.run store).2) store

/-- A run as it went: how it ended, its own acts up to there, and the runs that it nested,
in order. -/
structure Ran where
  label : String
  outcome : Except Fault Unit
  acts : List StoreAct
  nested : List Ran

namespace Ran

mutual

/-- What is committed after a run, when `store` was committed before it. -/
def settle : Ran → Store → Store
  | ⟨_, .ok (), acts, _⟩, store => StoreAct.runAll acts store.clone
  | ⟨_, .error _, _, nested⟩, store => settleAll nested store

def settleAll : List Ran → Store → Store
  | [], store => store
  | first :: rest, store => settleAll rest (first.settle store)

end

mutual

/-- The labels of a run and of all runs within it, in the order in which they began, and how
each ended. -/
def begun : Ran → List (String × Except Fault Unit)
  | ⟨label, outcome, _, nested⟩ => (label, outcome) :: begunAll nested

def begunAll : List Ran → List (String × Except Fault Unit)
  | [] => []
  | first :: rest => first.begun ++ begunAll rest

end

theorem settle_of_returned {ran : Ran} (returned : ran.outcome = .ok ()) (store : Store) :
    ran.settle store = StoreAct.runAll ran.acts store.clone := by
  rcases ran with ⟨label, outcome, acts, nested⟩
  cases returned
  rfl

theorem settle_of_raised {ran : Ran} {fault : Fault} (raised : ran.outcome = .error fault)
    (store : Store) :
    ran.settle store = settleAll ran.nested store := by
  rcases ran with ⟨label, _, acts, nested⟩
  cases raised
  rfl

theorem begun_eq (ran : Ran) : ran.begun = (ran.label, ran.outcome) :: begunAll ran.nested := by
  rcases ran with ⟨label, outcome, acts, nested⟩
  rfl

end Ran

/-- How a script goes that is run under `label` on the copy `working`, when `base` is committed. A
nested run begins with a copy of `base`, whatever the working copy has become. -/
def Script.ran (label : String) : Script → Store → Store → Ran
  | .finish, _, _ => ⟨label, .ok (), [], []⟩
  | .fail reason, _, _ => ⟨label, .error (.raised reason), [], []⟩
  | .act step rest, base, working =>
    match step.run working with
    | (.error fault, _) => ⟨label, .error fault, [step], []⟩
    | (.ok _, after) =>
      let later := rest.ran label base after
      { later with acts := step :: later.acts }
  | .run inner body caught rest, base, working =>
    let first := body.ran inner base base.clone
    match first.outcome, caught with
    | .error fault, false => ⟨label, .error fault, [], [first]⟩
    | _, _ =>
      let later := rest.ran label (first.settle base) working
      { later with nested := first :: later.nested }
  | .read _ _ rest, base, working => rest.ran label base working
  | .committed rest, base, working => rest.ran label base working
  | .lastTransaction rest, base, working => rest.ran label base working

def Transaction.numbered (first : Nat) : List (String × Except Fault Unit) → List Transaction
  | [] => []
  | (label, outcome) :: rest => ⟨first, label, Host.ending outcome⟩ :: numbered (first + 1) rest

theorem Transaction.numbered_append (first : Nat) (runs more : List (String × Except Fault Unit)) :
    numbered first (runs ++ more) = numbered first runs ++ numbered (first + runs.length) more := by
  induction runs generalizing first with
  | nil => simp [numbered]
  | cons run rest ih =>
    rcases run with ⟨label, outcome⟩
    simp [numbered, ih, Nat.add_assoc, Nat.add_comm 1]

theorem Transaction.ne_active_of_mem_numbered {first : Nat}
    {runs : List (String × Except Fault Unit)} {transaction : Transaction}
    (member : transaction ∈ numbered first runs) : transaction.state ≠ .active := by
  induction runs generalizing first with
  | nil => cases member
  | cons run rest ih =>
    rcases List.mem_cons.mp member with rfl | later
    · exact Host.ending_ne_active run.2
    · exact ih later

/-- What performing a script on a working copy comes to: it went as `ran`. -/
structure Script.Went (ran : Ran) (working : Store) (before : Session)
    (after : Except Fault (List Entry) × Target × Session) : Prop where
  outcome : after.1.map (fun _ => ()) = ran.outcome
  working : after.2.1 = .working (StoreAct.runAll ran.acts working)
  committed : after.2.2.host.committed = Ran.settleAll ran.nested before.host.committed
  journal : after.2.2.host.journal =
    before.host.journal ++ Transaction.numbered before.host.nextNumber (Ran.begunAll ran.nested)
  number : after.2.2.host.nextNumber = before.host.nextNumber + (Ran.begunAll ran.nested).length

structure Session.Settled (ran : Ran) (before : Session)
    (after : Except Fault (List Entry) × Session) : Prop where
  outcome : after.1.map (fun _ => ()) = ran.outcome
  committed : after.2.host.committed = ran.settle before.host.committed
  journal : after.2.host.journal =
    before.host.journal ++ Transaction.numbered before.host.nextNumber ran.begun
  number : after.2.host.nextNumber = before.host.nextNumber + ran.begun.length

theorem forget_map {α β : Type} (result : Except Fault α) (f : α → β) :
    (result.map f).map (fun _ => ()) = result.map fun _ => () := by
  cases result <;> rfl

theorem Host.ending_map {α β : Type} (result : Except Fault α) (f : α → β) :
    ending (result.map f) = ending result := by
  cases result <;> rfl

section Sessions

variable {s : Session} {label : String} {body : Script}

theorem Session.run_eq (s : Session) (label : String) (body : Script) :
    s.run label body =
      let done := body.perform (.working s.host.committed.clone) (s.begin label)
      (done.1, done.2.2.conclude s.host.journal.length s.host.nextNumber label done.1
        (done.2.2.load done.2.1)) := rfl

theorem Script.perform_run (inner : String) (body : Script) (caught : Bool) (rest : Script)
    (target : Target) (s : Session) :
    (Script.run inner body caught rest).perform target s =
      match Entry.ofNested (s.run inner body).1 caught with
      | .error fault => (.error fault, target, (s.run inner body).2)
      | .ok entry => Script.prepend entry (rest.perform target (s.run inner body).2) := rfl

theorem Session.journal_conclude {ended : Session} {inner : List Transaction}
    (journal : ended.host.journal = (s.begin label).host.journal ++ inner)
    (result : Except Fault (List Entry)) (store : Store) :
    (ended.conclude s.host.journal.length s.host.nextNumber label result store).host.journal =
      s.host.journal ++ ⟨s.host.nextNumber, label, Host.ending result⟩ :: inner := by
  have closed (state : TransactionState) : (ended.host.close s.host.journal.length state).journal =
      s.host.journal ++ ⟨s.host.nextNumber, label, state⟩ :: inner := by
    simp [Host.close, journal, Session.begin, Host.begin, List.modify_eq_take_cons_drop]
  cases result with
  | ok entries => exact closed .committed
  | error fault => exact closed (.aborted fault)

theorem Session.nextNumber_conclude (ended : Session) (place number : Nat) (label : String)
    (result : Except Fault (List Entry)) (store : Store) :
    (ended.conclude place number label result store).host.nextNumber = ended.host.nextNumber := by
  cases result <;> rfl

theorem Script.label_ran (label : String) (script : Script) (base working : Store) :
    (script.ran label base working).label = label := by
  induction script generalizing base working with
  | finish | fail reason => rfl
  | act step rest ih =>
    unfold ran
    split
    · rfl
    · exact ih _ _
  | run inner body caught rest _ ih =>
    unfold ran
    dsimp only
    split
    · rfl
    · exact ih _ _
  | read body caught rest _ ih => exact ih _ _
  | committed rest ih | lastTransaction rest ih => exact ih _ _

theorem Script.acts_ran {label : String} {script : Script} {base working : Store}
    (returned : (script.ran label base working).outcome = .ok ()) :
    (script.ran label base working).acts = script.acts := by
  induction script generalizing base working with
  | finish => rfl
  | fail reason => cases returned
  | act step rest ih =>
    unfold ran at returned ⊢
    split at returned
    · cases returned
    · exact congrArg (step :: ·) (ih returned)
  | run inner body caught rest _ ih =>
    unfold ran at returned ⊢
    dsimp only at returned ⊢
    split at returned
    · cases returned
    · exact ih returned
  | read body caught rest _ ih => exact ih returned
  | committed rest ih | lastTransaction rest ih => exact ih returned

theorem Session.settled_of_went
    (went : Script.Went (body.ran label s.host.committed s.host.committed.clone)
      s.host.committed.clone
      (s.begin label) (body.perform (.working s.host.committed.clone) (s.begin label))) :
    Settled (body.ran label s.host.committed s.host.committed.clone) s (s.run label body) := by
  have named := body.label_ran label s.host.committed s.host.committed.clone
  generalize body.ran label s.host.committed s.host.committed.clone = ran at went named ⊢
  rw [Session.run_eq]
  dsimp only
  refine ⟨went.outcome, ?_, ?_, ?_⟩
  · rw [went.working]
    cases result : (body.perform (.working s.host.committed.clone) (s.begin label)).1 with
    | ok entries =>
      have returned : ran.outcome = .ok () := by rw [← went.outcome, result]; rfl
      rw [Ran.settle_of_returned returned]
      rfl
    | error fault =>
      have raised : ran.outcome = .error fault := by rw [← went.outcome, result]; rfl
      rw [Ran.settle_of_raised raised]
      exact went.committed
  · have ended : Host.ending (body.perform (.working s.host.committed.clone) (s.begin label)).1 =
        Host.ending ran.outcome := by
      rw [← went.outcome, Host.ending_map]
    rw [Session.journal_conclude went.journal, ended, ran.begun_eq, named]
    rfl
  · have begun : (s.begin label).host.nextNumber = s.host.nextNumber + 1 := rfl
    rw [nextNumber_conclude, went.number, ran.begun_eq, begun, List.length_cons, Nat.add_assoc,
      Nat.add_comm 1]

theorem Entry.ofNested_eq_error_iff {result : Except Fault (List Entry)} {caught : Bool}
    {fault : Fault} :
    ofNested result caught = .error fault ↔ result = .error fault ∧ caught = false := by
  cases result <;> cases caught <;> simp [ofNested]

namespace Script

variable {script rest : Script} {working : Store}

theorem Went.act {later : Ran} {step : StoreAct} {finding : StoreFinding} {after : Store}
    (stepped : step.run working = (.ok finding, after))
    (went : Went later after s (rest.perform (.working after) s)) :
    Went { later with acts := step :: later.acts } working s
      ((Script.act step rest).perform (.working working) s) := by
  have performed : (Script.act step rest).perform (.working working) s =
      prepend (.found finding) (rest.perform (.working after) s) := by
    simp only [perform, Session.load, stepped, Session.save]
  rw [performed]
  refine ⟨?_, ?_, went.committed, went.journal, went.number⟩
  · rw [← went.outcome]
    exact forget_map _ _
  · have onward : StoreAct.runAll (step :: later.acts) working =
        StoreAct.runAll later.acts after := by
      simp [StoreAct.runAll, stepped]
    rw [onward]
    exact went.working

theorem Went.run {first later : Ran} {closed : Except Fault (List Entry) × Session}
    (settled : Session.Settled first s closed) {entry : Entry}
    (went : Went later working closed.2 (rest.perform (.working working) closed.2)) :
    Went { later with nested := first :: later.nested } working s
      (prepend entry (rest.perform (.working working) closed.2)) := by
  refine ⟨?_, went.working, ?_, ?_, ?_⟩
  · rw [← went.outcome]
    exact forget_map _ _
  · calc (rest.perform (.working working) closed.2).2.2.host.committed
        = Ran.settleAll later.nested closed.2.host.committed := went.committed
      _ = Ran.settleAll later.nested (first.settle s.host.committed) := by rw [settled.committed]
      _ = Ran.settleAll (first :: later.nested) s.host.committed := by rw [Ran.settleAll]
  · calc (rest.perform (.working working) closed.2).2.2.host.journal
        = closed.2.host.journal ++
            Transaction.numbered closed.2.host.nextNumber (Ran.begunAll later.nested) :=
              went.journal
      _ = s.host.journal ++ (Transaction.numbered s.host.nextNumber first.begun ++
            Transaction.numbered (s.host.nextNumber + first.begun.length)
              (Ran.begunAll later.nested)) := by
          rw [settled.journal, settled.number, List.append_assoc]
      _ = s.host.journal ++
            Transaction.numbered s.host.nextNumber (Ran.begunAll (first :: later.nested)) := by
          rw [Ran.begunAll, Transaction.numbered_append]
  · calc (rest.perform (.working working) closed.2).2.2.host.nextNumber
        = closed.2.host.nextNumber + (Ran.begunAll later.nested).length := went.number
      _ = s.host.nextNumber + (first.begun.length + (Ran.begunAll later.nested).length) := by
          rw [settled.number, Nat.add_assoc]
      _ = s.host.nextNumber + (Ran.begunAll (first :: later.nested)).length := by
          rw [Ran.begunAll, List.length_append]

theorem went (label : String) (runsOnly : script.RunsOnly) (working : Store) (s : Session) :
    Went (script.ran label s.host.committed working) working s
      (script.perform (.working working) s) := by
  have nothing (s : Session) : s.host.journal =
      s.host.journal ++ Transaction.numbered s.host.nextNumber (Ran.begunAll []) := by
    simp [Ran.begunAll, Transaction.numbered]
  -- the script of a nested run is a part of the script
  induction script generalizing label working s with
  | finish | fail reason => exact ⟨rfl, rfl, rfl, nothing s, rfl⟩
  | act step rest ih =>
    rcases stepped : step.run working with ⟨fault | finding, after⟩
    · simp only [ran, perform, Session.load, Session.save, stepped]
      refine ⟨rfl, ?_, rfl, nothing s, rfl⟩
      simp [StoreAct.runAll, stepped]
    · simp only [ran, stepped]
      exact .act stepped (ih label runsOnly after s)
  | run inner body caught rest ihBody ihRest =>
    have settled : Session.Settled (body.ran inner s.host.committed s.host.committed.clone) s
        (s.run inner body) :=
      Session.settled_of_went (ihBody inner runsOnly.1 s.host.committed.clone (s.begin inner))
    rw [perform_run]
    simp only [ran]
    generalize body.ran inner s.host.committed s.host.committed.clone = first at settled ⊢
    generalize s.run inner body = closed at settled ⊢
    cases nested : Entry.ofNested closed.1 caught with
    | error raised =>
      obtain ⟨isRaised, rfl⟩ := Entry.ofNested_eq_error_iff.mp nested
      have outcome := settled.outcome
      rw [isRaised] at outcome
      simp only [← outcome, Except.map]
      refine ⟨rfl, rfl, ?_, ?_, ?_⟩
      · rw [settled.committed, Ran.settleAll, Ran.settleAll]
      · rw [settled.journal, Ran.begunAll, Ran.begunAll, List.append_nil]
      · rw [settled.number, Ran.begunAll, Ran.begunAll, List.append_nil]
    | ok entry =>
      have onward := ihRest label runsOnly.2 working closed.2
      rw [settled.committed] at onward
      split
      · rename_i raised isRaised
        have stopped :=
          Entry.ofNested_eq_error_iff.mpr
            ⟨map_eq_error_iff.mp (settled.outcome.trans isRaised), rfl⟩
        rw [nested] at stopped
        cases stopped
      · exact .run settled onward
  | read body caught rest _ _ => exact absurd runsOnly (by simp [RunsOnly])
  | committed rest ih | lastTransaction rest ih =>
    have later := ih label runsOnly working s
    exact ⟨(forget_map _ _).trans later.outcome, later.working, later.committed, later.journal,
      later.number⟩

end Script

end Sessions

section Stages

/-- The sessions that a script passes on its way: those between its own steps, and those of the
scripts that it runs, from the beginning of their transactions. -/
def Script.stages : Script → Target → Session → List Session
  | .finish, _, s | .fail _, _, s => [s]
  | .act step rest, target, s =>
    let (found, store) := step.run (s.load target)
    let (target, after) := s.save target store
    s :: after :: match found with
      | .error _ => []
      | .ok _ => rest.stages target after
  | .run inner body caught rest, target, s =>
    let (result, closed) := s.run inner body
    s :: (body.stages (.working s.host.committed.clone) (s.begin inner) ++ closed ::
      match Entry.ofNested result caught with
      | .error _ => []
      | .ok _ => rest.stages target closed)
  | .read body caught rest, target, s =>
    let (result, ended) := s.read body
    s :: (body.stages s.current s ++ ended ::
      match Entry.ofNested result caught with
      | .error _ => []
      | .ok _ => rest.stages target ended)
  | .committed rest, target, s | .lastTransaction rest, target, s => s :: rest.stages target s

namespace Host

/-- The transactions begun so far have the numbers from 0 on, in the order in which they began. -/
def InOrder (host : Host) : Prop := host.journal.map (·.number) = List.range host.nextNumber

/-- The transaction that is shown as the last one is the one that was begun last. -/
structure ShowsLastBegun (host : Host) : Prop where
  place : host.last.map (· + 1) = some host.journal.length
  shown : host.lastTransaction = host.journal.getLast?
  number : host.lastTransaction.map (·.number + 1) = some host.nextNumber

/-- A property of hosts that survives the beginning and the end of a transaction and
every commit. -/
structure Kept (property : Host → Prop) : Prop where
  begin : ∀ {host} (label : String), property host → property (host.begin label)
  close : ∀ {host} (place : Nat) (state : TransactionState), property host →
    property (host.close place state)
  commit : ∀ {host} (store : Store), property host → property { host with committed := store }

theorem inOrder_start (store : Store) : (start store).InOrder := rfl

theorem numbers_close (host : Host) (place : Nat) (state : TransactionState) :
    (host.close place state).journal.map (·.number) = host.journal.map (·.number) := by
  apply List.ext_getElem?
  intro position
  simp only [close, List.getElem?_map, List.getElem?_modify]
  cases host.journal[position]? <;> simp
  split <;> rfl

theorem kept_inOrder : Kept InOrder where
  begin {host} label before := by
    simp only [InOrder, begin, List.map_append, List.map_cons, List.map_nil,
      List.range_succ] at before ⊢
    rw [before]
  close {host} place state before := (host.numbers_close place state).trans before
  commit _ before := before

theorem showsLastBegun_begin (host : Host) (label : String) :
    (host.begin label).ShowsLastBegun := by
  constructor <;> simp [lastTransaction, begin]

theorem kept_showsLastBegun : Kept ShowsLastBegun where
  begin {host} label _ := host.showsLastBegun_begin label
  close {host} place state before := by
    have sameLength : (host.close place state).journal.length = host.journal.length := by
      simp [close]
    have isLast : (host.close place state).last.map (· + 1) =
        some (host.close place state).journal.length := by
      rw [sameLength]
      exact before.place
    obtain ⟨last, atLast, follows⟩ := Option.map_eq_some_iff.mp before.place
    have shown (journal : List Transaction) (length : journal.length = host.journal.length) :
        host.last.bind (journal[·]?) = journal.getLast? := by
      rw [atLast, List.getLast?_eq_getElem?, length, ← follows]
      rfl
    refine ⟨isLast, shown _ sameLength, ?_⟩
    have sameNumbers : (host.close place state).journal.map (·.number + 1) =
        host.journal.map (·.number + 1) := by
      have numbers := congrArg (List.map (· + 1)) (host.numbers_close place state)
      rw [List.map_map, List.map_map] at numbers
      exact numbers
    calc (host.close place state).lastTransaction.map (·.number + 1)
        = ((host.close place state).journal.map (·.number + 1)).getLast? := by
          rw [List.getLast?_map]
          exact congrArg _ (shown _ sameLength)
      _ = host.lastTransaction.map (·.number + 1) := by
          rw [sameNumbers, List.getLast?_map, before.shown]
      _ = some host.nextNumber := before.number
  commit _ before := ⟨before.place, before.shown, before.number⟩

end Host

variable {s : Session} {property : Host → Prop}

section Kept

variable (kept : Host.Kept property)
include kept

theorem Session.keeps_save (before : property s.host) (target : Target) (store : Store) :
    property (s.save target store).2.host := by
  cases target with
  | working _ => exact before
  | version number =>
    unfold save
    dsimp only
    split
    · exact before
    · exact kept.commit store before

theorem Session.keeps_conclude (before : property s.host) (place number : Nat) (label : String)
    (result : Except Fault (List Entry)) (store : Store) :
    property (s.conclude place number label result store).host := by
  cases result with
  | ok entries => exact kept.commit store (kept.close place .committed before)
  | error fault => exact kept.close place (.aborted fault) before

theorem Script.keeps_perform {script : Script} (before : property s.host) (target : Target) :
    property (script.perform target s).2.2.host := by
  induction script generalizing target s with
  | finish | fail reason => exact before
  | act step rest ih =>
    have saved := Session.keeps_save kept before target (step.run (s.load target)).2
    unfold perform
    dsimp only
    split
    · exact saved
    · exact ih saved _
  | run inner body caught rest ihBody ihRest =>
    have closed : property (s.run inner body).2.host :=
      Session.keeps_conclude kept (ihBody (kept.begin inner before) _) _ _ _ _ _
    rw [perform_run]
    split
    · exact closed
    · exact ihRest closed target
  | read body caught rest ihBody ihRest =>
    have ended := ihBody before s.current
    unfold perform
    dsimp only
    split
    · exact ended
    · exact ihRest ended target
  | committed rest ih | lastTransaction rest ih => exact ih before target

theorem Session.keeps_run {label : String} (body : Script) (begun : property (s.begin label).host) :
    property (s.run label body).2.host :=
  keeps_conclude kept (Script.keeps_perform kept begun _) _ _ _ _ _

theorem Script.keeps_stages {script : Script} (before : property s.host) (target : Target) :
    ∀ stage ∈ script.stages target s, property stage.host := by
  induction script generalizing target s with
  | finish | fail reason => simpa [stages] using before
  | act step rest ih =>
    have saved := Session.keeps_save kept before target (step.run (s.load target)).2
    simp only [stages, List.forall_mem_cons]
    refine ⟨before, saved, ?_⟩
    split
    · exact fun _ member => absurd member List.not_mem_nil
    · exact ih saved _
  | run inner body caught rest ihBody ihRest =>
    have begun : property (s.begin inner).host := kept.begin inner before
    have closed := Session.keeps_run kept body begun
    simp only [stages, List.forall_mem_cons, List.forall_mem_append]
    refine ⟨before, ihBody begun _, closed, ?_⟩
    split
    · exact fun _ member => absurd member List.not_mem_nil
    · exact ihRest closed target
  | read body caught rest ihBody ihRest =>
    have ended : property (s.read body).2.host := keeps_perform kept before s.current
    simp only [stages, List.forall_mem_cons, List.forall_mem_append]
    refine ⟨before, ihBody before _, ended, ?_⟩
    split
    · exact fun _ member => absurd member List.not_mem_nil
    · exact ihRest ended target
  | committed rest ih | lastTransaction rest ih =>
    simp only [stages, List.forall_mem_cons]
    exact ⟨before, ih before target⟩

end Kept

end Stages

/-- A nested run that returns, and one that fails after a run of its own has returned, and
is caught. -/
def Script.tangled (last : Script) : Script :=
  .act .nextId (.run "inner" (.act .nextId (.act .nextId .finish)) false
    (.run "broken" (.run "deep" (.act (.setEpoch 5) .finish) false (.fail "broken")) true last))

end NameTree
