import NameTree.FileSystem.Call

/-!
Ready-made listeners. All of them keep the list of what they were told.
-/

namespace NameTree

inductive Note where
  | event (event : Event)
  | answer (answer : Answer)
  | finding (finding : StoreFinding)
  deriving DecidableEq

/-- What a listener was told so far, and how many reactions it has left. -/
structure Notebook where
  notes : List Note
  left : Nat
  deriving DecidableEq

namespace Notebook

def add (book : Notebook) (note : Note) : Notebook := { book with notes := book.notes ++ [note] }

def settle {α : Type} (note : α → Note) (book : Notebook) : Except Fault α → Reaction Notebook
  | .ok outcome => .stop (book.add (note outcome))
  | .error fault => .fail book fault

theorem stepsOnly_settle {α : Type} (note : α → Note) (book : Notebook) (outcome : Except Fault α) :
    (book.settle note outcome).StepsOnly := by
  cases outcome <;> trivial

end Notebook

namespace Listener

def recorder : Listener Notebook := fun event book => .stop (book.add (.event event))

def failing (kinds : List String) (reason : String) : Listener Notebook := fun event book =>
  let book := book.add (.event event)
  if event.kind ∈ kinds then .fail book (.raised reason) else .stop book

/-- Reacts to the events of the given kinds, as long as reactions are left. -/
def reacting (kinds : List String) (react : Notebook → Reaction Notebook) : Listener Notebook :=
  fun event book =>
    let book := book.add (.event event)
    if event.kind ∈ kinds ∧ 0 < book.left then react { book with left := book.left - 1 }
    else .stop book

def stepping (kinds : List String) (step : Step) : Listener Notebook :=
  reacting kinds fun book => .step book step (Notebook.settle .answer)

def acting (kinds : List String) (act : StoreAct) : Listener Notebook :=
  reacting kinds fun book => .act book act (Notebook.settle .finding)

theorem stepsOnly_reacting (kinds : List String) (react : Notebook → Reaction Notebook)
    (reactsBySteps : ∀ book, (react book).StepsOnly) : (reacting kinds react).StepsOnly := by
  intro event book
  dsimp only [reacting]
  split
  · exact reactsBySteps _
  · trivial

theorem stepsOnly_stepping (kinds : List String) (step : Step) : (stepping kinds step).StepsOnly :=
  stepsOnly_reacting kinds _ fun _ book answer => book.stepsOnly_settle .answer answer

end Listener
end NameTree
