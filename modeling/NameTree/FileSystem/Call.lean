import NameTree.Event
import NameTree.Host
import NameTree.Store.Direct

/-!
The calls that a file system answers, the steps that can follow one another from outside, and the
reactions of a listener, which may take further steps or act on the containers of the committed
store. A listener that keeps to steps can do nothing that could not be done from outside.
-/

namespace NameTree

inductive Call where
  | mutate (caller : Option String) (mutation : Mutation)
  | query (query : Query)
  | pathExists (path : String)
  | isDir (path : String)
  | isFile (path : String)
  | owner
  | lastTransaction

inductive Answer where
  | done
  | id (id : Int)
  | flag (flag : Bool)
  | reply (reply : Reply)
  | owner (owner : Option String)
  | transaction (transaction : Option Transaction)
  deriving DecidableEq

/-- The answer to the caller of a mutation: new ids are told, removed ones are not. -/
def Effect.answer : Effect → Answer
  | .bound id => .id id
  | _ => .done

/-- A call, or another thread takes the lock or lets it go. Letting go does nothing when no other
thread has it. -/
inductive Step where
  | call (call : Call)
  | hold
  | release

/-- What a listener does about an event: it stops, fails, takes a step and goes on with the answer,
or acts directly on the committed store and goes on with what it found. It is in the state `state`
when it does so; a step may change that again. -/
inductive Reaction (σ : Type) where
  | stop (state : σ)
  | fail (state : σ) (fault : Fault)
  | step (state : σ) (step : Step) (next : σ → Except Fault Answer → Reaction σ)
  | act (state : σ) (act : StoreAct) (next : σ → Except Fault StoreFinding → Reaction σ)

abbrev Listener (σ : Type) := Event → σ → Reaction σ

/-- Whatever it is answered, the reaction never acts directly on the store. -/
def Reaction.StepsOnly {σ : Type} : Reaction σ → Prop
  | .stop _ => True
  | .fail _ _ => True
  | .step _ _ next => ∀ state answer, (next state answer).StepsOnly
  | .act _ _ _ => False

def Listener.StepsOnly {σ : Type} (listener : Listener σ) : Prop :=
  ∀ event state, (listener event state).StepsOnly

end NameTree
