/-!
Flows: finite sequences whose members are found one at a time, while the sequence is consumed.
Finding the next member is an action, and what it sees may depend on all that was done before.
-/
namespace Groom

/-- A finite sequence that is found while it is consumed. -/
inductive Flow (m : Type → Type) (α : Type) : Type 1 where
  | done
  /-- The member `a`, then the rest. -/
  | next (a : α) (rest : Flow m α)
  /-- How the sequence goes on is the answer to a question. -/
  | ask {ρ : Type} (question : m ρ) (rest : ρ → Flow m α)

namespace Flow

variable {m : Type → Type} {α β : Type}

def ofList : List α → Flow m α
  | [] => .done
  | a :: rest => .next a (ofList rest)

/-- Acts on every member when it is found; the results are the new members. -/
def mapM (f : α → m β) : Flow m α → Flow m β
  | .done => .done
  | .next a rest => .ask (f a) fun b => .next b (mapM f rest)
  | .ask question rest => .ask question fun r => mapM f (rest r)

def foldM [Monad m] (f : β → α → m β) : β → Flow m α → m β
  | b, .done => pure b
  | b, .next a rest => do foldM f (← f b a) rest
  | b, .ask question rest => do foldM f b (rest (← question))

def toList [Monad m] (flow : Flow m α) : m (List α) :=
  flow.foldM (fun found a => pure (found ++ [a])) []

end Flow

end Groom
