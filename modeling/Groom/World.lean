import Groom.Error

/-!
The world of a run: the tree of files, the state of the runner, and a journal of what has happened
so far. The journal only grows, at its end.
-/
namespace Groom

/-- One thing that happened. -/
inductive Event where
  /-- The runner was given a request and answered. -/
  | called (request : Request) (answer : Except IoError Status)
  /-- A command showed something on the terminal. -/
  | shown (shown : Shown)
  /-- The report took a piece of text. -/
  | wrote (piece : String)
  /-- The report took a part of a piece of text and refused the rest. -/
  | refused (part : String) (cause : IoError)
  /-- The content of a file was captured. -/
  | captured (path : Path) (content : Except IoError Bytes)
  /-- A file was searched for by name, with these results. -/
  | searched (name : String) (candidates : List Path)
  /-- A record was logged. -/
  | logged (record : Log.Record)

/-- The state of a run. -/
structure World (σ : Type) where
  tree : Tree
  runner : σ
  journal : List Event := []

namespace Event

def request? : Event → Option Request
  | .called request _ => some request
  | _ => none

def piece? : Event → Option String
  | .wrote piece => some piece
  | .refused part _ => some part
  | _ => none

/-- The record that was logged, by this program or by what it ran. -/
def record? : Event → Option Log.Record
  | .logged record => some record
  | .shown (.record record) => some record
  | _ => none

end Event

namespace World

variable {σ : Type}

def note (w : World σ) (e : Event) : World σ := { w with journal := w.journal ++ [e] }

/-- The requests the runner was given, in order. -/
def requests (w : World σ) : List Request := w.journal.filterMap Event.request?

def report (w : World σ) : String := String.join (w.journal.filterMap Event.piece?)

def records (w : World σ) : List Log.Record := w.journal.filterMap Event.record?

end World

end Groom
