import Groom.FileSystem
import Groom.World

/-!
Runs: computations that may read files, call the runner, write to the report and log, and that stop
at the first error. What the surroundings decide once and for all is a `Setting`.
-/
namespace Groom

/-- The refusal of a piece of text. A part of it may be taken before, but not all of it. -/
structure Refusal (piece : String) where
  part : String
  rest : String
  cause : IoError
  split : piece = part ++ rest
  lacking : rest ≠ ""

/-- Decides, from the text taken so far, whether a piece of text is refused. -/
structure Writer where
  refuse : (taken piece : String) → Option (Refusal piece)

namespace Writer

def willing : Writer := ⟨fun _ _ => none⟩

/-- Takes everything until it has so many complete lines, and nothing more. -/
def lines (n : Nat) : Writer :=
  ⟨fun taken piece =>
    if h : n ≤ taken.toList.count '\n' ∧ piece ≠ "" then
      some ⟨"", piece, .other "broken pipe", String.empty_append.symm, h.2⟩
    else none⟩

end Writer

/-- The surroundings of a run. -/
structure Setting (σ : Type) where
  cwd : Working
  runner : Runner σ
  writer : Writer

/-- A computation in a world that stops at the first error. -/
abbrev Run (σ : Type) (α : Type) := ExceptT Error (StateM (World σ)) α

namespace Run

variable {σ : Type}

def note (e : Event) : Run σ Unit := modify (·.note e)

def log (level : Log.Level) (topic : Log.Topic) (message : String) : Run σ Unit :=
  note (.logged ⟨level, topic, message⟩)

def files (s : Setting σ) : Run σ FileSystem := return ⟨(← get).tree, s.cwd⟩

def writePiece (s : Setting σ) (piece : String) : Run σ Unit := do
  match s.writer.refuse (← get).report piece with
  | none => note (.wrote piece)
  | some refusal =>
    note (.refused refusal.part refusal.cause)
    throw (.output refusal.cause)

/-- Writes a line to the report, piece by piece; an empty piece is not written. -/
def writeLine (s : Setting σ) (pieces : List String) : Run σ Unit :=
  ((pieces ++ ["\n"]).filter (· ≠ "")).forM (writePiece s)

def capture (s : Setting σ) (file : Path) : Run σ Bytes := do
  let content := (← files s).read file
  note (.captured file content)
  match content with
  | .ok content => return content
  | .error cause => throw (.io file cause)

def call (s : Setting σ) (request : Request) : Run σ (Except IoError Status) := do
  let w ← get
  let reply := s.runner request w.runner w.tree
  set { w with tree := reply.tree, runner := reply.state }
  -- the call comes before all that it showed
  note (.called request reply.answer)
  reply.shown.forM fun shown => note (.shown shown)
  return reply.answer

end Run

end Groom
