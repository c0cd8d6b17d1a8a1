import Groom.Flow
import Groom.Run
import Groom.Selection

/-!
The walk over a tree of files. Directories are entered depth first, in the order of the names'
bytes, and each is listed when it is entered and not before. Links are not entered, except at the
root of the walk, but a link that leads to a file counts as that file.
-/
namespace Groom.Walk

variable {σ : Type}

def skip (path : Path) (cause : IoError) : Run σ Unit :=
  Run.log .warn .walk
    s!"Skipping unreadable entry: IO error for operation on {path.display}: {cause.message}"

/-- Offers an entry: it is a member if it leads to a regular file now and the selection accepts it.
-/
def offer (s : Setting σ) (selection : Selection) (path : Path)
    (rest : Flow (Run σ) Path) : Flow (Run σ) Path :=
  .ask (return (← Run.files s).isFile path && selection.accepts path) fun wanted =>
    if wanted then .next path rest else rest

/-- Visits an entry that was listed as `kind`, and what is below it. A directory is listed before it
is offered itself. `depth` bounds how deep the walk may still go: a path grows with every level, so
a directory at a depth of `Resolution.maxPath` cannot be listed. -/
def visit (s : Setting σ) (selection : Selection) :
    (depth : Nat) → Path → Kind → Flow (Run σ) Path → Flow (Run σ) Path
  | 0, path, .directory, rest =>
    offer s selection path (.ask (skip path .nameTooLong) fun _ => rest)
  | depth + 1, path, .directory, rest =>
    -- the members are fixed here; what they are is asked again when each is offered
    .ask (return (← Run.files s).list path) fun
      | .ok listing =>
        offer s selection path <|
          listing.foldr
            (fun entry rest => visit s selection depth (path.join ⟨entry.1.bytes⟩) entry.2 rest)
            rest
      | .error cause => offer s selection path (.ask (skip path cause) fun _ => rest)
  | _, path, _, rest => offer s selection path rest

/-- The regular files below `root` that a selection accepts. -/
def targets (s : Setting σ) (root : Path) (selection : Selection) : Flow (Run σ) Path :=
  .ask (return (← Run.files s).linkStatus root) fun
    | .error cause => .ask (skip root cause) fun _ => .done
    | .ok (.link _) =>
      -- only at the root is a link to a directory entered
      .ask (return (← Run.files s).status root) fun
        | .error cause => .ask (skip root cause) fun _ => .done
        | .ok node => visit s selection Resolution.maxPath root node.kind .done
    | .ok node => visit s selection Resolution.maxPath root node.kind .done

end Groom.Walk
