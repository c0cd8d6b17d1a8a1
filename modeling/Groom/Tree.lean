import Groom.Bytes

/-!
The tree of files, directories and links, as a value. A place in it is the list of names that lead
there from the root; paths with dots and links are resolved in `Groom.FileSystem`.
-/
namespace Groom

/-- The longest name of an entry, in bytes. -/
def Resolution.maxName : Nat := 255

/-- Whether a byte string may name an entry of a directory: it is not empty and not too long, holds
neither a slash nor a zero, and is neither of the two dot names. -/
def isEntryName (bs : Bytes) : Bool :=
  bs ≠ [] ∧ Bytes.slash ∉ bs ∧ bs ≠ [Bytes.dot] ∧ bs ≠ [Bytes.dot, Bytes.dot] ∧
    (0 : UInt8) ∉ bs ∧ bs.length ≤ Resolution.maxName

/-- The name of an entry of a directory. -/
structure Name where
  bytes : Bytes
  proper : isEntryName bytes = true
  deriving DecidableEq, Repr

namespace Name

/-- A byte string as a name, if it may be one. -/
def ofBytes? (bs : Bytes) : Option Name :=
  if h : isEntryName bs = true then some ⟨bs, h⟩ else none

theorem bytes_ne_nil (n : Name) : n.bytes ≠ [] := by
  have h := n.proper
  simp only [isEntryName, decide_eq_true_eq] at h
  exact h.1

end Name

/-- A place in a tree: the names that lead to it from the root, none of them a link. -/
abbrev Location := List Name

/-- What an entry is, without its content. -/
inductive Kind where
  | file
  | link
  | directory
  | device
  deriving DecidableEq, Repr

/-- An entry of a tree. -/
inductive Node where
  | file (content : Bytes) (executable : Bool)
  /-- A symbolic link, with the path it holds. -/
  | link (target : Bytes)
  /-- A directory. Of two entries with one name the first counts. -/
  | directory (entries : List (Name × Node))
  /-- A device that reads as empty and swallows what is written to it. -/
  | device
  deriving Inhabited

abbrev Entries := List (Name × Node)

namespace Entries

def find? (es : Entries) (name : Name) : Option Node :=
  match es with
  | [] => none
  | (n, node) :: rest => if n = name then some node else Entries.find? rest name

def insert (es : Entries) (name : Name) (node : Node) : Entries :=
  match es with
  | [] => [(name, node)]
  | (n, old) :: rest =>
    if n = name then (n, node) :: rest else (n, old) :: Entries.insert rest name node

def erase (es : Entries) (name : Name) : Entries := es.filter (·.1 ≠ name)

@[simp] theorem find?_nil (name : Name) : find? [] name = none := rfl

theorem find?_insert_self (es : Entries) (name : Name) (node : Node) :
    find? (insert es name node) name = some node := by
  induction es with
  | nil => simp [insert, find?]
  | cons e rest ih =>
    obtain ⟨n, old⟩ := e
    by_cases h : n = name <;> simp [insert, find?, h, ih]

theorem find?_insert_of_ne (es : Entries) {name other : Name} (node : Node) (h : other ≠ name) :
    find? (insert es name node) other = find? es other := by
  induction es with
  | nil => simp [insert, find?, Ne.symm h]
  | cons e rest ih =>
    obtain ⟨n, old⟩ := e
    by_cases hn : n = name
    · subst hn
      simp [insert, find?, Ne.symm h]
    · by_cases ho : n = other
      · subst ho
        simp [insert, find?, hn]
      · simp [insert, find?, hn, ho, ih]

theorem find?_erase_self (es : Entries) (name : Name) : find? (erase es name) name = none := by
  induction es with
  | nil => rfl
  | cons e rest ih =>
    obtain ⟨n, old⟩ := e
    by_cases h : n = name
    · simpa [erase, h] using ih
    · simpa [erase, find?, h] using ih

theorem find?_erase_of_ne (es : Entries) {name other : Name} (h : other ≠ name) :
    find? (erase es name) other = find? es other := by
  induction es with
  | nil => rfl
  | cons e rest ih =>
    obtain ⟨n, old⟩ := e
    by_cases hn : n = name
    · subst hn
      simpa [erase, find?, Ne.symm h] using ih
    · by_cases ho : n = other
      · subst ho
        simp [erase, find?, hn]
      · simpa [erase, find?, hn, ho] using ih

end Entries

namespace Node

def kind : Node → Kind
  | .file .. => .file
  | .link _ => .link
  | .directory _ => .directory
  | .device => .device

def isDirectory : Node → Bool
  | .directory _ => true
  | _ => false

/-- The entry at a place below this one. -/
def at? : Node → Location → Option Node
  | node, [] => some node
  | .directory es, name :: rest => (Entries.find? es name).bind (·.at? rest)
  | _, _ :: _ => none

/-- Changes what stands at a place below this one: `change` is given the entry there, if any, and
answers the new one. Nothing happens where a directory on the way is missing. -/
def alter (change : Option Node → Option Node) : Node → Location → Node
  | node, [] => (change (some node)).getD node
  | .directory es, [name] =>
    match change (Entries.find? es name) with
    | some node => .directory (Entries.insert es name node)
    | none => .directory (Entries.erase es name)
  | .directory es, name :: rest =>
    match Entries.find? es name with
    | some child => .directory (Entries.insert es name (child.alter change rest))
    | none => .directory es
  | node, _ :: _ => node

end Node

/-- Puts an entry of a listing in its place by the order of the names' bytes; an entry of the same
name makes way. -/
def insertByName {α : Type} (name : Name) (a : α) : List (Name × α) → List (Name × α)
  | [] => [(name, a)]
  | (n, b) :: rest =>
    if n = name then (name, a) :: rest
    else if name.bytes < n.bytes then (name, a) :: (n, b) :: rest
    else (n, b) :: insertByName name a rest

/-- The entries of a directory in the order of their names, each name once. -/
def Entries.sorted (es : Entries) : Entries :=
  es.foldr (fun e listing => insertByName e.1 e.2 listing) []

mutual

/-- The regular files at and below an entry that stands at `loc`, with their contents. -/
def Node.files (loc : Location) : Node → List (Location × Bytes)
  | .file content _ => [(loc, content)]
  | .link _ | .device => []
  | .directory es => Node.filesOfEntries loc es

/-- The regular files of the entries of the directory at `loc`. -/
def Node.filesOfEntries (loc : Location) : List (Name × Node) → List (Location × Bytes)
  | [] => []
  | (name, node) :: rest => Node.files (loc ++ [name]) node ++ Node.filesOfEntries loc rest

end

/-- A tree is its root directory. What was removed from it is remembered, since a place can be
taken again while something still refers to what stood there before. -/
structure Tree where
  entries : Entries
  /-- The places from which entries were removed, the last one first. -/
  removals : List Location := []
  deriving Inhabited

namespace Tree

def root (t : Tree) : Node := .directory t.entries

def node? (t : Tree) (loc : Location) : Option Node := t.root.at? loc

/-- Changes what stands at a place; see `Node.alter`. The root stays a directory. -/
def alter (t : Tree) (loc : Location) (change : Option Node → Option Node) : Tree :=
  match t.root.alter change loc with
  | .directory entries => { t with entries }
  | _ => t

def put (t : Tree) (loc : Location) (node : Node) : Tree := t.alter loc fun _ => some node

def remove (t : Tree) (loc : Location) : Tree :=
  { t.alter loc fun _ => none with removals := loc :: t.removals }

end Tree

end Groom
