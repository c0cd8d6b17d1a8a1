import Groom.Toml.Quoted
import Groom.Toml.Scalar
import Groom.Toml.Table

/-!
Reading a configuration text into a table. Arrays and tables between braces nest to a limit.
-/
namespace Groom.Toml

/-- How deep arrays and tables between braces may nest, and how many parts a key may have. -/
def maxDepth : Nat := 80

def dropBlanks (cs : List Char) : List Char := cs.dropWhile fun c => c = ' ' ∨ c = '\t'

/-- Scans the rest of a line that holds a comment or nothing: what follows its end. -/
def lineEnd? (inComment : Bool) : List Char → Option (List Char)
  | [] => some []
  | '\n' :: rest => some rest
  | '\r' :: '\n' :: rest => some rest
  | c :: rest =>
    if inComment then if isPlain c then lineEnd? true rest else none
    else if c = ' ' ∨ c = '\t' then lineEnd? false rest
    else if c = '#' then lineEnd? true rest
    else none

/-- Scans blanks, line ends and comments: what follows them. -/
def gap? (inComment : Bool) : List Char → Option (List Char)
  | [] => some []
  | '\n' :: rest => gap? false rest
  | '\r' :: '\n' :: rest => gap? false rest
  | c :: rest =>
    if inComment then if isPlain c then gap? true rest else none
    else if c = ' ' ∨ c = '\t' then gap? false rest
    else if c = '#' then gap? true rest
    else some (c :: rest)

/-- Whether a character may stand in a key without quotes. -/
def isBare (c : Char) : Bool := c.isAlphanum ∨ c = '_' ∨ c = '-'

def keyPart? (cs : List Char) : Option (String × List Char) :=
  match cs.takeWhile isBare with
  | [] => (Quoted.line? cs).map fun (text, rest) => (String.ofList text, rest)
  | part => some (String.ofList part, cs.dropWhile isBare)

/-- Scans a key of so many parts at most, and the blanks after it: the parts in front of the last
one, the last one, and what follows. -/
def parts? : (most : Nat) → List Char → Option (List String × String × List Char)
  | 0, _ => none
  | most + 1, cs => do
    let (part, rest) ← keyPart? cs
    match dropBlanks rest with
    | '.' :: rest =>
      let (path, last, rest) ← parts? most (dropBlanks rest)
      return (part :: path, last, rest)
    | rest => return ([], part, rest)

/-- Scans a key and the blanks after it. -/
def key? (cs : List Char) : Option (List String × String × List Char) := parts? maxDepth cs

/-- Scans the sign between a key and its value, with the blanks after it. -/
def equals? : List Char → Option (List Char)
  | '=' :: rest => some (dropBlanks rest)
  | _ => none

/-- Scans the sign between a key and its value between braces, where lines may end around it. -/
def looseEquals? (cs : List Char) : Option (List Char) := do
  let '=' :: rest ← gap? false cs | none
  gap? false rest

mutual

def value? : (fuel depth : Nat) → List Char → Option (Value × List Char)
  | 0, _, _ => none
  | fuel + 1, depth, cs =>
    match cs with
    | '"' :: _ | '\'' :: _ =>
      (Quoted.text? cs).map fun (text, rest) => (.string (String.ofList text), rest)
    | '[' :: rest =>
      match depth with
      | 0 => none
      | depth + 1 => do
        let (items, rest) ← items? fuel depth (← gap? false rest)
        return (.array false items, rest)
    | '{' :: rest =>
      match depth with
      | 0 => none
      | depth + 1 => do
        let (entries, rest) ← fields? fuel depth [] (← gap? false rest)
        return (.table .inline entries, rest)
    | _ => Scalar.scan? cs

/-- Scans the rest of an array, up to its closing bracket. -/
def items? : (fuel depth : Nat) → List Char → Option (List Value × List Char)
  | 0, _, _ => none
  | fuel + 1, depth, cs =>
    match cs with
    | ']' :: rest => some ([], rest)
    | _ => do
      let (item, rest) ← value? fuel depth cs
      match ← gap? false rest with
      | ']' :: rest => return ([item], rest)
      | ',' :: rest =>
        let (items, rest) ← items? fuel depth (← gap? false rest)
        return (item :: items, rest)
      | _ => none

/-- Scans the rest of a table between braces, up to the closing one. -/
def fields? : (fuel depth : Nat) → Fields → List Char → Option (Fields × List Char)
  | 0, _, _, _ => none
  | fuel + 1, depth, es, cs =>
    match cs with
    | '}' :: rest => some (es, rest)
    | _ => do
      let (path, key, rest) ← key? cs
      let (value, rest) ← value? fuel depth (← looseEquals? rest)
      let es ← Fields.assign path key value .inline es
      match ← gap? false rest with
      | '}' :: rest => return (es, rest)
      | ',' :: rest => fields? fuel depth es (← gap? false rest)
      | _ => none

end

/-- Reads lines: headers, and keys that belong to the table `here`. -/
def lines? : (fuel : Nat) → (here : List String) → Fields → List Char → Option Fields
  | 0, _, _, _ => none
  | fuel + 1, here, es, cs => do
    match ← gap? false cs with
    | [] => return es
    | '[' :: '[' :: rest =>
      let (path, key, rest) ← key? (dropBlanks rest)
      let ']' :: ']' :: rest := rest | none
      lines? fuel (path ++ [key]) (← Fields.extendArray path key es) (← lineEnd? false rest)
    | '[' :: rest =>
      let (path, key, rest) ← key? (dropBlanks rest)
      let ']' :: rest := rest | none
      lines? fuel (path ++ [key]) (← Fields.openTable path key es) (← lineEnd? false rest)
    | cs =>
      let (path, key, rest) ← key? cs
      let (value, rest) ← value? fuel maxDepth (← equals? rest)
      let es ← Fields.descend false (Fields.assign path key value) here .header es
      lines? fuel here es (← lineEnd? false rest)

/-- Reads a text into a table; `none` if the text does not follow the grammar. A byte order mark at
the start is passed over. -/
def parse? (text : String) : Option Fields :=
  let cs := text.toList
  let cs := if cs.head? = some '\uFEFF' then cs.tail else cs
  -- every line takes at least one character, and every value inside it another
  lines? (2 * cs.length + 2) [] [] cs

end Groom.Toml
