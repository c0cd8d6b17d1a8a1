import Groom.Shell.Source

/-!
Reading scripts, one complete command at a time. A command that cannot be read is noticed only when
those before it have been read.
-/
namespace Groom.Shell.Reader

open Source

/-- Where pieces of a word stand. -/
inductive Frame where
  /-- Outside quotation marks, up to a blank or an operator. In the delimiter of a text nothing is
  expanded. -/
  | plain (delimiter : Bool)
  /-- Between double quotes, up to the closing one. -/
  | quoted
  /-- In a text that stands in the script, up to its end. -/
  | document
  /-- After the change of a parameter, up to the closing brace; `inner` tells whether double quotes
  were opened there while the whole stands in double quotes. -/
  | braces (quoted inner : Bool)
  /-- In an arithmetic expression, so many parentheses deep. -/
  | sum (depth : Nat)
  deriving DecidableEq

namespace Frame

/-- Whether quotation marks and backslashes mean as much here as outside of quotes. -/
def isOpen : Frame → Bool
  | .plain _ | .braces false _ => true
  | _ => false

/-- Whether what is expanded here stays in one piece. -/
def guards : Frame → Bool
  | .plain _ | .braces false _ => false
  | _ => true

/-- Whether a backslash takes away the meaning of a character here. -/
def escapes (f : Frame) (c : Char) : Bool :=
  f.isOpen || c ∈ ['\\', '$', '\x60'] || (c = '"' ∧ f ≠ .document) ||
    match f with
    | .braces .. => c = '\x7d'
    | _ => false

end Frame

def endsWord (c : Char) : Bool := c ∈ [' ', '\t', '\n', ';', '&', '|', '<', '>', '(', ')']

/-- The text of a word without quotation marks and expansions. -/
def plain? : Word → Option (List Char)
  | [] => some []
  | .byte b false :: rest => (plain? rest).map (Char.ofNat b.toNat :: ·)
  | _ => none

/-- Whether a word holds quotation marks or quoted characters. -/
def isQuoted (w : Word) : Bool :=
  w.any fun
    | .quote | .byte _ true => true
    | _ => false

/-- The bytes of a word that holds no expansions. -/
def bytesOf (w : Word) : Bytes :=
  w.filterMap fun
    | .byte b _ => some b
    | _ => none

/-- Finds the directories of users in a word: behind a tilde at its start and, if `colons`, behind
one that follows a colon. `skip` counts the pieces that belong to the last one found. -/
def homes (colons : Bool) : (start : Bool) → (skip : Nat) → Word → Word
  | _, _, [] => []
  | start, skip + 1, _ :: rest => homes colons start skip rest
  | start, 0, p :: rest =>
    let isEnd (b : UInt8) : Bool := b = Bytes.slash ∨ (colons ∧ b = Bytes.ofChar ':')
    let goesOn : Piece → Bool
      | .byte b false => !isEnd b
      | _ => false
    match p with
    | .byte b false =>
      let user := rest.takeWhile goesOn
      let ended : Bool := match rest.drop user.length with
        | [] => true
        | .byte b false :: _ => isEnd b
        | _ => false
      if start ∧ b = Bytes.ofChar '~' ∧ ended then
        .home (bytesOf user) :: homes colons false user.length rest
      else p :: homes colons (colons && b = Bytes.ofChar ':') 0 rest
    | p => p :: homes colons false 0 rest

/-- Splits a word at the sign of an assignment. -/
def assignment? (w : Word) : Option (String × Word) :=
  go [] w
where
  /-- Carries the name so far, last character first. -/
  go (name : List Char) : Word → Option (String × Word)
    | .byte b false :: rest =>
      let c := Char.ofNat b.toNat
      if c = '=' then
        if isName name.reverse then
          some (String.ofList name.reverse, homes true true 0 rest)
        else none
      else go (c :: name) rest
    | _ => none

/-- The word that stands for all arguments, each by itself. -/
def everyArgument : Word := [.quote, .value .each .keep true, .quote]

/-- The commands that keep their meaning whatever a script defines. -/
def specialCommands : List String :=
  [".", ":", "break", "continue", "eval", "exec", "exit", "export", "local", "readonly", "return",
    "set", "shift", "times", "trap", "unset"]

def singleQuoted : (most : Nat) → Reading Word
  | 0 => fail "Unterminated quoted string"
  | most + 1 => do
    match ← nextRaw with
    | none => fail "Unterminated quoted string"
    | some '\'' => return []
    | some c => return .byte (byteOf c) true :: (← singleQuoted most)

/-- Reads the text up to a closing backquote; in double quotes a backslash counts also before a
double quote. -/
def backquoted (quoted : Bool) : (most : Nat) → Reading (List Char)
  | 0 => fail "EOF in backquote substitution"
  | most + 1 => do
    match ← next with
    | none => fail "EOF in backquote substitution"
    | some '\x60' => return []
    | some '\\' =>
      match ← nextRaw with
      | none => fail "EOF in backquote substitution"
      | some c =>
        let rest ← backquoted quoted most
        if c ∈ ['\\', '\x60', '$'] ∨ (quoted ∧ c = '"') then return c :: rest
        else return '\\' :: c :: rest
    | some c => return c :: (← backquoted quoted most)

def special? : Char → Option Parameter
  | '*' => some .joined
  | '@' => some .each
  | '#' => some .count
  | '?' => some .status
  | '-' => some .options
  | '$' => some .self
  | '!' => some .background
  | _ => none

/-- Reads the name of a parameter, if there is one; `long` admits numbers of several digits. -/
def parameter? (long : Bool) : Reading (Option Parameter) := do
  let most ← size
  match ← peek with
  | none => return none
  | some c =>
    if beginsName c then return some (.named (String.ofList (← takeWhile inName most)))
    else if c.isDigit then
      let digits ← takeWhile Char.isDigit (if long then most else 1)
      return some (.position ((String.ofList digits).toNat?.getD 0))
    else
      match special? c with
      | none => return none
      | some p =>
        let _ ← next
        return some p

/-- Reads what follows a number sign at the start of braces: the parameter whose length is wanted.
If it is the number of arguments that is meant, nothing is taken. -/
def measured? : Reading (Option Parameter) := do
  let before ← get
  match ← parameter? true with
  | some p => if ← accept '\x7d' then return some p else set before; return none
  | none => set before; return none

/-- The treatment of a missing value that a character asks for. -/
def absence? : Char → Option Absence
  | '-' => some .substitute
  | '=' => some .assign
  | '?' => some .complain
  | '+' => some .omit
  | _ => none

def within {α : Type} (text : List Char) (reading : Reading α) : Reading α := do
  let before ← get
  set { before with rest := text, line := 1, announced := [], waiting := none }
  let found ← reading
  modify fun s => { before with documents := s.documents }
  return found

/-- Blanks and comments are no part of a command. -/
def skipBlanks : (most : Nat) → Reading Unit
  | 0 => return
  | most + 1 => do
    match ← peek with
    | some c =>
      if c = ' ' ∨ c = '\t' then
        let _ ← next
        skipBlanks most
      else if c = '#' then modify fun s => { s with rest := s.rest.dropWhile (· ≠ '\n') }
    | none => return

/-- Reads the sign of a redirection after its first character. -/
def redirection (stream : Option Nat) (first : Char) : Reading Token := do
  let sign (opening : Opening) : Reading Token := return .redirection stream opening false
  if first = '>' then
    if ← accept '>' then sign .append
    else if ← accept '&' then sign .same
    else if ← accept '|' then sign .overwrite
    else sign .truncate
  else if ← accept '<' then return .redirection stream (.document 0) (← accept '-')
  else if ← accept '&' then return .redirection (stream.or (some 0)) .same false
  else if ← accept '>' then sign .update
  else sign .read

def operator (first : Char) : Reading Token := do
  let doubled ← if first ∈ [';', '&', '|'] then accept first else pure false
  return .operator (String.ofList (if doubled then [first, first] else [first]))

mutual

/-- Reads pieces of a word up to the end of their frame. -/
def pieces : (fuel : Nat) → Frame → Reading Word
  | 0, _ => fail "word too long"
  | fuel + 1, f => do
    let literal (c : Char) : Reading Word :=
      return .byte (byteOf c) (!f.isOpen) :: (← pieces fuel f)
    match ← peek with
    | none =>
      match f with
      | .plain _ | .document => return []
      | .quoted | .braces true _ => fail "Unterminated quoted string"
      | .braces false _ => fail "Missing \x27\x7d\x27"
      | .sum _ => fail "Missing \x27))\x27"
    | some c =>
      if (match f with | .plain _ => endsWord c | _ => false) then return []
      else
        let _ ← next
        match c with
        | '\\' =>
          match ← nextRaw with
          | none => return [.byte (byteOf '\\') true]
          | some d =>
            let rest ← pieces fuel f
            if f.escapes d then return .byte (byteOf d) true :: rest
            else return .byte (byteOf '\\') true :: .byte (byteOf d) true :: rest
        | '\'' =>
          if f.isOpen then
            let inner ← singleQuoted ((← size) + 1)
            return .quote :: inner ++ .quote :: (← pieces fuel f)
          else literal c
        | '"' =>
          match f with
          | .quoted => return []
          | .braces true inner => return .quote :: (← pieces fuel (.braces true (!inner)))
          | .plain _ | .braces false _ =>
            let inner ← pieces fuel .quoted
            return .quote :: inner ++ .quote :: (← pieces fuel f)
          | _ => literal c
        | '$' =>
          if f = .plain true then literal c
          else
            let piece ← dollar fuel f.guards
            return piece :: (← pieces fuel f)
        | '\x60' =>
          if f = .plain true then literal c
          else
            let text ← backquoted f.guards ((← size) + 1)
            let body ← within text (list fuel true none)
            return .output body f.guards :: (← pieces fuel f)
        | '\x7d' =>
          match f with
          | .braces _ false => return []
          | _ => literal c
        | '(' =>
          match f with
          | .sum depth => return .byte (byteOf c) true :: (← pieces fuel (.sum (depth + 1)))
          | _ => literal c
        | ')' =>
          match f with
          | .sum (depth + 1) => return .byte (byteOf c) true :: (← pieces fuel (.sum depth))
          | .sum 0 => if ← accept ')' then return [] else literal c
          | _ => literal c
        | c => literal c

def dollar : (fuel : Nat) → (quoted : Bool) → Reading Piece
  | 0, _ => fail "word too long"
  | fuel + 1, quoted => do
    if ← accept '(' then
      if ← accept '(' then return .number (← pieces fuel (.sum 0)) quoted
      else
        let announced := (← get).announced
        modify fun s => { s with announced := [] }
        let body ← list fuel true none
        match ← token fuel false false false with
        | .operator ")" => pure ()
        | t => unexpected t (some "\")\"")
        modify fun s => { s with announced }
        return .output body quoted
    else if ← accept '\x7b' then
      let (p, change) ← inBraces fuel quoted
      return .value p change quoted
    else
      match ← parameter? false with
      | some p => return .value p .keep quoted
      | none => return .byte (byteOf '$') quoted

/-- Reads what stands between braces after a dollar sign. -/
def inBraces : (fuel : Nat) → (quoted : Bool) → Reading (Parameter × Change)
  | 0, _ => fail "word too long"
  | fuel + 1, quoted => do
    let unknown : Reading (Parameter × Change) := do
      let _ ← pieces fuel (.braces quoted false)
      return (.self, .unknown)
    -- the sign that means nothing is passed over; a line end in its place is not counted
    let unknownSign : Reading (Parameter × Change) := do
      let line := (← get).line
      let _ ← next
      modify fun s => { s with line }
      unknown
    let trim (p : Parameter) (sign : Char) (front : Bool) : Reading (Parameter × Change) := do
      let longest ← accept sign
      return (p, .trim front longest (← pieces fuel (.braces false false)))
    let length ← if (← peek) = some '#' then do
        let _ ← next
        let p ← measured?
        if p.isNone then modify fun s => { s with rest := '#' :: s.rest }
        pure p
      else pure none
    match length with
    | some p => return (p, .length)
    | none =>
      match ← parameter? true with
      | none => if (← peek) = some '\x7d' then unknown else unknownSign
      | some p =>
        let orEmpty ← accept ':'
        match ← peek with
        | none => unknown
        | some c =>
          match absence? c with
          | some treatment =>
            let _ ← next
            let w ← pieces fuel (.braces quoted false)
            return (p, .absent treatment orEmpty (homes false true 0 w))
          | none =>
            if orEmpty then unknownSign
            else if ← accept '\x7d' then return (p, .keep)
            else if ← accept '#' then trim p '#' true
            else if ← accept '%' then trim p '%' false
            else unknownSign

/-- Reads the announced texts that follow a line. -/
def readDocuments : (fuel : Nat) → List Announced → Reading Unit
  | 0, _ => fail "script too long"
  | _, [] => return
  | fuel + 1, a :: rest => do
    let s ← get
    let (text, lines, after) := cutDocument a (s.rest.length + 1) true s.rest
    set { s with rest := text, announced := [] }
    let word ← if a.literal then pure (text.map fun c => .byte (byteOf c) true)
      else pieces fuel .document
    modify fun now =>
      { s with
        rest := after
        line := s.line + lines
        documents := now.documents.setIfInBounds a.number word }
    readDocuments fuel rest

def lexeme : (fuel : Nat) → (delimiter : Bool) → Reading Token
  | 0, _ => fail "script too long"
  | fuel + 1, delimiter => do
    skipBlanks ((← size) + 1)
    let documents : Reading Unit := do
      let announced := (← get).announced
      modify fun s => { s with announced := [] }
      readDocuments fuel announced
    match ← peek with
    | none =>
      documents
      return .finish
    | some c =>
      if c = '\n' then
        let _ ← next
        documents
        return .lineEnd
      else if c ∈ [';', '&', '|', '(', ')'] then
        let _ ← next
        operator c
      else if c ∈ ['<', '>'] then
        let _ ← next
        redirection none c
      else
        let w ← pieces fuel (.plain delimiter)
        let digit : Option Nat := match (plain? w) with
          | some [d] => if d.isDigit then some (d.toNat - 48) else none
          | _ => none
        match digit, ← peek with
        | some n, some c =>
          if c ∈ ['<', '>'] then
            let _ ← next
            redirection (some n) c
          else return .word w
        | _, _ => return .word (if delimiter then w else homes false true 0 w)

/-- Reads a token; line ends may be skipped, and words may be looked at as keywords. -/
def token : (fuel : Nat) → (skipLines keyword delimiter : Bool) → Reading Token
  | 0, _, _, _ => fail "script too long"
  | fuel + 1, skipLines, keyword, delimiter => do
    let t ← match (← get).waiting with
      | some t => do
        modify fun s => { s with waiting := none }
        pure t
      | none => lexeme fuel delimiter
    match t with
    | .lineEnd => if skipLines then token fuel skipLines keyword delimiter else return t
    | .word w =>
      match (plain? w).map String.ofList with
      | some text => if keyword ∧ text ∈ keywords then return .keyword text else return t
      | none => return t
    | t => return t

/-- Reads commands up to a token that ends them; it is put back. Unless they may be missing, there
has to be a command. `first` holds those read so far. -/
def list : (fuel : Nat) → (mayEnd : Bool) → (first : Option Command) → Reading (Option Command)
  | 0, _, _ => fail "script too long"
  | fuel + 1, mayEnd, first => do
    let t ← token fuel true true false
    putBack t
    if (match t with | .finish => true | _ => false) || (mayEnd && t.isClosing) then return first
    else
      let second ← andOr fuel false
      let joined (c : Command) : Option Command := some <| match first with
        | some first => .sequence first c
        | none => c
      match ← token fuel false false false with
      | .operator "&" => list fuel true (joined (.background second))
      | .operator ";" => list fuel true (joined second)
      | .lineEnd => list fuel true (joined second)
      | t =>
        putBack t
        return joined second

def body : (fuel : Nat) → Reading Command
  | 0 => fail "script too long"
  | fuel + 1 => do
    match ← list fuel false none with
    | some c => return c
    | none =>
      -- the text has ended; the token that is missing is found by the caller
      return default

def andOr : (fuel : Nat) → (skipLines : Bool) → Reading Command
  | 0, _ => fail "script too long"
  | fuel + 1, skipLines => do links fuel (← pipeline fuel skipLines)

/-- Reads the further members of such a chain. -/
def links : (fuel : Nat) → Command → Reading Command
  | 0, _ => fail "script too long"
  | fuel + 1, first => do
    match ← token fuel false false false with
    | .operator "&&" => links fuel (.both first (← pipeline fuel true))
    | .operator "||" => links fuel (.either first (← pipeline fuel true))
    | t =>
      putBack t
      return first

/-- Reads commands of which each reads what the one before it writes. -/
def pipeline : (fuel : Nat) → (skipLines : Bool) → Reading Command
  | 0, _ => fail "script too long"
  | fuel + 1, skipLines => do
    let t ← token fuel skipLines true false
    let negated := match t with
      | .keyword "!" => true
      | _ => false
    unless negated do putBack t
    let members ← pipeMembers fuel false
    let whole := match members with
      | [one] => one
      | members => .pipe members
    return if negated then .negated whole else whole

def pipeMembers : (fuel : Nat) → (skipLines : Bool) → Reading (List Command)
  | 0, _ => fail "script too long"
  | fuel + 1, skipLines => do
    let first ← command fuel skipLines
    match ← token fuel false false false with
    | .operator "|" => return first :: (← pipeMembers fuel true)
    | t =>
      putBack t
      return [first]

/-- Takes a given keyword, which was read and put back as the end of a list. -/
def expect : (fuel : Nat) → (text : String) → Reading Unit
  | 0, _ => fail "script too long"
  | fuel + 1, text => do
    match ← token fuel false false false with
    | .keyword found =>
      if found = text then return
      else unexpected (.keyword found) (some ("\"" ++ text ++ "\""))
    | t => unexpected t (some ("\"" ++ text ++ "\""))

def command : (fuel : Nat) → (skipLines : Bool) → Reading Command
  | 0, _ => fail "script too long"
  | fuel + 1, skipLines => do
    let t ← token fuel skipLines true false
    let line := (← get).line
    let finish (c : Command) : Reading Command := do
      match c, ← redirections fuel true with
      | c, [] => return c
      -- a shell of its own has one place for redirections
      | .subshell line body _, rs => return .subshell line body rs
      | c, rs => return .redirected line c rs
    match t with
    | .keyword "\x7b" =>
      let c ← body fuel
      expect fuel "\x7d"
      finish c
    | .operator "(" =>
      let c ← body fuel
      match ← token fuel false false false with
      | .operator ")" => return .subshell line c (← redirections fuel true)
      | t => unexpected t (some "\")\"")
    | .keyword "if" => finish (← branches fuel)
    | .keyword "while" => finish (← repetition fuel false)
    | .keyword "until" => finish (← repetition fuel true)
    | .keyword "for" => finish (← forEach fuel line)
    | .keyword "case" => finish (← choice fuel line)
    | .word _ | .redirection .. =>
      putBack t
      simple fuel line [] [] [] true
    | t => unexpected t none

/-- Reads a condition and what depends on it. -/
def branches : (fuel : Nat) → Reading Command
  | 0 => fail "script too long"
  | fuel + 1 => do
    let condition ← body fuel
    expect fuel "then"
    let yes ← body fuel
    match ← token fuel false false false with
    | .keyword "elif" => return .branch condition yes (some (← branches fuel))
    | .keyword "else" =>
      let no ← body fuel
      expect fuel "fi"
      return .branch condition yes (some no)
    | .keyword "fi" => return .branch condition yes none
    | t => unexpected t (some "\"fi\"")

def repetition : (fuel : Nat) → (untilSuccess : Bool) → Reading Command
  | 0, _ => fail "script too long"
  | fuel + 1, untilSuccess => do
    let condition ← body fuel
    expect fuel "do"
    let c ← body fuel
    expect fuel "done"
    return .repeated untilSuccess condition c

/-- Reads a name, the words for it and what is done for each. -/
def forEach : (fuel : Nat) → (line : Nat) → Reading Command
  | 0, _ => fail "script too long"
  | fuel + 1, line => do
    let name ← match ← token fuel false false false with
      | .word w =>
        match plain? w with
        | some cs =>
          if isName cs then pure (String.ofList cs) else fail "Bad for loop variable"
        | none => fail "Bad for loop variable"
      | _ => fail "Bad for loop variable"
    let words ← match ← token fuel true true false with
      | .keyword "in" => do
        let ws ← words fuel
        match ← token fuel false false false with
        | .lineEnd | .operator ";" => pure ws
        | t => unexpected t none
      | .operator ";" => pure [everyArgument]
      | t => do
        putBack t
        pure [everyArgument]
    match ← token fuel true true false with
    | .keyword "do" => pure ()
    | t => unexpected t (some "\"do\"")
    let c ← body fuel
    expect fuel "done"
    return .forEach line name words c

/-- Reads words up to another token, which is put back. -/
def words : (fuel : Nat) → Reading (List Word)
  | 0 => fail "script too long"
  | fuel + 1 => do
    match ← token fuel false false false with
    | .word w => return w :: (← words fuel)
    | t =>
      putBack t
      return []

/-- Reads a word and the alternatives for it. -/
def choice : (fuel : Nat) → (line : Nat) → Reading Command
  | 0, _ => fail "script too long"
  | fuel + 1, line => do
    let w ← match ← token fuel false false false with
      | .word w => pure w
      | t => unexpected t (some "word")
    match ← token fuel true true false with
    | .keyword "in" => pure ()
    | t => unexpected t (some "\"in\"")
    return .choose line w (← alternatives fuel)

/-- Reads alternatives up to the word that closes them. -/
def alternatives : (fuel : Nat) → Reading (List (List Word × Option Command))
  | 0 => fail "script too long"
  | fuel + 1 => do
    match ← token fuel true true false with
    | .keyword "esac" => return []
    | t =>
      match t with
      | .operator "(" => pure ()
      | t => putBack t
      let ps ← patterns fuel
      let c ← list fuel true none
      match ← token fuel true true false with
      | .keyword "esac" => return [(ps, c)]
      | .operator ";;" => return (ps, c) :: (← alternatives fuel)
      | t => unexpected t (some "\";;\"")

/-- Reads the patterns of an alternative, up to the closing parenthesis. -/
def patterns : (fuel : Nat) → Reading (List Word)
  | 0 => fail "script too long"
  | fuel + 1 => do
    let w ← match ← token fuel false false false with
      | .word w => pure w
      | .keyword text => pure (text.toList.map fun c => .byte (byteOf c) false)
      | _ => pure []
    match ← token fuel false false false with
    | .operator "|" => return w :: (← patterns fuel)
    | .operator ")" => return [w]
    | t => unexpected t (some "\")\"")

/-- Reads redirections up to another token, which is put back. -/
def redirections : (fuel : Nat) → (keyword : Bool) → Reading (List Redirection)
  | 0, _ => fail "script too long"
  | fuel + 1, keyword => do
    match ← token fuel false keyword false with
    | .redirection stream opening untabbed =>
      let r ← target fuel stream opening untabbed
      return r :: (← redirections fuel false)
    | t =>
      putBack t
      return []

def target : (fuel : Nat) → Option Nat → Opening → (untabbed : Bool) → Reading Redirection
  | 0, _, _, _ => fail "script too long"
  | fuel + 1, stream, opening, untabbed => do
    match opening with
    | .document _ =>
      match ← token fuel false false true with
      | .word w =>
        let number := (← get).documents.size
        modify fun s =>
          { s with
            documents := s.documents.push []
            announced := s.announced ++ [⟨number, bytesOf w, isQuoted w, untabbed⟩] }
        return .redirect (stream.getD 0) (.document number) []
      | t => unexpected t none
    | opening =>
      match ← token fuel false false false with
      | .word w =>
        let natural := match opening with
          | .read | .update => 0
          | _ => 1
        return .redirect (stream.getD natural) opening w
      | t => unexpected t none

/-- Reads the parts of a simple command, or a command that gets a name. Assignments stand in front
of the words. -/
def simple : (fuel : Nat) → (line : Nat) → List (String × Word) → List Word → List Redirection →
    (start : Bool) → Reading Command
  | 0, _, _, _, _, _ => fail "script too long"
  | fuel + 1, line, assignments, ws, rs, start => do
    match ← token fuel false false false with
    | .word w =>
      match if start then assignment? w else none with
      | some a => simple fuel line (assignments ++ [a]) ws rs true
      | none => simple fuel line assignments (ws ++ [w]) rs false
    | .redirection stream opening untabbed =>
      let r ← target fuel stream opening untabbed
      simple fuel line assignments ws (rs ++ [r]) start
    | t =>
      match t, ws, assignments, rs with
      | .operator "(", [w], [], [] =>
        match ← token fuel false false false with
        | .operator ")" => pure ()
        | t => unexpected t (some "\")\"")
        match plain? w with
        | some cs =>
          let name := String.ofList cs
          if isName cs ∧ name ∉ specialCommands then
            return .define (← get).line name (← command fuel true)
          else fail "Bad function name"
        | none => fail "Bad function name"
      | t, _, _, _ =>
        putBack t
        return .simple line assignments ws rs

end

/-- Reads the commands of a line, up to its end. -/
def line : (fuel : Nat) → (first : Option Command) → Reading (Option Command)
  | 0, _ => fail "script too long"
  | fuel + 1, first => do
    match ← token fuel false true false with
    | .lineEnd => return first
    | .finish =>
      putBack .finish
      return first
    | t =>
      putBack t
      let second ← andOr fuel false
      let joined (c : Command) : Option Command := some <| match first with
        | some first => .sequence first c
        | none => c
      match ← token fuel false false false with
      | .operator "&" => line fuel (joined (.background second))
      | .operator ";" => line fuel (joined second)
      | .lineEnd => return joined second
      | .finish =>
        putBack .finish
        return joined second
      | t => unexpected t none

/-- What is found where a command may begin. -/
inductive Found where
  /-- The end of the script. -/
  | nothing
  /-- A line without commands. -/
  | blank
  /-- Commands, and whether the script ends with them. -/
  | commands (body : Command) (isLast : Bool)

def next (s : Source) : Except Fault (Found × Source) := do
  let fuel := 16 * s.rest.length + 64
  let (found, after) ← (line fuel none).run { s with waiting := none }
  let ended := after.waiting.isSome
  match found with
  | some c => return (.commands c ended, after)
  | none => return (if ended then .nothing else .blank, after)

end Groom.Shell.Reader
