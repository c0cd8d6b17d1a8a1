import Groom.Shell.Arithmetic
import Groom.Shell.Glob

/-!
The expansion of words. What a command writes is found by a function that is given.
-/
namespace Groom.Shell.Expansion

abbrev Substitution := Option Command → Script Bytes

def nameOf : Parameter → Bytes
  | .named name => Bytes.ofString name
  | .position n => ofNat n
  | .count => Bytes.ofString "#"
  | .joined => Bytes.ofString "*"
  | .each => Bytes.ofString "@"
  | .status => Bytes.ofString "?"
  | .self => Bytes.ofString "$"
  | .background => Bytes.ofString "!"
  | .options => Bytes.ofString "-"

/-- The byte that stands between arguments that are joined, if there is one. -/
def jointOf (s : Session) : Option UInt8 :=
  match s.value? "IFS" with
  | none => some 32
  | some bs => bs.head?

/-- The value of a parameter, if it is set. -/
def value? (s : Session) : Parameter → Option Bytes
  | .named name => s.value? name
  | .position 0 => some s.name
  | .position (n + 1) => s.args[n]?
  | .count => some (ofNat s.args.length)
  | .joined | .each =>
    some (match jointOf s with
      | some b => Bytes.joinWith b s.args
      | none => s.args.flatten)
  | .status => some (ofNat s.status)
  | .self => some (ofNat s.mainProcess)
  | .background => s.background.map ofNat
  | .options =>
    some ((((optionNames.map (·.1)).filter s.has).filter Char.isAlpha).reverse.map byteOf)

/-- The value of a parameter, if it is there; an empty value counts as missing if `orEmpty`. -/
def present? (s : Session) (orEmpty : Bool) (p : Parameter) : Option Bytes :=
  (value? s p).filter fun v => !(orEmpty && v = [])

/-- Marks of some texts with gaps between them. -/
def apart (separator : Mark) (quoted : Bool) (texts : List Bytes) : List Mark :=
  ((texts.map (Mark.ofBytes quoted)).intersperse [separator]).flatten

def stretch (quoted : Bool) (bs : Bytes) : Stretch :=
  ⟨if quoted then .nowhere else .separators, Mark.ofBytes quoted bs⟩

/-- The stretches of a parameter's value; `full` tells that fields are wanted. -/
def stretchesOf (s : Session) (full quoted : Bool) (p : Parameter) : List Stretch :=
  let text := stretch quoted ((value? s p).getD [])
  match p with
  | .each | .joined =>
    if quoted then
      if full ∧ p = .each then
        if s.args = [] then [] else [⟨.gaps, apart .gap true s.args⟩]
      else [text]
    else
      match jointOf s with
      | some b => [⟨.separators, apart (.byte b false) false s.args⟩]
      | none => if full then [⟨.separators, apart .gap false s.args⟩] else [text]
  | _ => [text]

/-- The value of a parameter that has to be set if missing ones are not admitted. -/
def required (p : Parameter) : Script Bytes := do
  let s ← get
  match value? s p with
  | some v => return v
  | none =>
    if s.has 'u' then fault (nameOf p ++ Bytes.ofString ": parameter not set") else return []

/-- Puts a byte of the script in front of stretches; it is cut if `loose`. Bytes that stand side by
side in the script form one stretch. -/
def pushByte (loose : Bool) (b : UInt8) (quoted joined : Bool) (rest : List Stretch) :
    List Stretch :=
  let region : Region := if loose && !quoted then .separators else .nowhere
  match rest with
  | s :: others =>
    if joined ∧ s.region = region then ⟨region, .byte b quoted :: s.marks⟩ :: others
    else ⟨region, [.byte b quoted]⟩ :: rest
  | [] => [⟨region, [.byte b quoted]⟩]

/-- Whether a word begins with a byte of the script. -/
def beginsWithByte : Word → Bool
  | .byte .. :: _ => true
  | _ => false

/-- Drops the line ends at the end of a text, and its zero bytes. -/
def trimOutput (bs : Bytes) : Bytes :=
  ((bs.filter (· ≠ 0)).reverse.dropWhile (· = 10)).reverse

/-- The stretches that a word expands to. `full` tells that fields are wanted, `loose` that the
word's own text is cut as well. -/
def stretches (substitute : Substitution) (full loose : Bool) : Word → Script (List Stretch)
  | [] => return []
  -- all arguments, each by itself, are no field if there are none
  | .quote :: .value .each .keep true :: .quote :: rest => do
    let s ← get
    return (if full then stretchesOf s full true .each
        else ⟨.nowhere, [.quote]⟩ :: stretchesOf s full true .each) ++
      (← stretches substitute full loose rest)
  | .quote :: rest => do
    return ⟨.nowhere, [.quote]⟩ :: (← stretches substitute full loose rest)
  | .byte b quoted :: rest => do
    return pushByte loose b quoted (beginsWithByte rest) (← stretches substitute full loose rest)
  | .home user :: rest => do
    let s ← get
    let home := if user = [] then s.home?
      else if user = Bytes.ofString "root" then some (Bytes.ofString "/root") else none
    let text := stretch true (home.getD (Bytes.ofString "~" ++ user))
    return text :: (← stretches substitute full loose rest)
  | .value p .keep quoted :: rest => do
    match p with
    | .each | .joined => pure ()
    | p => let _ ← required p
    let found := stretchesOf (← get) full quoted p
    return found ++ (← stretches substitute full loose rest)
  | .value p .length quoted :: rest => do
    let v ← required p
    return stretch quoted (ofNat v.length) :: (← stretches substitute full loose rest)
  | .value _ .unknown _ :: _ => fault (Bytes.ofString "Bad substitution")
  | .value p (.trim front longest w) quoted :: rest => do
    let v ← required p
    let marks := (← stretches substitute false false w).flatMap (·.marks)
    let text := Pattern.trim (.ofMarks (Mark.pattern marks)) front longest v
    return stretch quoted text :: (← stretches substitute full loose rest)
  | .value p (.absent treatment orEmpty w) quoted :: rest => do
    let s ← get
    let found ← match treatment, present? s orEmpty p with
      | .omit, none => pure []
      | .omit, some _ => stretches substitute full (!quoted) w
      | _, some _ => pure (stretchesOf s full quoted p)
      | .substitute, none => stretches substitute full (!quoted) w
      | .assign, none => do
        let text := Stretch.text (← stretches substitute false false w)
        match p with
        | .named name =>
          assign name text
          pure [stretch quoted text]
        | p => fault (nameOf p ++ Bytes.ofString ": bad variable name")
      | .complain, none => do
        let text := Stretch.text (← stretches substitute false false w)
        let missing := "parameter not set" ++ if orEmpty then " or null" else ""
        fault (nameOf p ++ Bytes.ofString ": " ++
          if w.isEmpty then Bytes.ofString missing else text)
    return found ++ (← stretches substitute full loose rest)
  | .output body quoted :: rest => do
    let text := trimOutput (← substitute body)
    return stretch quoted text :: (← stretches substitute full loose rest)
  | .number w quoted :: rest => do
    let text := Stretch.text (← stretches substitute false false w)
    let n ← Arithmetic.evaluate text
    return stretch quoted (Bytes.ofString (toString n)) :: (← stretches substitute full loose rest)

def whole (substitute : Substitution) (w : Word) : Script Bytes :=
  return Stretch.text (← stretches substitute false false w)

/-- A word as a pattern; what is quoted stands for itself. -/
def pattern (substitute : Substitution) (w : Word) : Script Pattern :=
  return .ofMarks (Mark.pattern ((← stretches substitute false false w).flatMap (·.marks)))

def fields (substitute : Substitution) (w : Word) : Script (List Bytes) := do
  let found ← stretches substitute true false w
  let s ← get
  let cut := Field.cut s.separators none found
  return if s.has 'f' then cut.map Mark.text else cut.flatMap (Glob.expand s.files)

end Groom.Shell.Expansion
