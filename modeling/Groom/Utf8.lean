import Groom.Bytes

/-!
UTF-8 as a reading of byte strings. Ill-formed input is cut into the longest stretches that begin a
character, and each of them is shown as one replacement character.
-/
namespace Groom.Utf8

/-- A character that has begun: its bits so far, the bytes still owed, and the bounds of the next.
-/
structure Begun where
  bits : Nat
  owed : Nat
  low : UInt8
  high : UInt8

/-- What a byte says where a character may begin. -/
inductive Lead where
  | char (c : Char)
  | begins (b : Begun)
  | stray

/-- Classifies a byte at the start of a character. -/
def lead (b : UInt8) : Lead :=
  if b < 0x80 then .char (Char.ofNat b.toNat)
  else if b < 0xC2 then .stray
  else if b < 0xE0 then .begins ⟨b.toNat - 0xC0, 1, 0x80, 0xBF⟩
  else if b = 0xE0 then .begins ⟨0, 2, 0xA0, 0xBF⟩
  else if b = 0xED then .begins ⟨0xD, 2, 0x80, 0x9F⟩
  else if b < 0xF0 then .begins ⟨b.toNat - 0xE0, 2, 0x80, 0xBF⟩
  else if b = 0xF0 then .begins ⟨0, 3, 0x90, 0xBF⟩
  else if b < 0xF4 then .begins ⟨b.toNat - 0xF0, 3, 0x80, 0xBF⟩
  else if b = 0xF4 then .begins ⟨4, 3, 0x80, 0x8F⟩
  else .stray

/-- The characters of a byte string, with `none` for each ill-formed stretch. -/
def units : Bytes → List (Option Char) :=
  go none
where
  /-- Carries the character that has begun, if any. -/
  go : Option Begun → Bytes → List (Option Char)
  | none, [] => []
  | some _, [] => [none]
  | none, b :: rest =>
    match lead b with
    | .char c => some c :: go none rest
    | .begins p => go (some p) rest
    | .stray => none :: go none rest
  | some p, b :: rest =>
    if p.low ≤ b ∧ b ≤ p.high then
      let bits := p.bits * 64 + (b.toNat - 0x80)
      if p.owed ≤ 1 then some (Char.ofNat bits) :: go none rest
      else go (some ⟨bits, p.owed - 1, 0x80, 0xBF⟩) rest
    else
      match lead b with
      | .char c => none :: some c :: go none rest
      | .begins q => none :: go (some q) rest
      | .stray => none :: none :: go none rest

def decode? (bs : Bytes) : Option String :=
  ((units bs).mapM id).map String.ofList

def replacement : Char := '\uFFFD'

/-- The text of any input, with one replacement character for each ill-formed stretch. -/
def lossy (bs : Bytes) : String :=
  String.ofList ((units bs).map (·.getD replacement))

/-- `lossy`, cut into the well-formed stretches and the replacement characters between them. -/
def pieces (bs : Bytes) : List String :=
  go [] (units bs)
where
  /-- Carries the well-formed stretch so far, last character first. -/
  go : List Char → List (Option Char) → List String
  | stretch, [] => [String.ofList stretch.reverse]
  | stretch, some c :: rest => go (c :: stretch) rest
  | stretch, none :: rest =>
    String.ofList stretch.reverse :: String.singleton replacement :: go [] rest

end Groom.Utf8
