import Groom.Toml.Scalar
import Groom.Toml.Table

/-!
Sound values. A text may hold numbers that are out of range or no numbers at all; they do harm only
once something looks at them. A value is sound if all of it can be looked at.
-/
namespace Groom.Toml

def inRange (n : Int) : Bool := -9223372036854775808 ≤ n && n ≤ 9223372036854775807

/-- The key under which a table stands for a date or a time, if no other key comes before it. -/
def momentKey : String := "$__toml_private_datetime"

/-- The value that makes a table stand for a date or a time. -/
def Fields.moment? (es : Fields) : Option Value :=
  if es.any fun e => e.1 < momentKey then none else es.find? momentKey

/-- Whether a value is the text of a date or a time. -/
def Value.isMomentText : Value → Bool
  | .string text => (Scalar.moment? text.toList).isSome
  | _ => false

mutual

/-- Whether all of a value can be looked at: numbers are in range, and a table that stands for a
date or a time gives its text. -/
def Value.isSound : Value → Bool
  | .integer n => n.any inRange
  | .float (.finite _ none) => false
  | .array _ items => areSound items
  | .table _ es =>
    match Fields.moment? es with
    | some v => v.isMomentText
    | none => areSoundFields es
  | _ => true

def areSound : List Value → Bool
  | [] => true
  | v :: rest => v.isSound && areSound rest

/-- Whether the values of a table are sound. -/
def areSoundFields : List (String × Value) → Bool
  | [] => true
  | (_, v) :: rest => v.isSound && areSoundFields rest

end

end Groom.Toml
