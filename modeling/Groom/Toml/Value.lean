import Groom.Binary64

/-!
The values of a configuration text.
-/
namespace Groom.Toml

/-- A floating-point number. -/
inductive Real where
  | nan
  | infinite (negative : Bool)
  /-- `none` stands for a number beyond the largest one. -/
  | finite (negative : Bool) (size : Option Binary64)
  deriving DecidableEq, Repr

def Real.text : Real → String
  | .nan => "NaN"
  | .infinite negative => if negative then "-inf" else "inf"
  | .finite negative size =>
    (if negative then "-" else "") ++ ((size.map Binary64.text).getD "inf")

/-- How a table came about. -/
inductive Origin where
  /-- By a header of its own, or as the whole text. -/
  | header
  /-- On the way to another table's header. -/
  | implied
  /-- On the way to a dotted key. -/
  | dotted
  | inline
  deriving DecidableEq, Repr

/-- A value. -/
inductive Value where
  | string (text : String)
  /-- `none` stands for digits that make no number. -/
  | integer (value : Option Int)
  | float (value : Real)
  | boolean (value : Bool)
  /-- A date, a time or both, as it is shown. -/
  | moment (text : String)
  /-- `ofTables` marks the arrays that headers build. -/
  | array (ofTables : Bool) (items : List Value)
  | table (origin : Origin) (entries : List (String × Value))
  deriving Repr, Inhabited

/-- The entries of a table, in the order in which they were written. -/
abbrev Fields := List (String × Value)

end Groom.Toml
