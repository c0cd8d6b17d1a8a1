import Groom.Expression.Meaning
import Groom.Expression.Reading
import Groom.Expression.Weight

/-!
Regular expressions from their texts, and why a text is refused.
-/
namespace Groom.Expression

/-- Why a text gives no expression. -/
inductive Refusal where
  | fault (fault : Fault)
  | tooLarge
  /-- There is a condition on words of all scripts. -/
  | undecidable
  deriving Repr

/-- The text of a refusal of a pattern. -/
def Refusal.message (pattern : String) : Refusal → String
  | .fault f => f.text pattern
  | .tooLarge => s!"Compiled regex exceeds size limit of {maxRoom} bytes."
  | .undecidable => "error building NFA"

def ofText (text : String) : Except Refusal Expression :=
  match (do (← Node.ofText text).meaning {} : Except Fault (Expression × Mode)) with
  | .error f => .error (.fault f)
  | .ok (e, _) =>
    if isTooLarge false e then .error .tooLarge
    else if hasWide e then .error .undecidable
    else if isTooLarge true e then .error .tooLarge
    else .ok e

end Groom.Expression
