/-!
Blank characters: those that only part words, lines and paragraphs.
-/
namespace Groom

def isBlank (c : Char) : Bool :=
  c.isWhitespace ∨ c = '\x0b' ∨ c = '\x0c' ∨ c = '\u0085' ∨ c = '\u00a0' ∨ c = '\u1680' ∨
    ('\u2000' ≤ c ∧ c ≤ '\u200a') ∨ c = '\u2028' ∨ c = '\u2029' ∨ c = '\u202f' ∨ c = '\u205f' ∨
    c = '\u3000'

end Groom
