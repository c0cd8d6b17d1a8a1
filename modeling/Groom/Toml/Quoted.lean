/-!
Quoted texts. Between double quotes a backslash begins an escape, between single quotes everything
stands for itself; three quotes in a row open a text of several lines.
-/
namespace Groom.Toml

/-- Whether a character may stand in a text, a comment or a quoted key. -/
def isPlain (c : Char) : Bool := c = '\t' ∨ (' ' ≤ c ∧ c ≠ '\x7f')

def hexDigit? (c : Char) : Option Nat :=
  if '0' ≤ c ∧ c ≤ '9' then some (c.toNat - 48)
  else if 'a' ≤ c ∧ c ≤ 'f' then some (c.toNat - 87)
  else if 'A' ≤ c ∧ c ≤ 'F' then some (c.toNat - 55)
  else none

def scalar? (n : Nat) : Option Char :=
  if h : n.isValidChar then some (Char.ofNatAux n h) else none

namespace Quoted

/-- What one character stands for after a backslash. -/
def escaped? : Char → Option Char
  | 'b' => some '\x08'
  | 't' => some '\t'
  | 'n' => some '\n'
  | 'f' => some '\x0c'
  | 'r' => some '\r'
  | 'e' => some '\x1b'
  | '"' => some '"'
  | '\\' => some '\\'
  | _ => none

/-- How many hexadecimal digits follow a character after a backslash. -/
def hexDigits? : Char → Option Nat
  | 'x' => some 2
  | 'u' => some 4
  | 'U' => some 8
  | _ => none

/-- Where a scan between double quotes is. -/
inductive State where
  | text
  /-- After a line that ends in a backslash: blanks and line ends are dropped. -/
  | trim
  | escape
  /-- After a backslash and blanks, where a line has to end. -/
  | gap
  /-- Within an escape: the digits still owed beside the next one, and the value so far. -/
  | hex (owed value : Nat)

/-- Puts a character in front of a scanned text. -/
def cons (c : Char) : Option (List Char × List Char) → Option (List Char × List Char)
  | some (text, rest) => some (c :: text, rest)
  | none => none

/-- Scans a text between double quotes, after the opening ones: the text and what follows. -/
def basic (multi : Bool) : State → List Char → Option (List Char × List Char)
  | _, [] => none
  | .escape, c :: rest =>
    match escaped? c with
    | some d => cons d (basic multi .text rest)
    | none =>
      match hexDigits? c with
      | some n => basic multi (.hex (n - 1) 0) rest
      | none =>
        if !multi then none
        else if c = ' ' ∨ c = '\t' then basic multi .gap rest
        else if c = '\n' then basic multi .trim rest
        else match c, rest with
          | '\r', '\n' :: rest => basic multi .trim rest
          | _, _ => none
  | .gap, c :: rest =>
    if c = ' ' ∨ c = '\t' then basic multi .gap rest
    else if c = '\n' then basic multi .trim rest
    else match c, rest with
      | '\r', '\n' :: rest => basic multi .trim rest
      | _, _ => none
  | .hex owed value, c :: rest =>
    match hexDigit? c with
    | none => none
    | some d =>
      match owed with
      | owed + 1 => basic multi (.hex owed (value * 16 + d)) rest
      | 0 =>
        match scalar? (value * 16 + d) with
        | some e => cons e (basic multi .text rest)
        | none => none
  | .text, '\\' :: rest => basic multi .escape rest
  | .trim, '\\' :: rest => basic multi .escape rest
  | .trim, ' ' :: rest => basic multi .trim rest
  | .trim, '\t' :: rest => basic multi .trim rest
  | .trim, '\n' :: rest => basic multi .trim rest
  | .trim, '\r' :: '\n' :: rest => basic multi .trim rest
  | _, '"' :: rest =>
    if !multi then some ([], rest)
    else match rest with
      | '"' :: '"' :: '"' :: '"' :: rest => some (['"', '"'], rest)
      | '"' :: '"' :: '"' :: rest => some (['"'], rest)
      | '"' :: '"' :: rest => some ([], rest)
      | rest => cons '"' (basic multi .text rest)
  | _, '\n' :: rest => if multi then cons '\n' (basic multi .text rest) else none
  | _, '\r' :: '\n' :: rest =>
    if multi then cons '\r' (cons '\n' (basic multi .text rest)) else none
  | _, c :: rest => if isPlain c then cons c (basic multi .text rest) else none

/-- Scans a text between single quotes, after the opening ones: the text and what follows. -/
def literal (multi : Bool) : List Char → Option (List Char × List Char)
  | [] => none
  | '\'' :: rest =>
    if !multi then some ([], rest)
    else match rest with
      | '\'' :: '\'' :: '\'' :: '\'' :: rest => some (['\'', '\''], rest)
      | '\'' :: '\'' :: '\'' :: rest => some (['\''], rest)
      | '\'' :: '\'' :: rest => some ([], rest)
      | rest => cons '\'' (literal multi rest)
  | '\n' :: rest => if multi then cons '\n' (literal multi rest) else none
  | '\r' :: '\n' :: rest => if multi then cons '\r' (cons '\n' (literal multi rest)) else none
  | c :: rest => if isPlain c then cons c (literal multi rest) else none

/-- Drops a line end right after the opening quotes. -/
def dropLineEnd : List Char → List Char
  | '\n' :: rest => rest
  | '\r' :: '\n' :: rest => rest
  | rest => rest

/-- Scans a quoted text of one line, with its opening quote. -/
def line? : List Char → Option (List Char × List Char)
  | '"' :: rest => basic false .text rest
  | '\'' :: rest => literal false rest
  | _ => none

/-- Scans a quoted text of either kind, with its opening quotes. -/
def text? : List Char → Option (List Char × List Char)
  | '"' :: '"' :: '"' :: rest => basic true .text (dropLineEnd rest)
  | '\'' :: '\'' :: '\'' :: rest => literal true (dropLineEnd rest)
  | cs => line? cs

end Quoted

end Groom.Toml
