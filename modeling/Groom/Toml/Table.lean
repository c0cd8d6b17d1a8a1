import Groom.Toml.Value

/-!
Building tables. A key is given once, a table has one header at most, tables between braces are
closed, and arrays of tables grow only by headers.
-/
namespace Groom.Toml.Fields

def find? (key : String) : Fields → Option Value
  | [] => none
  | (k, v) :: rest => if k = key then some v else find? key rest

/-- Gives a key a value, at its place if it has one. -/
def set (key : String) (value : Value) : Fields → Fields
  | [] => [(key, value)]
  | (k, v) :: rest => if k = key then (k, value) :: rest else (k, v) :: set key value rest

/-- Changes the table at the end of a path, making the tables on the way where there are none.
`dotted` tells a path in front of a key from one in a header. `change` is also told how the table
came about. -/
def descend (dotted : Bool) (change : Origin → Fields → Option Fields) :
    List String → Origin → Fields → Option Fields
  | [], origin, es => change origin es
  | key :: path, _, es =>
    match find? key es with
    | none =>
      let origin : Origin := if dotted then .dotted else .implied
      (descend dotted change path origin []).map fun sub => set key (.table origin sub) es
    | some (.table origin sub) =>
      -- a table between braces is closed, and a dotted key may not enter a table with a header
      if origin = .inline ∨ (dotted ∧ origin = .header) then none
      else (descend dotted change path origin sub).map fun sub => set key (.table origin sub) es
    -- below an array of tables a path means the last of them
    | some (.array true items) =>
      match items.reverse with
      | .table origin sub :: before =>
        (descend dotted change path origin sub).map fun sub =>
          set key (.array true ((.table origin sub :: before).reverse)) es
      | _ => none
    | some _ => none

/-- Enters a key with a value, given with the path in front of it. -/
def assign (path : List String) (key : String) (value : Value) :
    Origin → Fields → Option Fields :=
  descend true
    (fun origin es =>
      -- tables that dotted keys have made take dotted keys only, and all others plain ones only
      if decide (origin = .dotted) = path.isEmpty then none
      else match find? key es with
        | some _ => none
        | none => some (set key value es))
    path

def openTable (path : List String) (key : String) : Fields → Option Fields :=
  descend false
    (fun _ es =>
      match find? key es with
      | none => some (set key (.table .header []) es)
      -- a table made on the way to another may still get its own header, once
      | some (.table .implied sub) => some (set key (.table .header sub) es)
      | some _ => none)
    path .header

/-- Adds a table to the array of a header. -/
def extendArray (path : List String) (key : String) : Fields → Option Fields :=
  descend false
    (fun _ es =>
      match find? key es with
      | none => some (set key (.array true [.table .header []]) es)
      | some (.array true items) => some (set key (.array true (items ++ [.table .header []])) es)
      | some _ => none)
    path .header

end Groom.Toml.Fields
