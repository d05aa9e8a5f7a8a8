/-!
# TOML values

A table remembers how it came about, because that decides whether it may still be extended: by a
header of its own, by a longer header, by a dotted key, or inline.
-/

namespace DocCatalog.Toml

inductive Origin where
  /-- The table has a header of its own. -/
  | header
  /-- A longer header leads through the table. -/
  | implied
  /-- A dotted key leads through the table. -/
  | dotted
  /-- The table stands in braces. -/
  | inline
deriving DecidableEq, Repr

inductive Value where
  | string (text : String)
  | boolean (value : Bool)
  | integer (value : Int)
  /-- A float as it is written. -/
  | float (text : String)
  /-- A date, a time, or both, as it is written. -/
  | moment (text : String)
  | array (items : List Value)
  | table (origin : Origin) (members : List (String × Value))
  /-- Tables that share a header in double brackets; the last one can still grow. -/
  | tables (earlier : List Value) (last : List (String × Value))
deriving Repr

abbrev Members := List (String × Value)

/-- Replaces the value of a key, or adds it at the end. -/
def setKey (key : String) (value : Value) : Members → Members
  | [] => [(key, value)]
  | (other, old) :: rest =>
    if other = key then (key, value) :: rest else (other, old) :: setKey key value rest

/-- Gives a value to a dotted key. A key is given a value once, and only tables that dotted keys
made take further keys this way. -/
def assign? (value : Value) : List String → Members → Option Members
  | [], _ => none
  | [key], members => if (members.lookup key).isSome then none else some (setKey key value members)
  | key :: next :: rest, members =>
    match members.lookup key with
    | none =>
      (assign? value (next :: rest) []).map fun inner => setKey key (.table .dotted inner) members
    | some (.table .dotted inner) =>
      (assign? value (next :: rest) inner).map fun inner =>
        setKey key (.table .dotted inner) members
    | some (.table .implied inner) =>
      if rest = [] then none
      else
        (assign? value (next :: rest) inner).map fun inner =>
          setKey key (.table .implied inner) members
    | some (.tables earlier last) =>
      if rest = [] then none
      else
        (assign? value (next :: rest) last).map fun last =>
          setKey key (.tables earlier last) members
    | some _ => none

/-- Changes the table that a header leads to. Tables that are missing on the way are implied, and a
list of tables stands for its last one. -/
def within? (change : Members → Option Members) : List String → Members → Option Members
  | [], members => change members
  | key :: path, members =>
    match members.lookup key with
    | none => (within? change path []).map fun inner => setKey key (.table .implied inner) members
    | some (.table .inline _) => none
    | some (.table origin inner) =>
      (within? change path inner).map fun inner => setKey key (.table origin inner) members
    | some (.tables earlier last) =>
      (within? change path last).map fun last => setKey key (.tables earlier last) members
    | some _ => none

/-- Opens the table of a header. It may have been implied before, but not defined. -/
def openTable? (key : String) (members : Members) : Option Members :=
  match members.lookup key with
  | none => some (setKey key (.table .header []) members)
  | some (.table .implied inner) => some (setKey key (.table .header inner) members)
  | some _ => none

/-- Opens the next table of a header in double brackets. -/
def appendTable? (key : String) (members : Members) : Option Members :=
  match members.lookup key with
  | none => some (setKey key (.tables [] []) members)
  | some (.tables earlier last) =>
    some (setKey key (.tables (earlier ++ [.table .header last]) []) members)
  | some _ => none

end DocCatalog.Toml
