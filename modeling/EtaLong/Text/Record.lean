/-
**Records and tuples as text.**

The full description of a tree writes each node as its kind with named fields, and a sequence as
a tuple, in which a single item keeps its comma.
-/

namespace EtaLong.Text

/-- A node: its kind, then its fields in order. -/
def record (kind : String) (fields : List (String × String)) : String :=
  kind ++ "(" ++ String.intercalate ", " (fields.map fun field => field.1 ++ "=" ++ field.2) ++ ")"

/-- A sequence of described items. -/
def tuple : List String → String
  | [item] => "(" ++ item ++ ",)"
  | items => "(" ++ String.intercalate ", " items ++ ")"

end EtaLong.Text
