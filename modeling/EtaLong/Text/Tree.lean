/-
**Parenthesised text.**

Types and terms are printed as trees of words. A group is written in parentheses with one space
between its items, so the layout is decided here once for everything that is printed.
-/

namespace EtaLong.Text

/-- Words grouped by parentheses. -/
inductive Tree where
  | word (text : String)
  | group (items : List Tree)

mutual

/-- The text of a tree. -/
def Tree.text : Tree → String
  | .word text => text
  | .group items => "(" ++ String.intercalate " " (Tree.texts items) ++ ")"

/-- The texts of several trees. -/
def Tree.texts : List Tree → List String
  | [] => []
  | item :: items => item.text :: Tree.texts items

end

/-- A form: its keyword and then its operands. -/
def Tree.form (keyword : String) (operands : List Tree) : Tree :=
  .group (.word keyword :: operands)

/-- Several trees are printed one by one. -/
theorem Tree.texts_eq_map (items : List Tree) : Tree.texts items = items.map Tree.text := by
  induction items with
  | nil => rfl
  | cons item items ih => simp [Tree.texts, ih]

end EtaLong.Text
