/-
**What is printed is read back.**

A symbolic expression in round brackets is printed with one space between its items. Its words and
numbers are then followed by a space, a bracket or the end, which go on with none of them, so the
scanner finds the tokens of the expression and the reader the expression itself, at new places.

* `Token.IsWord`: the names that are written as a word;
* `Token.spells_toString`: a decimal number is written as that number;
* `Token.Writes`: the kinds of the tokens of a text;
* `Sexp.tree`, `Sexp.Legible`: how an expression is printed, and which can be read;
* `Sexp.exists_readAll_of_legible`: what is read from a printed expression.
-/

import EtaLong.Text.Tree
import EtaLong.Proofs.Sexp.Layout

namespace EtaLong

/-! ### Numbers in decimal -/

namespace Text

/-- The value of an ASCII digit. -/
theorem digitValue?_of_isDigit {c : Char} (digit : c.isDigit = true) :
    digitValue? c = some (c.toNat - 48) := by
  obtain ⟨low, high⟩ : 48 ≤ c.toNat ∧ c.toNat ≤ 57 := Char.isDigit_iff_toNat.mp digit
  have first : digitZeros.find? (fun first => first ≤ c.toNat && c.toNat < first + 10) = some 48 := by
    unfold digitZeros
    rw [List.find?_cons_of_pos]
    simp only [Bool.and_eq_true, decide_eq_true_eq]
    omega
  unfold digitValue?
  rw [first]
  rfl

/-- ASCII digits denote what they denote in base ten. -/
theorem numberOf_eq_ofDigitChars {digits : List Char} (all : ∀ c ∈ digits, c.isDigit = true) :
    numberOf digits = Nat.ofDigitChars 10 digits 0 := by
  rw [numberOf, Nat.ofDigitChars_eq_foldl]
  suffices from_any : ∀ total, digits.foldl (fun total c => 10 * total + (digitValue? c).getD 0) total =
      digits.foldl (fun total c => 10 * total + (c.toNat - '0'.toNat)) total from from_any 0
  intro total
  induction digits generalizing total with
  | nil => rfl
  | cons c digits ih =>
    obtain ⟨digit, others⟩ := List.forall_mem_cons.mp all
    rw [List.foldl_cons, List.foldl_cons, digitValue?_of_isDigit digit]
    exact ih others _

/-- The digits of a number in base ten are ASCII digits. -/
theorem isDigit_of_toDigits {value : Nat} {c : Char} (among : c ∈ Nat.toDigits 10 value) :
    c.isDigit = true :=
  Nat.isDigit_of_mem_toDigits (by omega) (by omega) among

end Text

namespace Token

/-! ### Words and numbers -/

/-- **A name that is written as a word**: its characters are those of words, and not all digits. -/
def IsWord (name : String) : Prop :=
  (∀ c ∈ name.toList, isWordChar c = true) ∧ ∃ c ∈ name.toList, Text.isDigit c = false

/-- Words are recognised character by character. -/
theorem isWord_iff {name : String} : IsWord name ↔
    (name.toList.all isWordChar && name.toList.any (!Text.isDigit ·)) = true := by
  rw [Bool.and_eq_true, List.all_eq_true, List.any_eq_true]
  simp only [IsWord, Bool.not_eq_true']

instance (name : String) : Decidable (IsWord name) := decidable_of_iff' _ isWord_iff

/-- What a text spells as a word is written as a word. -/
theorem isWord_of_spells {name : String} {piece : List Char} (spells : Spells (.word name) piece) :
    IsWord name := by
  generalize kindOf : Kind.word name = kind at spells
  cases spells with
  | number _ _ => cases kindOf
  | word all other =>
    cases kindOf
    rw [IsWord, String.toList_ofList]
    exact ⟨all, other⟩
  | mark mark =>
    unfold single? at mark
    split at mark <;> cases mark <;> cases kindOf

theorem isWord_iff_spells {name : String} : IsWord name ↔ Spells (.word name) name.toList := by
  refine ⟨?_, isWord_of_spells⟩
  rintro ⟨all, other⟩
  have spells := Spells.word all other
  rwa [String.ofList_toList] at spells

/-- A decimal number is written as that number. -/
theorem spells_toString (value : Nat) : Spells (.number value) (toString value).toList := by
  rw [Nat.toString_eq_ofList_toDigits, String.toList_ofList]
  have spells : Spells (.number (Text.numberOf (Nat.toDigits 10 value))) (Nat.toDigits 10 value) := by
    refine .number Nat.toDigits_ne_nil fun c among => ?_
    rw [Text.isDigit, Text.digitValue?_of_isDigit (Text.isDigit_of_toDigits among)]
    rfl
  rwa [Text.numberOf_eq_ofDigitChars fun c => Text.isDigit_of_toDigits,
    Nat.ofDigitChars_ten_toDigits] at spells

/-- A text that goes on with neither a word nor a number. -/
def Stops (after : List Char) : Prop :=
  ∀ c ∈ after.head?, isWordChar c = false ∧ Text.isDigit c = false

theorem Stops.ends {after : List Char} (stops : Stops after) (kind : Kind) : Ends kind after := by
  cases kind with
  | word name => exact fun c found => (stops c found).1
  | number value => exact stops
  | _ => trivial

theorem stops_nil : Stops [] := fun _ found => nomatch found

theorem stops_cons {c : Char} (apart : isWordChar c = false ∧ Text.isDigit c = false)
    (after : List Char) : Stops (c :: after) := by
  intro next found
  cases found
  exact apart

/-! ### Texts and the kinds of their tokens -/

/-- **A text has tokens of the given kinds**, at any offset, where something follows it. -/
def Writes (follow text : List Char) (kinds : List Kind) : Prop :=
  ∀ offset, ∃ tokens, Lexes follow offset text tokens ∧ tokens.map Token.kind = kinds

namespace Writes

variable {follow text : List Char} {kinds : List Kind}

theorem nil : Writes follow [] [] := fun _ => ⟨[], .done, rfl⟩

/-- One more token in front. -/
theorem cons {kind : Kind} {piece : List Char} (spells : Spells kind piece)
    (ends : Ends kind (text ++ follow)) (writes : Writes follow text kinds) :
    Writes follow (piece ++ text) (kind :: kinds) := by
  intro offset
  obtain ⟨tokens, lexes, rfl⟩ := writes (offset + piece.length)
  exact ⟨_, .token spells ends lexes, rfl⟩

/-- A text that is one token. -/
theorem single {kind : Kind} {piece : List Char} (spells : Spells kind piece)
    (ends : Ends kind follow) : Writes follow piece [kind] := by
  have writes : Writes follow (piece ++ []) [kind] := cons spells ends nil
  rwa [List.append_nil] at writes

/-- A space in front. -/
theorem space (writes : Writes follow text kinds) : Writes follow (' ' :: text) kinds := by
  intro offset
  obtain ⟨tokens, lexes, rfl⟩ := writes (offset + 1)
  exact ⟨tokens, .blank rfl lexes, rfl⟩

/-- Two texts, of which the second follows the first. -/
theorem append {more : List Char} {moreKinds : List Kind} (first : Writes (more ++ follow) text kinds)
    (second : Writes follow more moreKinds) : Writes follow (text ++ more) (kinds ++ moreKinds) := by
  intro offset
  obtain ⟨tokens, lexes, rfl⟩ := first offset
  suffices joined : ∃ others, Lexes follow offset (text ++ more) (tokens ++ others) ∧
      others.map Token.kind = moreKinds by
    obtain ⟨others, lexesAll, rfl⟩ := joined
    exact ⟨tokens ++ others, lexesAll, List.map_append⟩
  clear first
  induction lexes with
  | @done offset => exact second offset
  | blank separator _ ih =>
    obtain ⟨others, lexesAll, same⟩ := ih
    exact ⟨others, .blank separator lexesAll, same⟩
  | @comment offset body text tokens sameLine ends _ ih =>
    obtain ⟨others, lexesAll, same⟩ := ih
    refine ⟨others, ?_, same⟩
    rw [List.cons_append, List.append_assoc]
    exact .comment sameLine (by rwa [List.append_assoc]) lexesAll
  | @token offset kind piece text tokens spells ends _ ih =>
    obtain ⟨others, lexesAll, same⟩ := ih
    refine ⟨others, ?_, same⟩
    rw [List.append_assoc]
    exact .token spells (by rwa [List.append_assoc]) lexesAll

end Writes

end Token

namespace Sexp

/-! ### Printed expressions -/

mutual

/-- How an expression is printed. -/
def tree : Sexp → Text.Tree
  | symbol _ name => .word name
  | number _ value => .word (toString value)
  | quoted _ name => .word ("'" ++ name)
  | group _ _ items => .group (trees items)

/-- How a row of expressions is printed. -/
def trees : List Sexp → List Text.Tree
  | [] => []
  | item :: items => item.tree :: trees items

end

theorem trees_eq_map (items : List Sexp) : trees items = items.map tree := by
  induction items with
  | nil => rfl
  | cons item items ih => rw [trees, ih, List.map_cons]

/-- **An expression that can be read once it is printed**: its names are words, and its brackets are
round. -/
inductive Legible : Sexp → Prop where
  | symbol {span : Span} {name : String} : Token.IsWord name → Legible (symbol span name)
  | number {span : Span} {value : Nat} : Legible (number span value)
  | quoted {span : Span} {name : String} : Token.IsWord name → Legible (quoted span name)
  | group {span : Span} {items : List Sexp} :
      (∀ item ∈ items, Legible item) → Legible (group .round span items)

open Token (Writes Stops stops_cons)

/-- A row whose items have their tokens has theirs, one after another. -/
theorem writes_row {follow : List Char} {items : List Sexp} (stops : Stops follow)
    (each : ∀ item ∈ items, ∀ {follow : List Char}, Stops follow →
      Writes follow item.tree.text.toList (item.tokens.map Token.kind)) :
    Writes follow (String.intercalate " " (Text.Tree.texts (trees items))).toList
      ((tokensAll items).map Token.kind) := by
  induction items with
  | nil => exact .nil
  | cons item items ih =>
    obtain ⟨first, others⟩ := List.forall_mem_cons.mp each
    cases items with
    | nil =>
      rw [trees, trees, Text.Tree.texts, Text.Tree.texts, String.intercalate_singleton,
        tokensAll_singleton]
      exact first stops
    | cons second items =>
      have rest := ih others
      rw [trees, Text.Tree.texts] at rest
      rw [trees, trees, Text.Tree.texts, Text.Tree.texts, String.intercalate_cons_cons, tokensAll,
        List.map_append, String.toList_append, String.toList_append, List.append_assoc]
      exact .append (first (stops_cons (by decide) _)) rest.space

/-- **A printed expression has the tokens of the expression.** -/
theorem Legible.writes {item : Sexp} (legible : item.Legible) : ∀ {follow : List Char},
    Stops follow → Writes follow item.tree.text.toList (item.tokens.map Token.kind) := by
  induction legible with
  | @symbol span name isWord =>
    intro follow stops
    have spells := Token.isWord_iff_spells.mp isWord
    have other : name ≠ "," := (spells.exact 0).2
    simp only [tree, Text.Tree.text, tokens, List.map_cons, List.map_nil, if_neg other]
    exact .single spells (stops.ends _)
  | @number span value =>
    intro follow stops
    exact .single (Token.spells_toString value) (stops.ends _)
  | @quoted span name isWord =>
    intro follow stops
    have word : Writes follow name.toList [.word name] :=
      .single (Token.isWord_iff_spells.mp isWord) (stops.ends _)
    rw [tree, Text.Tree.text, String.toList_append]
    exact .cons (.mark rfl) trivial word
  | @group span items _ ih =>
    intro follow stops
    have row := writes_row (stops_cons (c := ')') (by decide) follow) ih
    have closing : Writes follow [')'] [.closing .round] := .single (.mark rfl) trivial
    rw [tree, Text.Tree.text, String.toList_append, String.toList_append, List.append_assoc, tokens,
      List.map_cons, List.map_append]
    exact .cons (.mark rfl) trivial (row.append closing)

/-- **What is read from a printed expression** is the expression, at new places. -/
theorem exists_readAll_of_legible {item : Sexp} (legible : item.Legible) :
    ∃ read, readAll item.tree.text = .ok [read] ∧ read.unplaced = item.unplaced := by
  obtain ⟨tokens, lexes, kinds⟩ := legible.writes Token.stops_nil 0
  have scanned : Token.scan item.tree.text = (tokens, none) := Token.scanFrom_eq_iff.mpr lexes
  rw [← tokensAll_singleton] at kinds
  obtain ⟨row, read, same⟩ := exists_readAll_of_kinds scanned kinds
  cases row with
  | nil => cases same
  | cons first others =>
    cases others with
    | nil => exact ⟨first, read, (List.cons.inj same).1⟩
    | cons second others => cases (List.cons.inj same).2

end Sexp

end EtaLong
