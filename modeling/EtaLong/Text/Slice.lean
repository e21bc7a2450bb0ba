/-
**Signed positions in a sequence.**

A position counts from the front, or from the back when it is negative. A cut clamps the position
to the sequence, so a slice never fails; picking one item out of range gives nothing. Positions and
widths that are used as they are must fit a signed machine word.

* `cut_le_length`: a cut lies within the sequence;
* `slice_eq_take_drop`: between non-negative positions a slice is what the two positions enclose.
-/

namespace EtaLong.Text

/-- The cut that a signed position makes in a sequence of the given length. -/
def cut (length : Nat) (position : Int) : Nat :=
  if position < 0 then (position + length).toNat else min position.toNat length

/-- The items between two cuts; a missing cut is the end of the sequence on its side. -/
def slice {α : Type} (items : List α) (start stop : Option Int) : List α :=
  let first := (start.map (cut items.length)).getD 0
  let last := (stop.map (cut items.length)).getD items.length
  (items.take last).drop first

/-- The item at a signed position. -/
def at? {α : Type} (items : List α) (position : Int) : Option α :=
  let index := if position < 0 then position + items.length else position
  if index < 0 then none else items[index.toNat]?

/-- Whether a number fits a signed machine word of 64 bits. -/
def fitsWord (value : Int) : Bool :=
  -9223372036854775808 ≤ value && value < 9223372036854775808

/-- A cut lies within the sequence. -/
theorem cut_le_length (length : Nat) (position : Int) : cut length position ≤ length := by
  unfold cut
  split <;> omega

/-- A position inside the sequence is its own cut. -/
theorem cut_natCast {length position : Nat} (inside : position ≤ length) :
    cut length position = position := by
  unfold cut
  split <;> omega

/-- Between non-negative positions a slice is what the two positions enclose. -/
theorem slice_eq_take_drop {α : Type} (items : List α) {start stop : Nat}
    (startInside : start ≤ items.length) (stopInside : stop ≤ items.length) :
    slice items (some start) (some stop) = (items.take stop).drop start := by
  simp [slice, cut_natCast startInside, cut_natCast stopInside]

end EtaLong.Text
