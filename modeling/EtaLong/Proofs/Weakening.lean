/-
**Weakenings one after another.**

A weakening moves indices, and it moves whatever holds indices along with them. Four laws say how
weakenings act: nothing is moved where nothing is inserted; entries inserted next to, or among, those
inserted before are inserted together with them; insertions at two places can be made in either
order; and of what a weakening inserts something into, exactly that stays which holds only indices
below the cutoff. They are laws of indices, so they hold of all that is moved index by index.

* `Weakening.embed_eq_self_iff`, `Weakening.embed_merge`, `Weakening.embed_exchange`: the laws for an
  index;
* `Weakening.Acts`: the laws for anything that holds indices;
* `Weakening.Acts.of_moves`: what is moved index by index obeys them.
-/

import EtaLong.Context

namespace EtaLong.Weakening

/-! ### Indices -/

/-- **An index stays** where nothing is inserted, and below the cutoff. -/
theorem embed_eq_self_iff (w : Weakening) (index : Int) :
    w.embed index = index ↔ w.count = 0 ∨ index < w.cutoff := by
  unfold embed
  split <;> omega

/-- Several indices stay where nothing is inserted, and if all of them are below the cutoff. -/
theorem forall_embed_eq_self_iff {ι : Type} (w : Weakening) (held : ι → Prop) (index : ι → Int) :
    (∀ i, held i → w.embed (index i) = index i) ↔
      w.count = 0 ∨ ∀ i, held i → index i < w.cutoff := by
  simp only [embed_eq_self_iff]
  by_cases none : w.count = 0
  · simp [none]
  · simp [none]

section Two

variable {count count' cutoff cutoff' : Nat}

/-- **Entries inserted next to, or among, those inserted before** are inserted together with them. -/
theorem embed_merge (low : cutoff ≤ cutoff') (high : cutoff' ≤ cutoff + count) (index : Int) :
    embed ⟨count', cutoff'⟩ (embed ⟨count, cutoff⟩ index) =
      embed ⟨count + count', cutoff⟩ index := by
  simp only [embed]
  split
  · rw [if_pos (by omega)]
    omega
  · rw [if_neg (by omega)]

/-- **Insertions at two places** in either order: the place further out moves with the entries
inserted before it. -/
theorem embed_exchange (inner : cutoff ≤ cutoff') (index : Int) :
    embed ⟨count, cutoff⟩ (embed ⟨count', cutoff'⟩ index) =
      embed ⟨count', cutoff' + count⟩ (embed ⟨count, cutoff⟩ index) := by
  by_cases outside : (cutoff' : Int) ≤ index
  · have between : (cutoff : Int) ≤ index := by omega
    simp only [embed, if_pos outside, if_pos between]
    rw [if_pos (by omega), if_pos (by omega)]
    omega
  · simp only [embed, if_neg outside]
    split
    · rw [if_neg (by omega)]
    · rw [if_neg (by omega)]

end Two

/-- What holds of indices moved twice holds of unsigned ones. -/
theorem shift_shift {first second first' second' : Weakening}
    (moves : ∀ index, second.embed (first.embed index) = second'.embed (first'.embed index))
    (index : Nat) : second.shift (first.shift index) = second'.shift (first'.shift index) := by
  have same := moves index
  simp only [embed_natCast] at same
  omega

/-! ### What holds indices -/

/-- **Weakenings act** on what holds indices, where it is known which of it holds only indices below
a bound. -/
structure Acts {α : Type} (weaken : Weakening → α → α) (Below : Nat → α → Prop) : Prop where
  none : ∀ (cutoff : Nat) (x : α), weaken ⟨0, cutoff⟩ x = x
  merge : ∀ (count count' cutoff cutoff' : Nat) (x : α),
    cutoff ≤ cutoff' → cutoff' ≤ cutoff + count →
      weaken ⟨count', cutoff'⟩ (weaken ⟨count, cutoff⟩ x) = weaken ⟨count + count', cutoff⟩ x
  exchange : ∀ (count count' cutoff cutoff' : Nat) (x : α), cutoff ≤ cutoff' →
    weaken ⟨count, cutoff⟩ (weaken ⟨count', cutoff'⟩ x) =
      weaken ⟨count', cutoff' + count⟩ (weaken ⟨count, cutoff⟩ x)
  stays_iff : ∀ (w : Weakening) (x : α), weaken w x = x ↔ w.count = 0 ∨ Below w.cutoff x

/-- **What is moved index by index** obeys the laws of indices. -/
theorem Acts.of_moves {α : Type} {weaken : Weakening → α → α} {Below : Nat → α → Prop}
    (together : ∀ {first second first' second' : Weakening},
      (∀ index, second.embed (first.embed index) = second'.embed (first'.embed index)) →
        ∀ x, weaken second (weaken first x) = weaken second' (weaken first' x))
    (stays : ∀ (w : Weakening) (x : α), weaken w x = x ↔ w.count = 0 ∨ Below w.cutoff x) :
    Acts weaken Below where
  none cutoff x := (stays ⟨0, cutoff⟩ x).mpr (.inl rfl)
  merge count count' cutoff cutoff' x low high := by
    -- Nothing more is inserted after both, so that there are two weakenings on either side.
    have moves : ∀ index, embed ⟨count', cutoff'⟩ (embed ⟨count, cutoff⟩ index) =
        identity.embed (embed ⟨count + count', cutoff⟩ index) := by
      intro index
      rw [embed_merge low high, (embed_eq_self_iff identity _).mpr (.inl rfl)]
    rw [together moves, (stays identity _).mpr (.inl rfl)]
  exchange count count' cutoff cutoff' x inner := together (embed_exchange inner) x
  stays_iff := stays

/-- A weakening that inserts nothing leaves everything alone. -/
theorem Acts.of_isIdentity {α : Type} {weaken : Weakening → α → α} {Below : Nat → α → Prop}
    (acts : Acts weaken Below) {w : Weakening} (nothing : w.isIdentity = true) (x : α) :
    weaken w x = x := by
  obtain ⟨count, cutoff⟩ := w
  obtain rfl : count = 0 := eq_of_beq nothing
  exact acts.none cutoff x

end EtaLong.Weakening
