/-
**Sources on two lines.**

A source that can be read leaves nothing open, so a second source on the lines after it is read as
if it stood alone, further down: the same expressions or the same error, at another place.

* `Sexp.readAll_join_ok`, `Sexp.readAll_join_error`: what is read, and what is refused.
-/

import EtaLong.Proofs.Sexp

namespace EtaLong

namespace Sexp

variable {first second : String} {row : List Sexp}

theorem length_join (first second : String) :
    (first ++ "\n" ++ second).length = second.length + (first.length + 1) := by
  rw [String.length_append, String.length_append, Nat.add_comm]
  rfl

/-- **The second source is read after the first**, at its place. -/
theorem readAll_join_ok {later : List Sexp} (read : readAll first = .ok row)
    (readSecond : readAll second = .ok later) :
    readAll (first ++ "\n" ++ second) = .ok (row ++ shiftAll (first.length + 1 : Nat) later) := by
  rw [readAll_eq_ok_iff] at read readSecond
  rw [readAll_eq_ok_iff, Token.scan_join second read, readSecond, tokensAll_append, tokensAll_shift]
  rfl

/-- **The second source fails after the first as it fails alone**, at its place. -/
theorem readAll_join_error {error : ReadError} (read : readAll first = .ok row)
    (failed : readAll second = .error error) :
    ∃ moved, readAll (first ++ "\n" ++ second) = .error moved ∧ moved.message = error.message ∧
      moved.span = error.span.shift (first.length + 1 : Nat) := by
  rw [readAll_eq_ok_iff] at read
  have scanned := Token.scan_join second read
  generalize found : Token.scan second = outcome at scanned
  obtain ⟨tokens, unknown⟩ := outcome
  -- The first source leaves a reader that is like a fresh one.
  have fed := Reader.feedAll_tokensAll row [] []
  have fresh : Reader.Alike {} ⟨row.reverse ++ [], [], none⟩ := ⟨rfl, rfl⟩
  have ends := Reader.feedAll_alike (first.length + 1 : Nat) fresh tokens
  rw [readAll_eq scanned, Reader.feedAll_append _ fed]
  rw [readAll_eq found] at failed
  rcases ends with ⟨span, refused, refusedLater⟩ | ⟨last, last', taken, takenLater, alike⟩
  · rw [refused] at failed
    cases failed
    rw [refusedLater]
    exact ⟨_, rfl, rfl, rfl⟩
  · rw [taken] at failed
    rw [takenLater]
    cases unknown with
    | some unknown =>
      cases failed
      refine ⟨_, rfl, rfl, ?_⟩
      simp only [ReadError.span, Span.shift, Token.Unknown.shift, Int.natCast_add]
      congr 1
      omega
    | none =>
      cases finished : last.finish? with
      | some items =>
        dsimp only [Except.bind] at failed
        rw [finished] at failed
        cases failed
      | none =>
        dsimp only [Except.bind] at failed ⊢
        rw [finished] at failed
        cases failed
        rw [Option.map_none, Reader.finish?_alike alike finished]
        refine ⟨_, rfl, rfl, ?_⟩
        simp only [ReadError.span, Span.shift, length_join, Int.natCast_add]

end Sexp

end EtaLong
