/-
**Sessions.**

In a session a program grows one piece at a time. A piece is accepted when the program so far
still runs with the piece as its last line, and is dropped otherwise.
-/

import EtaLong.Program

namespace EtaLong

/-- The pieces that were accepted, in order, and how many results they have. -/
structure Session where
  pieces : List String := []
  count : Nat := 0

namespace Session

/-- The session after one more piece: the results that the piece adds, or why it was dropped. -/
def submit (fuel : Nat) (session : Session) (piece : String) :
    Except Program.Failure (List Program.Result) × Session :=
  let pieces := session.pieces ++ [piece]
  match Program.run fuel (String.intercalate "\n" pieces) with
  | .ok results => (.ok (results.drop session.count), ⟨pieces, results.length⟩)
  | .error failure => (.error failure, session)

/-- The answers of a session to pieces one after another. -/
def submitAll (fuel : Nat) (session : Session) :
    List String → List (Except Program.Failure (List Program.Result))
  | [] => []
  | piece :: pieces =>
    let (answer, next) := session.submit fuel piece
    answer :: next.submitAll fuel pieces

end Session

end EtaLong
