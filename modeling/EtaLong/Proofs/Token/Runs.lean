/-
**Maximal munch.**

What the tokens of a text are can be said by offsets alone, without a scanner. A comment reaches
from a semicolon to the end of its line. Outside comments each maximal run of word characters is a
token, a number if it has digits only and else a word, and so is each mark; the first other character
that is no separator is where the text stops making sense. The scanner goes from one boundary to the
next, where a boundary is an offset into which neither a comment nor a run reaches. In a text without
digits of other scripts it finds these tokens in their order, up to that character.

* `Token.InComment`, `Token.IsRun`, `Token.Lexeme`, `Token.FirstUnknown`: the text by offsets;
* `Token.MaximalMunch`: the tokens and the first unknown character from an offset on;
* `Token.Lexeme.eq_of_overlap`, `Token.MaximalMunch.unique`: tokens do not overlap, and nothing else
  is described;
* `Token.Boundary`, `Token.lexeme_of_spells`: from one boundary to the next;
* `Token.maximalMunch_scanFrom`, `Token.scan_eq_iff_maximalMunch`: what the scanner finds.
-/

import Mathlib.Data.List.Sort
import EtaLong.Proofs.Sexp.Printed
import EtaLong.Proofs.Token.Delimiting

namespace EtaLong.Token

/-! ### The text by offsets -/

/-- **An offset lies in a comment**: a semicolon stands there or before, and no line break since. A
semicolon inside a comment makes no difference. -/
def InComment (text : List Char) (place : Nat) : Prop :=
  ∃ start, start ≤ place ∧ text[start]? = some ';' ∧
    ∀ i, start ≤ i → i ≤ place → text[i]? ≠ some '\n'

/-- A character stands at an offset outside comments. -/
def Outside (text : List Char) (place : Nat) (c : Char) : Prop :=
  text[place]? = some c ∧ ¬ InComment text place

/-- **A maximal run of word characters** outside comments. -/
structure IsRun (text : List Char) (start stop : Nat) : Prop where
  nonempty : start < stop
  inside : ∀ i, start ≤ i → i < stop → ∃ c, Outside text i c ∧ isWordChar c = true
  before : ∀ i c, i + 1 = start → Outside text i c → isWordChar c = false
  after : ∀ c, Outside text stop c → isWordChar c = false

/-- What a run is: a number in decimal if it has digits only, and else a word. -/
def Kind.ofRun (run : List Char) : Kind :=
  if run.all Char.isDigit then .number (Nat.ofDigitChars 10 run 0) else .word (String.ofList run)

/-- **The tokens of a text**: its maximal runs, and its marks outside comments. -/
inductive Lexeme (text : List Char) : Token → Prop where
  | run {start stop : Nat} : IsRun text start stop →
      Lexeme text ⟨.ofRun ((text.drop start).take (stop - start)), ⟨start, stop⟩⟩
  | mark {place : Nat} {c : Char} {kind : Kind} : Outside text place c → single? c = some kind →
      Lexeme text ⟨kind, ⟨place, (place + 1 : Nat)⟩⟩

/-- A character that is part of no token and separates none. -/
def IsUnknown (c : Char) : Prop :=
  isWordChar c = false ∧ single? c = none ∧ isSeparator c = false

/-- **The first unknown character** outside comments, from an offset on. -/
structure FirstUnknown (text : List Char) (low : Nat) (found : Unknown) : Prop where
  reached : low ≤ found.offset
  stands : Outside text found.offset found.character
  isUnknown : IsUnknown found.character
  first : ∀ i c, low ≤ i → i < found.offset → Outside text i c → ¬ IsUnknown c

/-- **Maximal munch** from an offset on: all tokens up to the first unknown character, in the order
of the text, and that character. -/
structure MaximalMunch (text : List Char) (low : Nat) (tokens : List Token)
    (unknown : Option Unknown) : Prop where
  unknown_iff : ∀ found, unknown = some found ↔ FirstUnknown text low found
  mem_iff : ∀ token, token ∈ tokens ↔
    Lexeme text token ∧ low ≤ token.span.start ∧
      ∀ found, unknown = some found → token.span.stop ≤ found.offset
  ordered : tokens.Pairwise fun earlier later => earlier.span.start < later.span.start

variable {text : List Char} {low high : Nat}

/-- What lies in a comment lay in it before, unless a semicolon stands between. -/
theorem InComment.of_later {place later : Nat} (comment : InComment text later)
    (earlier : place ≤ later) (plain : ∀ i, place < i → i ≤ later → text[i]? ≠ some ';') :
    InComment text place := by
  obtain ⟨start, before, semicolon, sameLine⟩ := comment
  have reached : start ≤ place := by
    refine Nat.le_of_not_lt fun beyond => ?_
    exact plain start beyond before semicolon
  exact ⟨start, reached, semicolon, fun i after upTo => sameLine i after (by omega)⟩

theorem Outside.unique {place : Nat} {c d : Char} (first : Outside text place c)
    (second : Outside text place d) : c = d :=
  Option.some.inj (first.1.symm.trans second.1)

/-! ### Tokens do not overlap -/

/-- Runs that overlap are the same. -/
theorem IsRun.eq_of_overlap {start stop start' stop' : Nat} (one : IsRun text start stop)
    (other : IsRun text start' stop') (after : start ≤ start') (inside : start' < stop) :
    start = start' ∧ stop = stop' := by
  have starts : start = start' := by
    refine Nat.le_antisymm after (Nat.le_of_not_lt fun later => ?_)
    obtain ⟨c, outside, isWord⟩ := one.inside (start' - 1) (by omega) (by omega)
    have ends := other.before (start' - 1) c (by omega) outside
    rw [isWord] at ends
    cases ends
  refine ⟨starts, Nat.le_antisymm ?_ ?_⟩
  · refine Nat.le_of_not_lt fun longer => ?_
    obtain ⟨c, outside, isWord⟩ := one.inside stop' (by have := other.nonempty; omega) longer
    rw [other.after c outside] at isWord
    cases isWord
  · refine Nat.le_of_not_lt fun longer => ?_
    obtain ⟨c, outside, isWord⟩ := other.inside stop (by omega) longer
    rw [one.after c outside] at isWord
    cases isWord

/-- **What a token covers**: characters outside comments that are known and separate nothing. -/
theorem Lexeme.covers {token : Token} (lexeme : Lexeme text token) :
    ∃ start stop : Nat, token.span = ⟨start, stop⟩ ∧ start < stop ∧
      ∀ i, start ≤ i → i < stop →
        ∃ c, Outside text i c ∧ isSeparator c = false ∧ ¬ IsUnknown c := by
  cases lexeme with
  | @run start stop run =>
    refine ⟨start, stop, rfl, run.nonempty, fun i after before => ?_⟩
    obtain ⟨c, outside, isWord⟩ := run.inside i after before
    refine ⟨c, outside, isSeparator_of_isWordChar isWord, fun unknown => ?_⟩
    rw [unknown.1] at isWord
    cases isWord
  | @mark place c kind outside mark =>
    refine ⟨place, place + 1, rfl, Nat.lt_succ_self place, fun i after before => ?_⟩
    obtain rfl : i = place := by omega
    refine ⟨c, outside, (class_of_mark mark).1, fun unknown => ?_⟩
    rw [unknown.2.1] at mark
    cases mark

/-- A mark stands in no run. -/
theorem IsRun.not_mark {start stop place : Nat} {c : Char} {kind : Kind}
    (run : IsRun text start stop) (outside : Outside text place c) (mark : single? c = some kind)
    (after : start ≤ place) : stop ≤ place := by
  refine Nat.le_of_not_lt fun before => ?_
  obtain ⟨d, same, isWord⟩ := run.inside place after before
  rw [same.unique outside, (class_of_mark mark).2.2.1] at isWord
  cases isWord

/-- **Tokens that overlap are the same.** -/
theorem Lexeme.eq_of_overlap {one other : Token} (first : Lexeme text one)
    (second : Lexeme text other) (after : one.span.start ≤ other.span.start)
    (inside : other.span.start < one.span.stop) : one = other := by
  cases first with
  | @run start stop run =>
    cases second with
    | run run' =>
      obtain ⟨rfl, rfl⟩ := run.eq_of_overlap run' (Int.ofNat_le.mp after) (Int.ofNat_lt.mp inside)
      rfl
    | mark outside mark =>
      have beyond := run.not_mark outside mark (Int.ofNat_le.mp after)
      exact absurd (Int.ofNat_lt.mp inside) (Nat.not_lt.mpr beyond)
  | @mark place c kind outside mark =>
    cases second with
    | @run start stop run =>
      have here : place = start :=
        Nat.le_antisymm (Int.ofNat_le.mp after) (Nat.le_of_lt_succ (Int.ofNat_lt.mp inside))
      subst here
      exact absurd run.nonempty (Nat.not_lt.mpr (run.not_mark outside mark (Nat.le_refl _)))
    | @mark place' c' kind' outside' mark' =>
      have here : place = place' :=
        Nat.le_antisymm (Int.ofNat_le.mp after) (Nat.le_of_lt_succ (Int.ofNat_lt.mp inside))
      subst here
      obtain rfl := outside.unique outside'
      obtain rfl := Option.some.inj (mark.symm.trans mark')
      rfl

/-! ### Steps -/

/-- Characters that are known put nothing before the first unknown one. -/
theorem firstUnknown_iff (step : low ≤ high)
    (known : ∀ i c, low ≤ i → i < high → Outside text i c → ¬ IsUnknown c) (found : Unknown) :
    FirstUnknown text low found ↔ FirstUnknown text high found := by
  constructor
  · intro unknown
    refine ⟨?_, unknown.stands, unknown.isUnknown, fun i c after => ?_⟩
    · refine Nat.le_of_not_lt fun before => ?_
      exact known _ _ unknown.reached before unknown.stands unknown.isUnknown
    · exact unknown.first i c (Nat.le_trans step after)
  · intro unknown
    refine ⟨Nat.le_trans step unknown.reached, unknown.stands, unknown.isUnknown, ?_⟩
    intro i c after before outside
    by_cases passed : i < high
    · exact known i c after passed outside
    · exact unknown.first i c (Nat.le_of_not_lt passed) before outside

namespace MaximalMunch

variable {tokens : List Token} {unknown : Option Unknown}

/-- Nothing is found behind the end. -/
theorem finish (done : text.length ≤ low) : MaximalMunch text low [] none where
  unknown_iff found := by
    refine iff_of_false (Option.some_ne_none found).symm fun unknown => ?_
    have beyond := List.getElem?_eq_none (Nat.le_trans done unknown.reached)
    rw [unknown.stands.1] at beyond
    cases beyond
  mem_iff token := by
    refine iff_of_false List.not_mem_nil ?_
    rintro ⟨lexeme, after, _⟩
    obtain ⟨start, stop, span, nonempty, covers⟩ := lexeme.covers
    obtain ⟨c, outside, _⟩ := covers start (Nat.le_refl start) nonempty
    rw [span] at after
    have beyond := List.getElem?_eq_none (Nat.le_trans done (Int.ofNat_le.mp after))
    rw [outside.1] at beyond
    cases beyond
  ordered := .nil

/-- Nothing is found from an unknown character on. -/
theorem stop {c : Char} (outside : Outside text low c) (isUnknown : IsUnknown c) :
    MaximalMunch text low [] (some ⟨low, c⟩) where
  unknown_iff found := by
    constructor
    · intro same
      obtain rfl := Option.some.inj same
      refine ⟨Nat.le_refl low, outside, isUnknown, fun i d after before => ?_⟩
      exact absurd before (Nat.not_lt.mpr after)
    · intro unknown
      have here : found.offset = low := by
        refine Nat.le_antisymm (Nat.le_of_not_lt fun later => ?_) unknown.reached
        exact unknown.first low c (Nat.le_refl low) later outside isUnknown
      obtain ⟨offset, character⟩ := found
      obtain rfl : offset = low := here
      rw [outside.unique unknown.stands]
  mem_iff token := by
    refine iff_of_false List.not_mem_nil ?_
    rintro ⟨lexeme, after, before⟩
    obtain ⟨start, stop, span, nonempty, _⟩ := lexeme.covers
    have ends := before ⟨low, c⟩ rfl
    rw [span] at after ends
    dsimp only at after ends
    omega
  ordered := .nil

/-- **Separators and comments** are passed over. -/
theorem skip (step : low ≤ high)
    (separators : ∀ i c, low ≤ i → i < high → Outside text i c → isSeparator c = true)
    (rest : MaximalMunch text high tokens unknown) : MaximalMunch text low tokens unknown where
  unknown_iff found := by
    refine (rest.unknown_iff found).trans (firstUnknown_iff step ?_ found).symm
    intro i c after before outside isUnknown
    cases (separators i c after before outside).symm.trans isUnknown.2.2
  mem_iff token := by
    refine (rest.mem_iff token).trans (and_congr_right fun lexeme => and_congr_left fun _ => ?_)
    obtain ⟨start, stop, span, nonempty, covers⟩ := lexeme.covers
    obtain ⟨c, outside, notSeparator, _⟩ := covers start (Nat.le_refl start) nonempty
    rw [span]
    refine ⟨fun after => Int.le_trans (Int.ofNat_le.mpr step) after, fun after => ?_⟩
    refine Int.ofNat_le.mpr (Nat.le_of_not_lt fun before => ?_)
    rw [separators start c (Int.ofNat_le.mp after) before outside] at notSeparator
    cases notSeparator
  ordered := rest.ordered

/-- **A token is found** at its start. -/
theorem token {kind : Kind} (lexeme : Lexeme text ⟨kind, ⟨low, high⟩⟩)
    (rest : MaximalMunch text high tokens unknown) :
    MaximalMunch text low (⟨kind, ⟨low, high⟩⟩ :: tokens) unknown := by
  obtain ⟨start, stop, span, nonempty, covers⟩ := lexeme.covers
  obtain ⟨rfl, rfl⟩ : low = start ∧ high = stop := by
    obtain ⟨starts, stops⟩ := Span.mk.inj span
    omega
  have step : low ≤ high := Nat.le_of_lt nonempty
  refine ⟨fun found => ?_, fun token => ?_, ?_⟩
  · refine (rest.unknown_iff found).trans (firstUnknown_iff step ?_ found).symm
    intro i c after before outside
    obtain ⟨d, same, _, known⟩ := covers i after before
    rwa [outside.unique same]
  · rw [List.mem_cons, rest.mem_iff]
    constructor
    · rintro (rfl | ⟨other, after, before⟩)
      · refine ⟨lexeme, Int.le_refl _, fun found same => ?_⟩
        exact Int.ofNat_le.mpr ((rest.unknown_iff found).mp same).reached
      · exact ⟨other, Int.le_trans (Int.ofNat_le.mpr step) after, before⟩
    · rintro ⟨other, after, before⟩
      by_cases passed : token.span.start < high
      · exact .inl (lexeme.eq_of_overlap other after passed).symm
      · exact .inr ⟨other, Int.not_lt.mp passed, before⟩
  · refine .cons (fun token among => ?_) rest.ordered
    have after := ((rest.mem_iff token).mp among).2.1
    exact Int.lt_of_lt_of_le (Int.ofNat_lt.mpr nonempty) after

/-- **Only one row of tokens and one end** are described. -/
theorem unique {tokens' : List Token} {unknown' : Option Unknown}
    (one : MaximalMunch text low tokens unknown) (other : MaximalMunch text low tokens' unknown') :
    tokens = tokens' ∧ unknown = unknown' := by
  have ends : unknown = unknown' := by
    refine Option.ext fun found => ?_
    exact (one.unknown_iff found).trans (other.unknown_iff found).symm
  subst ends
  have irreflexive : Std.Irrefl fun earlier later : Token => earlier.span.start < later.span.start :=
    ⟨fun token => Int.lt_irrefl _⟩
  have antisymmetric : Std.Antisymm fun earlier later : Token =>
      earlier.span.start < later.span.start :=
    ⟨fun _ _ before after => absurd before (Int.lt_asymm after)⟩
  refine ⟨one.ordered.eq_of_mem_iff other.ordered fun token => ?_, rfl⟩
  exact (one.mem_iff token).trans (other.mem_iff token).symm

end MaximalMunch

/-! ### Boundaries -/

section Cut

variable {piece after : List Char} (cut : text.drop low = piece ++ after)

include cut

/-- The characters of a piece, at their offsets. -/
theorem getElem?_of_drop {i : Nat} (since : low ≤ i) (before : i < low + piece.length) :
    ∃ c ∈ piece, text[i]? = some c := by
  obtain ⟨step, rfl⟩ := Nat.exists_eq_add_of_le since
  have within : step < piece.length := by omega
  refine ⟨piece[step], List.getElem_mem within, ?_⟩
  rw [← List.getElem?_drop, cut, List.getElem?_append_left within,
    List.getElem?_eq_getElem within]

omit cut in
/-- The first character of what is left. -/
theorem getElem?_head_drop {c : Char} {rest : List Char} (cut : text.drop low = c :: rest) :
    text[low]? = some c := by
  rw [← Nat.add_zero low, ← List.getElem?_drop, cut]
  rfl

/-- The character behind a piece. -/
theorem getElem?_after_drop : text[low + piece.length]? = after.head? := by
  rw [← List.getElem?_drop, cut, List.getElem?_append_right (Nat.le_refl _), Nat.sub_self,
    List.head?_eq_getElem?]

theorem drop_after_drop : text.drop (low + piece.length) = after := by
  rw [← List.drop_drop, cut, List.drop_left]

end Cut

/-- **A boundary**: an offset into which neither a comment nor a run of word characters reaches. -/
structure Boundary (text : List Char) (place : Nat) : Prop where
  comment : ∀ c, text[place]? = some c → InComment text place → c = ';'
  run : ∀ i c d, i + 1 = place → Outside text i c → Outside text place d →
    isWordChar c = true → isWordChar d = false

namespace Boundary

theorem start : Boundary text 0 where
  comment c found comment := by
    obtain ⟨start, first, semicolon, _⟩ := comment
    obtain rfl : start = 0 := Nat.le_zero.mp first
    exact Option.some.inj (found.symm.trans semicolon)
  run i _ _ impossible := absurd impossible (Nat.succ_ne_zero i)

section Plain

variable (boundary : Boundary text low)
  (plain : ∀ i, low ≤ i → i < high → ∃ c, text[i]? = some c ∧ c ≠ ';')

include boundary plain

/-- No comment begins in a stretch without semicolons. -/
theorem outside {i : Nat} {c : Char} (after : low ≤ i) (before : i < high)
    (found : text[i]? = some c) : Outside text i c := by
  refine ⟨found, fun comment => ?_⟩
  obtain ⟨d, here, other⟩ := plain low (Nat.le_refl low) (Nat.lt_of_le_of_lt after before)
  refine other (boundary.comment d here (comment.of_later after fun j beyond upTo semicolon => ?_))
  obtain ⟨e, there, different⟩ := plain j (Nat.le_of_lt beyond) (Nat.lt_of_le_of_lt upTo before)
  exact different (Option.some.inj (there.symm.trans semicolon))

/-- **The boundary behind a stretch without semicolons**, if no run goes on there. -/
theorem next (nonempty : low < high)
    (ends : ∀ c d, text[high - 1]? = some c → text[high]? = some d → isWordChar c = true →
      isWordChar d = false) : Boundary text high where
  comment c found comment := by
    refine Classical.byContradiction fun other => ?_
    obtain ⟨d, last, _⟩ := plain (high - 1) (by omega) (by omega)
    have outside := boundary.outside plain (by omega) (by omega) last
    refine outside.2 (comment.of_later (by omega) fun j beyond upTo semicolon => ?_)
    obtain rfl : j = high := by omega
    exact other (Option.some.inj (found.symm.trans semicolon))
  run i c d last outside behind := by
    obtain rfl : i = high - 1 := by omega
    exact ends c d outside.1 behind.1

end Plain

section Single

variable {c : Char} (boundary : Boundary text low) (found : text[low]? = some c) (other : c ≠ ';')

include boundary found other

theorem outside_first : Outside text low c :=
  ⟨found, fun comment => other (boundary.comment c found comment)⟩

/-- The boundary behind a character that is no word character. -/
theorem succ (notWord : isWordChar c = false) : Boundary text (low + 1) := by
  have here : ∀ i, low ≤ i → i < low + 1 → text[i]? = some c := by
    intro i after before
    obtain rfl : i = low := by omega
    exact found
  have plain : ∀ i, low ≤ i → i < low + 1 → ∃ d, text[i]? = some d ∧ d ≠ ';' :=
    fun i after before => ⟨c, here i after before, other⟩
  refine boundary.next plain (Nat.lt_succ_self low) ?_
  intro d _ last _ isWord
  rw [Nat.add_sub_cancel, found] at last
  cases last
  rw [isWord] at notWord
  cases notWord

end Single

/-- **The boundary behind a comment**, at the end of its line. -/
theorem behind_comment (nonempty : low < high) (comment : ∀ i, low ≤ i → i < high → InComment text i)
    (ends : ∀ c, text[high]? = some c → c = '\n') : Boundary text high where
  comment c found inComment := by
    obtain ⟨start, before, _, sameLine⟩ := inComment
    exact absurd (ends c found ▸ found) (sameLine high before (Nat.le_refl high))
  run i c d last outside := absurd (comment i (by omega) (by omega)) outside.2

end Boundary

/-! ### What stands in front -/

/-- What stands in front is unknown only where no token, separator or comment can begin. -/
theorem isUnknown_of_front {c : Char} {rest : List Char} (stands : front c rest = .unknown) :
    IsUnknown c ∧ c ≠ ';' := by
  unfold front at stands
  by_cases separator : isSeparator c = true
  · rw [if_pos separator] at stands
    cases stands
  rw [if_neg separator] at stands
  cases number : numberFront? (c :: rest) with
  | some digits =>
    rw [number] at stands
    cases stands
  | none =>
    rw [number] at stands
    dsimp only at stands
    by_cases isWord : isWordChar c = true
    · rw [if_pos isWord] at stands
      cases stands
    rw [if_neg isWord] at stands
    by_cases comment : c = ';'
    · rw [if_pos comment] at stands
      cases stands
    rw [if_neg comment] at stands
    cases mark : single? c with
    | some kind =>
      rw [mark] at stands
      cases stands
    | none =>
      exact ⟨⟨Bool.eq_false_iff.mpr isWord, mark, Bool.eq_false_iff.mpr separator⟩, comment⟩

section Ordinary

variable (ordinary : ∀ c ∈ text, ¬ IsForeignDigit c) {piece after : List Char} {kind : Kind}

/-- **A piece of word characters** from a boundary on is a maximal run, if none follows. -/
theorem isRun_of_cut (boundary : Boundary text low) (cut : text.drop low = piece ++ after)
    (nonempty : piece ≠ []) (all : ∀ c ∈ piece, isWordChar c = true)
    (stops : ∀ c ∈ after.head?, isWordChar c = false) :
    IsRun text low (low + piece.length) ∧ Boundary text (low + piece.length) := by
  have longer : low < low + piece.length :=
    Nat.lt_add_of_pos_right (List.length_pos_iff.mpr nonempty)
  have plain : ∀ i, low ≤ i → i < low + piece.length → ∃ c, text[i]? = some c ∧ c ≠ ';' := by
    intro i after before
    obtain ⟨c, among, found⟩ := getElem?_of_drop cut after before
    refine ⟨c, found, ?_⟩
    rintro rfl
    exact absurd (all ';' among) (by decide)
  have behind : ∀ c, text[low + piece.length]? = some c → isWordChar c = false := by
    intro c found
    rw [getElem?_after_drop cut] at found
    exact stops c found
  refine ⟨⟨longer, fun i after before => ?_, fun i c last outside => ?_, fun c outside => ?_⟩, ?_⟩
  · obtain ⟨c, among, found⟩ := getElem?_of_drop cut after before
    exact ⟨c, boundary.outside plain after before found, all c among⟩
  · obtain ⟨d, among, found⟩ := getElem?_of_drop cut (Nat.le_refl low) longer
    have first := boundary.outside plain (Nat.le_refl low) longer found
    refine Bool.eq_false_iff.mpr fun isWord => ?_
    have ends := boundary.run i c d last outside first isWord
    rw [all d among] at ends
    cases ends
  · exact behind c outside.1
  · exact boundary.next plain longer fun c d _ found _ => behind d found

/-- **A comment** reaches to the end of its line, and a boundary is there. -/
theorem comment_of_cut {body : List Char} (cut : text.drop low = ';' :: body ++ after)
    (sameLine : '\n' ∉ body) (ends : EndsLine after) :
    (∀ i, low ≤ i → i < low + (';' :: body).length → InComment text i) ∧
      Boundary text (low + (';' :: body).length) := by
  have comment : ∀ i, low ≤ i → i < low + (';' :: body).length → InComment text i := by
    intro i later before
    refine ⟨low, later, getElem?_head_drop cut, fun j since upTo lineBreak => ?_⟩
    obtain ⟨c, among, found⟩ := getElem?_of_drop cut since (Nat.lt_of_le_of_lt upTo before)
    obtain rfl := Option.some.inj (found.symm.trans lineBreak)
    exact sameLine ((List.mem_cons.mp among).resolve_left (by decide))
  refine ⟨comment, .behind_comment (Nat.lt_add_of_pos_right (Nat.succ_pos _)) comment ?_⟩
  intro c found
  rw [getElem?_after_drop cut] at found
  exact ends c found

include ordinary

/-- **What is spelled out from a boundary on is a token**, and it ends at a boundary. -/
theorem lexeme_of_spells (boundary : Boundary text low) (cut : text.drop low = piece ++ after)
    (spells : Spells kind piece) (ends : Ends kind after ∨ Stuck after) :
    Lexeme text ⟨kind, ⟨low, (low + piece.length : Nat)⟩⟩ ∧ Boundary text (low + piece.length) := by
  have whole : (text.drop low).take (low + piece.length - low) = piece := by
    rw [Nat.add_sub_cancel_left, cut, List.take_left]
  have mem_text : ∀ c ∈ piece, c ∈ text := fun c among =>
    List.mem_of_mem_drop (cut ▸ List.mem_append_left after among)
  have stuckStops : Stuck after → ∀ c ∈ after.head?, isWordChar c = false := by
    rintro ⟨c, rest, rfl, stands⟩ d first
    cases first
    exact (isUnknown_of_front stands).1.1
  cases spells with
  | number nonempty digits =>
    have ascii : ∀ c ∈ piece, c.isDigit = true ∧ isWordChar c = true := by
      intro c among
      have same := isWordChar_of_digit (digits c among)
      cases isDigit : c.isDigit with
      | true => exact ⟨rfl, same.trans isDigit⟩
      | false => exact absurd ⟨digits c among, isDigit⟩ (ordinary c (mem_text c among))
    have stops := ends.elim (fun ended c first => (ended c first).1) stuckStops
    obtain ⟨run, next⟩ :=
      isRun_of_cut boundary cut nonempty (fun c among => (ascii c among).2) stops
    have kindOf : Kind.ofRun piece = .number (Text.numberOf piece) := by
      rw [Kind.ofRun, if_pos (List.all_eq_true.mpr fun c among => (ascii c among).1),
        Text.numberOf_eq_ofDigitChars fun c among => (ascii c among).1]
    have lexeme := Lexeme.run run
    rw [whole, kindOf] at lexeme
    exact ⟨lexeme, next⟩
  | word all other =>
    obtain ⟨c, among, notDigit⟩ := other
    have stops := ends.elim id stuckStops
    obtain ⟨run, next⟩ := isRun_of_cut boundary cut (List.ne_nil_of_mem among) all stops
    have kindOf : Kind.ofRun piece = .word (String.ofList piece) := by
      refine if_neg fun digits => ?_
      have digit := Text.digitValue?_of_isDigit (List.all_eq_true.mp digits c among)
      rw [Text.isDigit, digit] at notDigit
      cases notDigit
    have lexeme := Lexeme.run run
    rw [whole, kindOf] at lexeme
    exact ⟨lexeme, next⟩
  | @mark c kind mark =>
    obtain ⟨_, _, notWord, other⟩ := class_of_mark mark
    have found := getElem?_head_drop cut
    exact ⟨.mark (boundary.outside_first found other) mark, boundary.succ found other notWord⟩

/-- **The scanner finds, from a boundary on, what maximal munch describes.** -/
theorem maximalMunch_scanFrom (boundary : Boundary text low) :
    MaximalMunch text low (scanFrom low 0 (text.drop low)).1 (scanFrom low 0 (text.drop low)).2 := by
  -- The induction is on what is left: from each boundary the scanner goes on to a later one.
  induction size : text.length - low using Nat.strongRecOn generalizing low with
  | ind count ih =>
    cases cut : text.drop low with
    | nil => exact .finish (List.drop_eq_nil_iff.mp cut)
    | cons c rest =>
      have found : text[low]? = some c := getElem?_head_drop cut
      have inside : low < text.length := (List.getElem?_eq_some_iff.mp found).1
      have onward : ∀ {more after : List Char}, text.drop low = c :: more ++ after →
          Boundary text (low + (c :: more).length) →
          MaximalMunch text (low + (c :: more).length)
            (scanFrom (low + (c :: more).length) 0 after).1
            (scanFrom (low + (c :: more).length) 0 after).2 := by
        intro more after cut next
        rw [← drop_after_drop cut]
        refine ih _ ?_ next rfl
        rw [List.length_cons]
        omega
      have fronts := fronts_front c rest
      generalize stands : front c rest = what at fronts
      cases fronts with
      | blank separator =>
        have other : c ≠ ';' := by
          rintro rfl
          exact absurd separator (by decide)
        have next := boundary.succ found other (class_of_isSeparator separator).2
        rw [scanFrom, stands]
        refine (@onward [] rest cut next).skip (Nat.le_succ low) fun i d after before outside => ?_
        obtain rfl : i = low := Nat.le_antisymm (Nat.le_of_lt_succ before) after
        rwa [outside.unique (boundary.outside_first found other)]
      | @comment body after same line sameLine ends =>
        subst same line
        obtain ⟨comment, next⟩ := comment_of_cut cut sameLine ends
        rw [scanFrom_of_skipped low stands]
        refine (onward cut next).skip (Nat.le_add_right low _) fun i d after before outside => ?_
        exact absurd (comment i after before) outside.2
      | @token kind more after same spells ends =>
        subst same
        obtain ⟨lexeme, next⟩ := lexeme_of_spells ordinary boundary cut spells ends
        rw [scanFrom_of_token low stands]
        exact (onward cut next).token lexeme
      | unknown =>
        obtain ⟨isUnknown, other⟩ := isUnknown_of_front stands
        rw [scanFrom, stands]
        exact .stop (boundary.outside_first found other) isUnknown

end Ordinary

/-- **The scanner is maximal munch.** In a source without digits of other scripts it finds these
tokens and this end, and no others: one number or word for each maximal run of word characters
outside comments, one mark for each quote, comma or bracket outside comments, in the order of the
source and at their offsets, up to the first character outside comments that is none of these and no
separator. -/
theorem scan_eq_iff_maximalMunch {source : String}
    (ordinary : ∀ c ∈ source.toList, ¬ IsForeignDigit c) (tokens : List Token)
    (unknown : Option Unknown) :
    scan source = (tokens, unknown) ↔ MaximalMunch source.toList 0 tokens unknown := by
  have found := maximalMunch_scanFrom ordinary Boundary.start
  constructor
  · intro scanned
    rw [List.drop_zero, ← scan, scanned] at found
    exact found
  · intro munch
    obtain ⟨same, ends⟩ := munch.unique found
    rw [same, ends]
    rfl

/-- Digits that run on into a word, digits alone, a comment with a bracket in it, and a character
that is unknown, behind which nothing is found. -/
theorem scan_eq_iff_maximalMunch_at_mixed_runs :
    MaximalMunch "12-3 07;(\n'a12#b".toList 0
      [⟨.word "12-3", ⟨0, 4⟩⟩, ⟨.number 7, ⟨5, 7⟩⟩, ⟨.quote, ⟨10, 11⟩⟩, ⟨.word "a12", ⟨11, 14⟩⟩]
      (some ⟨14, '#'⟩) := by
  have ordinary : ∀ c ∈ "12-3 07;(\n'a12#b".toList, ¬ IsForeignDigit c := by
    have known : "12-3 07;(\n'a12#b".toList.all (fun c => !Text.isDigit c || c.isDigit) = true := by
      decide +kernel
    intro c among
    rintro ⟨digit, foreign⟩
    have one := List.all_eq_true.mp known c among
    rw [digit, foreign] at one
    cases one
  exact (scan_eq_iff_maximalMunch ordinary _ _).mp (by decide +kernel)

end EtaLong.Token
