/-
**Unused definitions.**

A definition that nothing after it mentions can be taken out of a program. What comes after it is
then elaborated over one definition less, so its terms lose an index, and evaluated over one value
less, so its closures capture less; yet the same declaration is refused for the same reason, and
the results are the same.

* `Progress.alike_define`: progress before and after a definition, for all other names;
* `Program.TypedFrom.yields_without`: entries with and without a definition that they do not use;
* `Program.unused_definition_irrelevant`: a program with and without an unused definition.
-/

import EtaLong.Proofs.Program.Coherence
import EtaLong.Proofs.Program.Renaming

namespace EtaLong

namespace Program

/-! ### One definition more -/

/-- **Progress before and after a definition is alike** for all names but the defined one: the
indices of the others move by one. -/
theorem Progress.alike_define (progress : Progress) (span : Span) (name : String) (term : Term)
    (ty : Ty) :
    Alike (· + 1) (· ≠ name) progress (progress.define span name term ty) where
  claims := fun _ _ => rfl
  scope := fun _ different => Scope.find?_cons_of_ne (Ne.symm different)

/-- A definition that ends the declarations of a program is elaborated over those before it. -/
theorem exists_define_of_elaborate {front : List Decl} {span : Span} {name : String} {body : Expr}
    {entries : List Entry} (elaborated : elaborate (front ++ [.define span name body]) = .ok entries) :
    ∃ (progress : Progress) (term : Term) (ty : Ty), Progress.steps {} front = (progress, none) ∧
      Progress.steps {} (front ++ [.define span name body]) =
        (progress.define span name term ty, none) ∧
      term.HasType progress.scope.types ty := by
  obtain ⟨last, ended, _⟩ := elaborate_eq_ok.mp elaborated
  obtain ⟨progress, frontEnded, lastEnded⟩ := Progress.exists_steps_of_append ended
  rw [Progress.steps] at lastEnded
  cases stepped : progress.step (.define span name body) with
  | error error =>
    rw [stepped] at lastEnded
    cases lastEnded
  | ok next =>
    rw [stepped] at lastEnded
    cases lastEnded
    cases Progress.accepts_of_step stepped with
    | define _ run => exact ⟨progress, _, _, frontEnded, ended, (Expr.typed_of_elaborate run).1⟩

/-- **Entries with and without a definition** that the entries after it do not use have the same
results, but for the result of the definition. -/
theorem TypedFrom.yields_without {front added : List Entry} (entry : Entry)
    (typed : TypedFrom [] (front ++ added)) (named : entry.name.isSome)
    (entryTyped : entry.term.HasType (front.foldl Entry.extend []) entry.ty) :
    ∃ before own after, own.name = entry.name ∧
      Yields (fun fuel => evaluate fuel (front ++ entry :: renameFrom (· + 1) added))
        (before ++ own :: after) ∧
      Yields (fun fuel => evaluate fuel (front ++ added)) (before ++ after) := by
  obtain ⟨frontTyped, addedTyped⟩ := typedFrom_append.mp typed
  obtain ⟨before, reached, frontRun, reachedTyped, _⟩ := frontTyped.exists_run .nil
  obtain ⟨value, normal, evaluates, _, reads, _⟩ := entryTyped.total reachedTyped
  -- The value of the definition stands in front of the values that the entries use.
  have moved : EnvMoved (· + 1) (front.foldl Entry.extend []) reached (value :: reached) :=
    reachedTyped.realized
  obtain ⟨after, last, last', run, run'⟩ := addedTyped.run_renamed moved
  have bound : entry.bind reached value = value :: reached := if_pos named
  rw [← bound] at run'
  exact ⟨before, _, after, rfl, (frontRun.append (.cons evaluates reads run')).yields,
    (frontRun.append run).yields⟩

/-! ### Programs with and without a definition -/

/-- **Unused definitions are irrelevant.** Let declarations that end with a definition be accepted,
and let no declaration after them claim, define or use its name. Then the program is refused with
an error exactly when it is refused with it where the definition is left out; and if both are
elaborated, then both have results, the same ones but for the result of the definition itself. -/
theorem unused_definition_irrelevant {front back : List Decl} {span : Span} {name : String}
    {body : Expr} {first : List Entry}
    (elaborated : elaborate (front ++ [.define span name body]) = .ok first)
    (unused : ∀ decl ∈ back, name ∉ decl.names) :
    (∀ error, elaborate (front ++ [.define span name body] ++ back) = .error error ↔
      elaborate (front ++ back) = .error error) ∧
    (∀ full less, elaborate (front ++ [.define span name body] ++ back) = .ok full →
      elaborate (front ++ back) = .ok less →
      ∃ before own after, own.name = some name ∧
        Yields (fun fuel => evaluate fuel full) (before ++ own :: after) ∧
        Yields (fun fuel => evaluate fuel less) (before ++ after)) := by
  obtain ⟨progress, term, ty, frontEnded, definedEnded, termTyped⟩ :=
    exists_define_of_elaborate elaborated
  have mentions : ∀ decl ∈ back, ∀ mentioned ∈ decl.names, mentioned ≠ name := by
    rintro decl among mentioned inDecl rfl
    exact unused decl among inDecl
  have together := (progress.alike_define span name term ty).steps mentions
  rw [← Progress.steps_append back frontEnded, ← Progress.steps_append back definedEnded] at together
  rcases together with ⟨error, stopped, stopped'⟩ |
    ⟨last, last', added, ended, ended', accepted, accepted'⟩
  · -- Both programs are refused, with the same error.
    have refused := elaborate_eq_error.mpr stopped
    have refused' := elaborate_eq_error.mpr stopped'
    refine ⟨fun other => by rw [refused, refused'], fun full _ fullElaborated _ => ?_⟩
    rw [refused'] at fullElaborated
    cases fullElaborated
  · have accepts := elaborate_eq_ok.mpr ⟨last, ended, rfl⟩
    have accepts' := elaborate_eq_ok.mpr ⟨last', ended', rfl⟩
    constructor
    · intro error
      rw [accepts, accepts']
      constructor <;> intro impossible <;> cases impossible
    · intro full less fullElaborated lessElaborated
      cases accepts'.symm.trans fullElaborated
      cases accepts.symm.trans lessElaborated
      have follows := Progress.Follows.start.steps ended
      have typed := follows.typed.entries
      have frontScope := (Progress.Follows.start.steps frontEnded).typed.scope
      rw [← frontScope] at termTyped
      rw [accepted] at typed ⊢
      have defined : last'.accepted = progress.accepted ++
          ⟨some name, ty, term, span⟩ :: renameFrom (· + 1) added := by
        rw [accepted', Progress.accepted, Progress.define, List.reverse_cons, List.append_assoc]
        rfl
      rw [defined]
      exact typed.yields_without ⟨some name, ty, term, span⟩ rfl termTyped

/-- A definition whose name is a parameter in a later definition, but not used there, taken out of
a program that is elaborated and of one that is refused. -/
theorem unused_definition_irrelevant_at_shadowed_name :
    ∃ (front back wrong : List Decl) (definition : Decl) (full less : List Entry)
      (before after : List Result) (own : Result) (error : Error),
      elaborate (front ++ [definition] ++ back) = .ok full ∧ elaborate (front ++ back) = .ok less ∧
      full.map Entry.name = [some "one", some "spare", some "next", none] ∧
      own.name = some "spare" ∧
      Yields (fun fuel => evaluate fuel full) (before ++ own :: after) ∧
      Yields (fun fuel => evaluate fuel less) (before ++ after) ∧
      elaborate (front ++ [definition] ++ wrong) = .error error ∧
      elaborate (front ++ wrong) = .error error := by
  let span : Span := ⟨0, 0⟩
  let one : Expr := .var span "one"
  let increment : Expr := .the span (.arrow span [.nat span] (.nat span))
    (.lam span [⟨"spare", span⟩] (.add1 span (.var span "spare")))
  let front : List Decl := [.define span "one" (.number span 1)]
  let back : List Decl :=
    [.define span "next" (.app span increment [one]), .eval span (.var span "next")]
  let wrong : List Decl := [.eval span (.app span one [one])]
  let definition : Decl := .define span "spare" (.add1 span one)
  have elaborated : elaborate (front ++ [definition]) = .ok
      [⟨some "one", .nat, .succ .zero, span⟩, ⟨some "spare", .nat, .succ (.var 0), span⟩] := rfl
  have unused : ∀ decl ∈ back, "spare" ∉ decl.names := by decide
  have unusedWrong : ∀ decl ∈ wrong, "spare" ∉ decl.names := by decide
  obtain ⟨_, accepted⟩ := unused_definition_irrelevant elaborated unused
  obtain ⟨refused, _⟩ := unused_definition_irrelevant elaborated unusedWrong
  obtain ⟨before, own, after, named, yields, yields'⟩ := accepted _ _ rfl rfl
  have stopped : elaborate (front ++ [definition] ++ wrong) = .error
      (.body (.mismatch "app" span .function (.type .nat))) := rfl
  exact ⟨front, back, wrong, definition, _, _, before, after, own, _, rfl, rfl, rfl, named, yields,
    yields', stopped, (refused _).mp stopped⟩

end Program

end EtaLong
