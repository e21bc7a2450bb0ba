/-
**Coherence of programs.**

A declaration is accepted when it does not clash with one before it: a name is claimed at most
once and before it is defined, and defined at most once. A definition is elaborated under the
demand that its claim makes. So after any number of declarations the claims, the scope and the
entries tell the same story, and the entries are evaluated where each definition in scope has its
value in its place.

* `Progress.Accepts`: what is accepted, and the progress after it;
* `Progress.Follows`: the invariant that ties progress to the declarations so far;
* `Progress.Follows.step`, `Progress.Follows.steps`: one declaration, and all of them;
* `Program.elaborate_coherent`: what holds of every program that is elaborated.
-/

import EtaLong.Proofs.Program
import Mathlib.Data.List.Nodup

namespace EtaLong

/-! ### Declarations -/

namespace Decl

/-- **Two declarations clash** when the second claims what was claimed or defined, or defines what
was defined. -/
inductive Clash : Decl → Decl → Prop where
  | claimedTwice {span span' : Span} {name : String} {ty ty' : TypeExpr} :
      Clash (.claim span name ty) (.claim span' name ty')
  | claimedLate {span span' : Span} {name : String} {body : Expr} {ty : TypeExpr} :
      Clash (.define span name body) (.claim span' name ty)
  | definedTwice {span span' : Span} {name : String} {body body' : Expr} :
      Clash (.define span name body) (.define span' name body')

/-- What an entry keeps of its declaration: the name it defines and its place. -/
def heading? : Decl → Option (Option String × Span)
  | claim _ _ _ => none
  | define span name _ => some (some name, span)
  | eval span _ => some (none, span)

end Decl

/-- A name is not found exactly when it is none of the names in scope. -/
theorem Scope.find?_eq_none_iff {scope : Scope} {name : String} :
    scope.find? name = none ↔ name ∉ scope.names := by
  induction scope with
  | nil => simp [Scope.find?, Scope.names]
  | cons entry scope ih =>
    obtain ⟨other, ty⟩ := entry
    rw [Scope.find?]
    by_cases same : other = name
    · simp [Scope.names, same]
    · rw [if_neg same, Option.map_eq_none_iff, ih]
      simp [Scope.names, Ne.symm same]

namespace Program

/-- What an entry keeps of its declaration. -/
def Entry.heading (entry : Entry) : Option String × Span := (entry.name, entry.span)

/-! ### One declaration -/

namespace Progress

/-- What is asked of the body of a definition: the claimed type, if there is one. -/
def demand (progress : Progress) (name : String) : Elaboration.Demand :=
  match progress.claims.lookup name with
  | some ty => .exactly ty "define"
  | none => .any

/-- **A declaration is accepted**, with the progress after it. -/
inductive Accepts (progress : Progress) : Decl → Progress → Prop where
  | claim {span : Span} {name : String} {ty : TypeExpr} :
      progress.claims.lookup name = none → progress.scope.find? name = none →
      Accepts progress (.claim span name ty)
        { progress with claims := (name, ty.toTy) :: progress.claims }
  | define {span : Span} {name : String} {body : Expr} {term : Term} {ty : Ty} :
      progress.scope.find? name = none →
      body.elaborate progress.scope (progress.demand name) = .ok (term, ty) →
      Accepts progress (.define span name body) (progress.define span name term ty)
  | eval {span : Span} {body : Expr} {term : Term} {ty : Ty} :
      body.elaborate progress.scope .any = .ok (term, ty) →
      Accepts progress (.eval span body)
        { progress with entries := ⟨none, ty, term, span⟩ :: progress.entries }

variable {progress next last : Progress} {decl : Decl} {decls past : List Decl}

/-- A step that succeeds accepts its declaration. -/
theorem accepts_of_step (run : progress.step decl = .ok next) : progress.Accepts decl next := by
  cases decl with
  | claim span name ty =>
    rw [step] at run
    by_cases claimed : (progress.claims.lookup name).isSome
    · rw [if_pos claimed] at run
      cases run
    rw [if_neg claimed] at run
    by_cases defined : (progress.scope.find? name).isSome
    · rw [if_pos defined] at run
      cases run
    rw [if_neg defined] at run
    cases run
    exact .claim (Option.not_isSome_iff_eq_none.mp claimed) (Option.not_isSome_iff_eq_none.mp defined)
  | define span name body =>
    rw [step] at run
    by_cases defined : (progress.scope.find? name).isSome
    · rw [if_pos defined] at run
      cases run
    rw [if_neg defined] at run
    have fresh := Option.not_isSome_iff_eq_none.mp defined
    -- A claim makes the body be checked at its type; without one the type is found.
    cases claimed : progress.claims.lookup name with
    | some ty =>
      rw [claimed] at run
      obtain ⟨term, checked, done⟩ := bind_eq_ok.mp run
      cases done
      refine .define fresh ?_
      rw [demand, claimed]
      exact Expr.check_eq_ok (mapError_eq_ok.mp checked)
    | none =>
      rw [claimed] at run
      obtain ⟨⟨term, ty⟩, inferred, done⟩ := bind_eq_ok.mp run
      cases done
      refine .define fresh ?_
      rw [demand, claimed]
      exact mapError_eq_ok.mp inferred
  | eval span body =>
    obtain ⟨⟨term, ty⟩, inferred, done⟩ := bind_eq_ok.mp run
    cases done
    exact .eval (mapError_eq_ok.mp inferred)

/-- The claimed type is the type of the definition that was elaborated under its demand. -/
theorem demand_allows {name : String} {ty claimed : Ty} (allowed : (progress.demand name).Allows ty)
    (found : progress.claims.lookup name = some claimed) : ty = claimed := by
  rw [demand, found] at allowed
  exact allowed

/-- **Progress follows declarations** when it has what they claim and define, and they do not
clash. -/
structure Follows (progress : Progress) (past : List Decl) : Prop where
  typed : progress.Typed
  headings : progress.accepted.map Entry.heading = past.filterMap Decl.heading?
  names : progress.scope.names = progress.entries.filterMap Entry.name
  distinct : progress.scope.names.Nodup
  claims : ∀ {span name ty}, .claim span name ty ∈ past →
    progress.claims.lookup name = some ty.toTy
  claimed : ∀ entry ∈ progress.entries, ∀ name ty, entry.name = some name →
    progress.claims.lookup name = some ty → entry.ty = ty
  ordered : past.Pairwise fun earlier later => ¬ earlier.Clash later

namespace Follows

theorem start : Follows {} [] where
  typed := .start
  headings := rfl
  names := rfl
  distinct := List.nodup_nil
  claims := fun among => nomatch among
  claimed := fun _ among => nomatch among
  ordered := .nil

/-- What was defined is in scope. -/
theorem mem_names (follows : progress.Follows past) {span : Span} {name : String} {body : Expr}
    (among : .define span name body ∈ past) : name ∈ progress.scope.names := by
  have heading : (some name, span) ∈ past.filterMap Decl.heading? :=
    List.mem_filterMap.mpr ⟨_, among, rfl⟩
  rw [← follows.headings] at heading
  obtain ⟨entry, accepted, same⟩ := List.mem_map.mp heading
  rw [follows.names]
  exact List.mem_filterMap.mpr ⟨entry, List.mem_reverse.mp accepted, congrArg Prod.fst same⟩

/-- One more declaration that clashes with none before it. -/
theorem ordered_append (follows : progress.Follows past)
    (fits : ∀ earlier ∈ past, ¬ earlier.Clash decl) :
    (past ++ [decl]).Pairwise fun earlier later => ¬ earlier.Clash later := by
  refine List.pairwise_append.mpr ⟨follows.ordered, List.pairwise_singleton _ _, ?_⟩
  intro earlier among later last
  rw [List.mem_singleton.mp last]
  exact fits earlier among

/-- A claim that is accepted. -/
theorem claim (follows : progress.Follows past) {span : Span} {name : String} {ty : TypeExpr}
    (unclaimed : progress.claims.lookup name = none)
    (undefined : progress.scope.find? name = none) :
    Follows { progress with claims := (name, ty.toTy) :: progress.claims }
      (past ++ [.claim span name ty]) where
  typed := ⟨follows.typed.entries, follows.typed.scope⟩
  headings := by
    rw [List.filterMap_append]
    exact follows.headings.trans (List.append_nil _).symm
  names := follows.names
  distinct := follows.distinct
  claims := by
    intro _ other _ among
    rcases List.mem_append.mp among with before | here
    · have found := follows.claims before
      have different : other ≠ name := by
        rintro rfl
        rw [unclaimed] at found
        cases found
      rw [List.lookup_cons, beq_false_of_ne different]
      exact found
    · cases List.mem_singleton.mp here
      exact List.lookup_cons_self
  claimed := by
    intro entry among other ty' named found
    -- The new claim speaks of no entry so far: one of its name would have that name in scope.
    have different : other ≠ name := by
      rintro rfl
      refine Scope.find?_eq_none_iff.mp undefined ?_
      rw [follows.names]
      exact List.mem_filterMap.mpr ⟨entry, among, named⟩
    rw [List.lookup_cons, beq_false_of_ne different] at found
    exact follows.claimed entry among other ty' named found
  ordered := by
    refine follows.ordered_append fun earlier among clash => ?_
    cases clash with
    | claimedTwice =>
      rw [follows.claims among] at unclaimed
      cases unclaimed
    | claimedLate => exact Scope.find?_eq_none_iff.mp undefined (follows.mem_names among)

/-- A definition that is accepted. -/
theorem define (follows : progress.Follows past) {span : Span} {name : String} {body : Expr}
    {term : Term} {ty : Ty} (undefined : progress.scope.find? name = none)
    (run : body.elaborate progress.scope (progress.demand name) = .ok (term, ty)) :
    (progress.define span name term ty).Follows (past ++ [.define span name body]) where
  typed := follows.typed.push (Expr.typed_of_elaborate run).1 rfl rfl
  headings := by
    unfold accepted
    rw [Progress.define, List.reverse_cons, List.map_append, List.filterMap_append]
    exact congrArg (· ++ [(some name, span)]) follows.headings
  names := congrArg (name :: ·) follows.names
  distinct := List.nodup_cons.mpr ⟨Scope.find?_eq_none_iff.mp undefined, follows.distinct⟩
  claims := by
    intro _ _ _ among
    rcases List.mem_append.mp among with before | here
    · exact follows.claims before
    · cases List.mem_singleton.mp here
  claimed := by
    intro entry among other ty' named found
    rcases List.mem_cons.mp among with rfl | before
    · cases named
      exact demand_allows (Expr.typed_of_elaborate run).2 found
    · exact follows.claimed entry before other ty' named found
  ordered := by
    refine follows.ordered_append fun earlier among clash => ?_
    cases clash with
    | definedTwice => exact Scope.find?_eq_none_iff.mp undefined (follows.mem_names among)

/-- A bare expression that is accepted. -/
theorem eval (follows : progress.Follows past) {span : Span} {body : Expr} {term : Term} {ty : Ty}
    (run : body.elaborate progress.scope .any = .ok (term, ty)) :
    Follows { progress with entries := ⟨none, ty, term, span⟩ :: progress.entries }
      (past ++ [.eval span body]) where
  typed := follows.typed.push (Expr.typed_of_elaborate run).1 rfl rfl
  headings := by
    unfold accepted
    rw [List.reverse_cons, List.map_append, List.filterMap_append]
    exact congrArg (· ++ [(none, span)]) follows.headings
  names := follows.names
  distinct := follows.distinct
  claims := by
    intro _ _ _ among
    rcases List.mem_append.mp among with before | here
    · exact follows.claims before
    · cases List.mem_singleton.mp here
  claimed := by
    intro entry among other ty' named found
    rcases List.mem_cons.mp among with rfl | before
    · cases named
    · exact follows.claimed entry before other ty' named found
  ordered := follows.ordered_append fun _ _ clash => nomatch clash

/-- **One declaration** that is accepted. -/
theorem step (follows : progress.Follows past) (accepts : progress.Accepts decl next) :
    next.Follows (past ++ [decl]) := by
  cases accepts with
  | claim unclaimed undefined => exact follows.claim unclaimed undefined
  | define undefined run => exact follows.define undefined run
  | eval run => exact follows.eval run

/-- **All declarations**, when each is accepted. -/
theorem steps (follows : progress.Follows past) (run : progress.steps decls = (last, none)) :
    last.Follows (past ++ decls) := by
  induction decls generalizing progress past with
  | nil =>
    cases run
    rw [List.append_nil]
    exact follows
  | cons decl decls ih =>
    rw [Progress.steps] at run
    cases stepped : progress.step decl with
    | error error =>
      rw [stepped] at run
      cases run
    | ok next =>
      rw [stepped] at run
      rw [List.append_cons]
      exact ih (follows.step (accepts_of_step stepped)) run

end Follows

end Progress

/-- The entries of a program are those of the progress that follows its declarations. -/
theorem follows_of_elaborate {decls : List Decl} {entries : List Entry}
    (elaborated : elaborate decls = .ok entries) :
    ∃ last : Progress, last.Follows decls ∧ last.accepted = entries := by
  obtain ⟨last, ended, accepted⟩ := elaborate_eq_ok.mp elaborated
  exact ⟨last, Progress.Follows.start.steps ended, accepted⟩

/-! ### Whole programs -/

/-- **Entries that cohere with declarations.** -/
structure Coherent (decls : List Decl) (entries : List Entry) : Prop where
  /-- There is an entry for each definition and each bare expression, in their order. -/
  headings : entries.map Entry.heading = decls.filterMap Decl.heading?
  /-- Each term has its type over the definitions before it, the latest first. -/
  typed : ∀ (index : Nat) (entry : Entry), entries[index]? = some entry →
    entry.term.infer ((definitions (entries.take index)).map Entry.ty) = .ok entry.ty
  /-- No name is defined twice. -/
  distinct : (entries.filterMap Entry.name).Nodup
  /-- A definition has the type that its name was claimed at. -/
  claimed : ∀ (span : Span) (name : String) (ty : TypeExpr), .claim span name ty ∈ decls →
    ∀ entry ∈ entries, entry.name = some name → entry.ty = ty.toTy
  /-- No name is claimed twice. -/
  claimedOnce : ∀ (first second : Nat) (span span' : Span) (name : String) (ty ty' : TypeExpr),
    decls[first]? = some (.claim span name ty) → decls[second]? = some (.claim span' name ty') →
    first = second
  /-- A claim stands before the definition of its name. -/
  claimedBefore : ∀ (first second : Nat) (span span' : Span) (name : String) (ty : TypeExpr)
      (body : Expr),
    decls[first]? = some (.claim span name ty) → decls[second]? = some (.define span' name body) →
    first < second
  /-- Where an entry is evaluated there is one value for each definition before it, in the place of
  its type. -/
  environments : ∀ index : Nat,
    (∀ fuel, evaluate fuel entries = do
      let results ← evaluate fuel (entries.take index)
      let reached ← environment fuel [] (entries.take index)
      let rest ← evaluateFrom fuel reached (entries.drop index)
      return results ++ rest) ∧
    ∃ env, Yields (fun fuel => environment fuel [] (entries.take index)) env ∧
      Valued (definitions (entries.take index)) env ∧
      env.length = (definitions (entries.take index)).length ∧
      Env.HasType [] env ((definitions (entries.take index)).map Entry.ty)

/-- Declarations that stand one before the other do not clash. -/
theorem not_clash {decls : List Decl} {first second : Nat} {earlier later : Decl}
    (ordered : decls.Pairwise fun earlier later => ¬ earlier.Clash later) (before : first < second)
    (foundEarlier : decls[first]? = some earlier) (foundLater : decls[second]? = some later) :
    ¬ earlier.Clash later := by
  obtain ⟨firstBound, rfl⟩ := List.getElem?_eq_some_iff.mp foundEarlier
  obtain ⟨secondBound, rfl⟩ := List.getElem?_eq_some_iff.mp foundLater
  exact List.pairwise_iff_getElem.mp ordered first second firstBound secondBound before

/-- **Programs cohere**: what was claimed and defined, the terms and types of the entries, and the
environments in which the entries are evaluated all go together. -/
theorem elaborate_coherent {decls : List Decl} {entries : List Entry}
    (elaborated : elaborate decls = .ok entries) : Coherent decls entries := by
  obtain ⟨last, follows, rfl⟩ := follows_of_elaborate elaborated
  have typed := follows.typed.entries
  refine ⟨follows.headings, ?_, ?_, ?_, ?_, ?_, ?_⟩
  · intro index entry found
    have entryTyped := typed.getElem? found
    rw [foldl_extend, List.append_nil] at entryTyped
    exact entryTyped.infer_eq
  · have reversed := List.nodup_reverse.mpr follows.distinct
    rw [follows.names, ← List.filterMap_reverse] at reversed
    exact reversed
  · intro span name ty among entry accepted named
    exact follows.claimed entry (List.mem_reverse.mp accepted) name _ named (follows.claims among)
  · intro first second _ _ _ _ _ foundFirst foundSecond
    rcases Nat.lt_trichotomy first second with before | same | after
    · exact absurd .claimedTwice (not_clash follows.ordered before foundFirst foundSecond)
    · exact same
    · exact absurd .claimedTwice (not_clash follows.ordered after foundSecond foundFirst)
  · intro first second _ _ _ _ _ foundClaim foundDefinition
    rcases Nat.lt_trichotomy first second with before | same | after
    · exact before
    · rw [same, foundDefinition] at foundClaim
      cases foundClaim
    · exact absurd .claimedLate (not_clash follows.ordered after foundDefinition foundClaim)
  · intro index
    refine ⟨fun fuel => ?_, ?_⟩
    · have split := evaluateFrom_append fuel [] (last.accepted.take index) (last.accepted.drop index)
      rw [List.take_append_drop] at split
      exact split
    · obtain ⟨_, env, run, envTyped, _⟩ := (typed.take index).exists_run .nil
      have valued := run.valued .nil
      rw [foldl_extend, List.append_nil] at envTyped
      rw [List.append_nil] at valued
      exact ⟨env, run.environment, valued, valued.length_eq, envTyped⟩

/-- Two claims, the definition of a function, which has no type to be found but is checked at its
claim, a bare expression that uses it, and the definition of the other name. -/
theorem elaborate_coherent_at_claims_in_advance :
    ∃ (decls : List Decl) (entries : List Entry), elaborate decls = .ok entries ∧
      decls.length = 5 ∧
      entries.map Entry.name = [some "increment", none, some "two"] ∧
      entries.map Entry.ty = [.fn .nat .nat, .nat, .nat] ∧ Coherent decls entries := by
  let span : Span := ⟨0, 0⟩
  let applied : Expr := .app span (.var span "increment") [.number span 1]
  let decls : List Decl :=
    [.claim span "two" (.nat span),
      .claim span "increment" (.arrow span [.nat span] (.nat span)),
      .define span "increment" (.lam span [⟨"n", span⟩] (.add1 span (.var span "n"))),
      .eval span applied,
      .define span "two" applied]
  have elaborated : elaborate decls = .ok
      [⟨some "increment", .fn .nat .nat, .lam .nat (.succ (.var 0)), span⟩,
        ⟨none, .nat, .app (.var 0) (.succ .zero), span⟩,
        ⟨some "two", .nat, .app (.var 0) (.succ .zero), span⟩] := rfl
  exact ⟨decls, _, elaborated, rfl, rfl, rfl, elaborate_coherent elaborated⟩

end Program

end EtaLong
