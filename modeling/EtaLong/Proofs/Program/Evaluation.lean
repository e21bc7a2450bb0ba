/-
**Entries evaluated in order.**

Entries are evaluated one after another, each in the environment of the definitions before it. A
run of entries has their results and the environment that it reaches; runs follow one another when
the second starts where the first ends. Typed entries have a run, and the environment it reaches
holds one value for each definition, the latest first.

* `Program.TypedFrom`: entries whose terms have their types over the definitions before them;
* `Program.environment`, `Program.evaluateFrom_append`: the environment in which later entries are
  evaluated;
* `Program.Run`: a run of entries;
* `Program.TypedFrom.exists_run`: typed entries have a run;
* `Program.Run.valued`: the values of the definitions, in their places.
-/

import EtaLong.Program
import EtaLong.Proofs.Normalization

namespace EtaLong

namespace Program

/-! ### Entries over the definitions before them -/

/-- The context after an entry, which grows by a definition only. -/
def Entry.extend (ctx : Context) (entry : Entry) : Context :=
  if entry.name.isSome then entry.ty :: ctx else ctx

/-- **Entries whose terms have their types** over the definitions before them. -/
def TypedFrom : Context → List Entry → Prop
  | _, [] => True
  | ctx, entry :: entries =>
    entry.term.HasType ctx entry.ty ∧ TypedFrom (entry.extend ctx) entries

/-- Entries in two rows are typed when the second is typed over the definitions of the first. -/
theorem typedFrom_append {ctx : Context} {front back : List Entry} :
    TypedFrom ctx (front ++ back) ↔
      TypedFrom ctx front ∧ TypedFrom (front.foldl Entry.extend ctx) back := by
  induction front generalizing ctx with
  | nil => simp only [List.nil_append, TypedFrom, true_and, List.foldl_nil]
  | cons entry front ih =>
    rw [List.cons_append, TypedFrom, TypedFrom, ih, and_assoc]
    rfl

/-- The first entries are typed. -/
theorem TypedFrom.take {ctx : Context} {entries : List Entry} (typed : TypedFrom ctx entries)
    (index : Nat) : TypedFrom ctx (entries.take index) := by
  rw [← List.take_append_drop index entries, typedFrom_append] at typed
  exact typed.1

/-- The term of an entry has its type over the entries before it. -/
theorem TypedFrom.getElem? {ctx : Context} {entries : List Entry} {entry : Entry} {index : Nat}
    (typed : TypedFrom ctx entries) (found : entries[index]? = some entry) :
    entry.term.HasType ((entries.take index).foldl Entry.extend ctx) entry.ty := by
  obtain ⟨bound, rfl⟩ := List.getElem?_eq_some_iff.mp found
  rw [← List.take_append_drop index entries, typedFrom_append,
    List.drop_eq_getElem_cons bound] at typed
  exact typed.2.1

/-! ### The environment that entries leave behind -/

/-- The environment after an entry, which grows by the value of a definition only. -/
def Entry.bind (env : Env) (entry : Entry) (value : Value) : Env :=
  if entry.name.isSome then value :: env else env

/-- **The environment after entries**, in which the next one is evaluated. -/
def environment (fuel : Nat) (env : Env) : List Entry → Except Fault Env
  | [] => .ok env
  | entry :: entries => do
    let value ← entry.term.eval fuel env
    environment fuel (entry.bind env value) entries

theorem evaluateFrom_cons (fuel : Nat) (env : Env) (entry : Entry) (entries : List Entry) :
    evaluateFrom fuel env (entry :: entries) = (do
      let value ← entry.term.eval fuel env
      let normal ← readBack fuel [] entry.ty value
      let rest ← evaluateFrom fuel (entry.bind env value) entries
      return ⟨entry.name, entry.ty, normal⟩ :: rest) := rfl

/-- **Entries are evaluated in the environment after those before them.** -/
theorem evaluateFrom_append (fuel : Nat) (env : Env) (front back : List Entry) :
    evaluateFrom fuel env (front ++ back) = (do
      let results ← evaluateFrom fuel env front
      let reached ← environment fuel env front
      let rest ← evaluateFrom fuel reached back
      return results ++ rest) := by
  induction front generalizing env with
  | nil =>
    change evaluateFrom fuel env back = (do return [] ++ (← evaluateFrom fuel env back))
    cases evaluateFrom fuel env back <;> rfl
  | cons entry front ih =>
    rw [List.cons_append, evaluateFrom_cons, evaluateFrom_cons, environment]
    cases entry.term.eval fuel env with
    | error _ => rfl
    | ok value =>
      dsimp only [bind, Except.bind]
      cases readBack fuel [] entry.ty value with
      | error _ => rfl
      | ok normal =>
        dsimp only
        rw [ih (entry.bind env value)]
        cases evaluateFrom fuel (entry.bind env value) front with
        | error _ => rfl
        | ok results =>
          dsimp only [bind, Except.bind, pure, Except.pure]
          cases environment fuel (entry.bind env value) front with
          | error _ => rfl
          | ok reached =>
            dsimp only
            cases evaluateFrom fuel reached back <;> rfl

/-! ### Runs -/

/-- **A run of entries** from an environment: their results, and the environment it reaches. -/
inductive Run : Env → List Entry → List Result → Env → Prop where
  | nil {env : Env} : Run env [] [] env
  | cons {env last : Env} {entry : Entry} {entries : List Entry} {results : List Result}
      {value : Value} {normal : Term} :
      entry.term.Evaluates env value → value.ReadsBack [] entry.ty normal →
      Run (entry.bind env value) entries results last →
      Run env (entry :: entries) (⟨entry.name, entry.ty, normal⟩ :: results) last

namespace Run

variable {env last : Env} {entries : List Entry} {results : List Result}

/-- The results of a run are what the entries evaluate to. -/
theorem yields (run : Run env entries results last) :
    Yields (fun fuel => evaluateFrom fuel env entries) results := by
  induction run with
  | nil => exact Yields.of_forall fun _ => rfl
  | cons evaluates reads _ rest =>
    exact Yields.bind evaluates (Yields.bind reads (Yields.map (List.cons _) rest))

/-- The environment that a run reaches is the one after its entries. -/
theorem environment (run : Run env entries results last) :
    Yields (fun fuel => environment fuel env entries) last := by
  induction run with
  | nil => exact Yields.of_forall fun _ => rfl
  | cons evaluates _ _ rest => exact Yields.bind evaluates rest

/-- A run has one result for each entry, with its name and type. -/
theorem labels (run : Run env entries results last) :
    results.map (fun result => (result.name, result.ty)) =
      entries.map (fun entry => (entry.name, entry.ty)) := by
  induction run with
  | nil => rfl
  | cons _ _ _ ih => exact congrArg (List.cons _) ih

theorem length_eq (run : Run env entries results last) : results.length = entries.length := by
  have counted := congrArg List.length run.labels
  rwa [List.length_map, List.length_map] at counted

/-- Runs follow one another. -/
theorem append {front back : List Entry} {frontResults backResults : List Result} {reached : Env}
    (frontRun : Run env front frontResults reached) (backRun : Run reached back backResults last) :
    Run env (front ++ back) (frontResults ++ backResults) last := by
  induction frontRun with
  | nil => exact backRun
  | cons evaluates reads _ ih => exact .cons evaluates reads (ih backRun)

/-- **A run of a row of entries** is a run of its front, and from there a run of its back. -/
theorem split {front back : List Entry} (run : Run env (front ++ back) results last) :
    ∃ frontResults backResults reached, results = frontResults ++ backResults ∧
      Run env front frontResults reached ∧ Run reached back backResults last := by
  induction front generalizing env results with
  | nil => exact ⟨[], results, env, rfl, .nil, run⟩
  | cons entry front ih =>
    cases run with
    | cons evaluates reads rest =>
      obtain ⟨frontResults, backResults, reached, rfl, frontRun, backRun⟩ := ih rest
      exact ⟨_ :: frontResults, backResults, reached, rfl, .cons evaluates reads frontRun, backRun⟩

end Run

/-- The environment after an entry has the types of the context after it. -/
theorem Entry.bind_typed {ctx : Context} {env : Env} {entry : Entry} {value : Value}
    (envTyped : Env.HasType [] env ctx) (valueTyped : value.HasType [] entry.ty) :
    Env.HasType [] (entry.bind env value) (entry.extend ctx) := by
  unfold Entry.bind Entry.extend
  by_cases named : entry.name.isSome
  · rw [if_pos named, if_pos named]
    exact .cons valueTyped envTyped
  · rw [if_neg named, if_neg named]
    exact envTyped

/-- **Typed entries have a run.** The environment holds one value for each definition in the
context, and both grow together, so each term is evaluated where it has its type. -/
theorem TypedFrom.exists_run {ctx : Context} {env : Env} {entries : List Entry}
    (typed : TypedFrom ctx entries) (envTyped : Env.HasType [] env ctx) :
    ∃ results last, Run env entries results last ∧
      Env.HasType [] last (entries.foldl Entry.extend ctx) ∧
      ∀ result ∈ results, result.normal.infer [] = .ok result.ty := by
  induction entries generalizing ctx env with
  | nil => exact ⟨[], env, .nil, envTyped, fun _ among => nomatch among⟩
  | cons entry entries ih =>
    obtain ⟨value, normal, evaluates, valueTyped, reads, normalTyped⟩ := typed.1.total envTyped
    obtain ⟨results, last, run, lastTyped, resultsTyped⟩ :=
      ih typed.2 (Entry.bind_typed envTyped valueTyped)
    refine ⟨_, last, .cons evaluates reads run, lastTyped, fun result among => ?_⟩
    rcases List.mem_cons.mp among with rfl | later
    · exact normalTyped.infer_eq
    · exact resultsTyped result later

/-! ### The values of definitions -/

/-- The definitions among entries, the latest first. -/
def definitions (entries : List Entry) : List Entry :=
  (entries.filter fun entry => entry.name.isSome).reverse

/-- **An environment with the values of definitions**, the latest first: each is the value of its
term in the environment of the definitions before it. -/
inductive Valued : List Entry → Env → Prop where
  | nil : Valued [] []
  | cons {definition : Entry} {earlier : List Entry} {env : Env} {value : Value} :
      definition.term.Evaluates env value → Valued earlier env →
      Valued (definition :: earlier) (value :: env)

/-- There is one value for each definition. -/
theorem Valued.length_eq {entries : List Entry} {env : Env} (valued : Valued entries env) :
    env.length = entries.length := by
  induction valued with
  | nil => rfl
  | cons _ _ ih => exact congrArg (· + 1) ih

theorem definitions_cons (entry : Entry) (entries : List Entry) :
    definitions (entry :: entries) =
      definitions entries ++ if entry.name.isSome then [entry] else [] := by
  by_cases named : entry.name.isSome <;> simp [definitions, named]

/-- The context after entries lists the types of the definitions among them. -/
theorem foldl_extend (ctx : Context) (entries : List Entry) :
    entries.foldl Entry.extend ctx = (definitions entries).map Entry.ty ++ ctx := by
  induction entries generalizing ctx with
  | nil => rfl
  | cons entry entries ih =>
    rw [List.foldl_cons, ih, definitions_cons, Entry.extend]
    by_cases named : entry.name.isSome
    · rw [if_pos named, if_pos named, List.map_append, List.append_assoc]
      rfl
    · rw [if_neg named, if_neg named, List.append_nil]

/-- **A run reaches the environment with the values of its definitions**, in front of those that
were there. -/
theorem Run.valued {env last : Env} {entries earlier : List Entry} {results : List Result}
    (run : Run env entries results last) (valued : Valued earlier env) :
    Valued (definitions entries ++ earlier) last := by
  induction run generalizing earlier with
  | nil => exact valued
  | @cons env last entry entries results value normal evaluates _ _ ih =>
    rw [definitions_cons, List.append_assoc]
    refine ih ?_
    unfold Entry.bind
    by_cases named : entry.name.isSome
    · rw [if_pos named, if_pos named]
      exact .cons evaluates valued
    · rw [if_neg named, if_neg named]
      exact valued

end Program

end EtaLong
