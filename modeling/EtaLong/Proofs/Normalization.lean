/-
**Normal forms.**

Normalising evaluates a term where every variable stands for itself and reads the value back at
the type of the term. On terms that have a type this always ends; the normal form has the same
type and is convertible to the term, and convertible terms have one normal form. So normal forms
decide conversion.

* `normalization_total`: typed evaluation and reading back end, with results of the same type;
* `normalize_complete`: convertible terms have one normal form;
* `normalize_sound`: a term is convertible to its normal form.
-/

import EtaLong.Proofs.Value.Typing

namespace EtaLong

open Term (Convertible)

/-! ### Every variable stands for itself -/

theorem Env.getElem?_identity {length index : Nat} (inside : index < length) :
    (Env.identity length)[index]? = some (.ofIndex index) := by
  unfold Env.identity
  rw [List.getElem?_map, List.getElem?_range inside, Option.map_some]

/-- The environment that a term is normalised in realizes the variables of its context. -/
theorem Env.Realize.identity (ctx : Context) :
    Env.Realize ctx ctx .var (Env.identity ctx.length) (Env.identity ctx.length) := by
  intro index ty found
  obtain ⟨inside, _⟩ := List.getElem?_eq_some_iff.mp found
  have bound := Env.getElem?_identity inside
  exact ⟨_, _, bound, bound, Neutral.Realize.reflect (.var found)⟩

/-! ### Results of normalising -/

/-- **A term has a normal form and a type** in a context. -/
def Term.NormalizesTo (ctx : Context) (term normal : Term) (ty : Ty) : Prop :=
  Yields (fun fuel => term.normalize fuel ctx) (normal, ty)

namespace Term.NormalizesTo

variable {ctx : Context} {ty : Ty} {term normal other : Term}

/-- A typed term whose value reads back. -/
theorem of_reads {value : Value} (typed : term.HasType ctx ty)
    (evaluates : term.Evaluates (Env.identity ctx.length) value)
    (reads : value.ReadsBack ctx ty normal) : term.NormalizesTo ctx normal ty := by
  have inferred : Yields (fun _ => (term.infer ctx).mapError NormalizeError.illTyped) ty :=
    Yields.of_forall fun _ => mapError_eq_ok.mpr typed.infer_eq
  exact inferred.bind ((evaluates.mapError NormalizeError.fault).bind
    ((reads.mapError NormalizeError.fault).map (·, ty)))

/-- Only a term of the type has a normal form at it. -/
theorem typed (normalizes : term.NormalizesTo ctx normal ty) : term.HasType ctx ty := by
  obtain ⟨fuel, run⟩ := normalizes.exists_run
  obtain ⟨inferred, inferRun, run⟩ := bind_eq_ok.mp run
  obtain ⟨value, _, run⟩ := bind_eq_ok.mp run
  obtain ⟨read, _, done⟩ := bind_eq_ok.mp run
  cases done
  exact .of_infer_eq (mapError_eq_ok.mp inferRun)

/-- A term has one normal form. -/
theorem unique {otherTy : Ty} (first : term.NormalizesTo ctx normal ty)
    (second : term.NormalizesTo ctx other otherTy) : normal = other ∧ ty = otherTy :=
  Prod.mk.inj (Yields.unique first second)

end Term.NormalizesTo

/-- **Convertible terms have one normal form, and are convertible to it.** Their values realize
the first of them, so both read back to one term. -/
theorem Term.Convertible.normalizesTo {ctx : Context} {ty : Ty} {left right : Term}
    (conv : Convertible ctx ty left right) :
    ∃ normal, left.NormalizesTo ctx normal ty ∧ right.NormalizesTo ctx normal ty ∧
      Convertible ctx ty normal left := by
  obtain ⟨leftValue, rightValue, leftEval, rightEval, real⟩ := conv.meet (.identity ctx)
  obtain ⟨normal, leftReads, rightReads, readConv⟩ := real.reify
  rw [Term.subst_var] at readConv
  exact ⟨normal, .of_reads conv.typed.1 leftEval leftReads,
    .of_reads conv.typed.2 rightEval rightReads, readConv⟩

/-- A normal form is convertible to the term that it is the normal form of. -/
theorem Term.NormalizesTo.convertible {ctx : Context} {ty : Ty} {term normal : Term}
    (normalizes : term.NormalizesTo ctx normal ty) : Convertible ctx ty normal term := by
  obtain ⟨other, otherNormalizes, _, conv⟩ := (Convertible.refl normalizes.typed).normalizesTo
  obtain ⟨rfl, _⟩ := otherNormalizes.unique normalizes
  exact conv

/-- What has no type is refused with the error of inference, without being evaluated. -/
theorem Term.normalize_of_infer_error {ctx : Context} {term : Term} {error : Typing.Error}
    (refused : term.infer ctx = .error error) (fuel : Nat) :
    term.normalize fuel ctx = .error (.illTyped error) := by
  rw [Term.normalize, refused]
  rfl

/-! ### Totality -/

/-- A typed term evaluates in a typed environment to a value of its type that reads back. -/
theorem Term.HasType.total {ctx entries : Context} {env : Env} {term : Term} {ty : Ty}
    (typed : term.HasType entries ty) (envTyped : Env.HasType ctx env entries) :
    ∃ value normal, term.Evaluates env value ∧ value.HasType ctx ty ∧
      value.ReadsBack ctx ty normal ∧ normal.HasType ctx ty := by
  obtain ⟨values, envs⟩ := envTyped.realized
  obtain ⟨value, _, evaluates, _, real⟩ := typed.meet envs
  obtain ⟨normal, reads, _, conv⟩ := real.reify
  exact ⟨value, normal, evaluates, typed.evaluates envTyped evaluates, reads, conv.typed.1⟩

/-- **Normalisation by evaluation is total and keeps types.** In an environment whose values have
the types of a context, every term of a type evaluates to a value of that type, which reads back
to a term of that type; every neutral of a type reads back to a term of it. A term is normalised
exactly when it has a type, and its normal form has that type. -/
theorem normalization_total :
    (∀ (ctx entries : Context) (env : Env) (term : Term) (ty : Ty),
      Env.HasType ctx env entries → term.infer entries = .ok ty →
      ∃ value normal, term.Evaluates env value ∧ value.HasType ctx ty ∧
        value.ReadsBack ctx ty normal ∧ normal.infer ctx = .ok ty) ∧
    (∀ (ctx : Context) (neutral : Neutral) (ty : Ty), neutral.HasType ctx ty →
      ∃ term, neutral.ReadsBack ctx term ty ∧ term.infer ctx = .ok ty) ∧
    (∀ (ctx : Context) (term : Term),
      (∀ ty, term.infer ctx = .ok ty →
        ∃ normal, term.NormalizesTo ctx normal ty ∧ normal.infer ctx = .ok ty) ∧
      (∀ error, term.infer ctx = .error error →
        ∀ fuel, term.normalize fuel ctx = .error (.illTyped error))) := by
  refine ⟨?_, ?_, ?_⟩
  · intro ctx entries env term ty envTyped inferred
    obtain ⟨value, normal, evaluates, valueTyped, reads, normalTyped⟩ :=
      (Term.HasType.of_infer_eq inferred).total envTyped
    exact ⟨value, normal, evaluates, valueTyped, reads, normalTyped.infer_eq⟩
  · intro ctx neutral ty neutralTyped
    obtain ⟨term, real⟩ := neutralTyped.realized
    obtain ⟨read, reads, _, conv⟩ := real.here
    exact ⟨read, reads, conv.typed.1.infer_eq⟩
  · intro ctx term
    refine ⟨fun ty inferred => ?_, fun error => Term.normalize_of_infer_error⟩
    obtain ⟨normal, normalizes, _, conv⟩ :=
      (Convertible.refl (Term.HasType.of_infer_eq inferred)).normalizesTo
    exact ⟨normal, normalizes, conv.typed.1.infer_eq⟩

/-- Recursion over a variable, with a step that applies a closure over that variable. -/
theorem normalization_total_at_stuck_recursion :
    ∃ value normal,
      (Term.recNat .nat (.var 1) .zero (.lam .nat (.lam .nat (.app (.var 2) (.var 0))))).Evaluates
        [.closure [.ofIndex 0] (.succ (.var 1)), .ofIndex 0] value ∧
      value.HasType [.nat] .nat ∧ value.ReadsBack [.nat] .nat normal ∧
      normal.infer [.nat] = .ok .nat := by
  have closureTyped : (Value.closure [.ofIndex 0] (.succ (.var 1))).HasType [.nat]
      (.fn .nat .nat) := .closure (.cons (.stuck (.var rfl)) .nil) (.succ (.var rfl))
  exact normalization_total.1 [.nat] [.fn .nat .nat, .nat] _ _ .nat
    (.cons closureTyped (.cons (.stuck (.var rfl)) .nil)) rfl

/-! ### Conversion decided -/

/-- **Convertible terms have one normal form.** -/
theorem normalize_complete {ctx : Context} {ty : Ty} {left right : Term}
    (conv : Convertible ctx ty left right) :
    left.infer ctx = .ok ty ∧ right.infer ctx = .ok ty ∧
      ∃ normal, left.NormalizesTo ctx normal ty ∧ right.NormalizesTo ctx normal ty := by
  obtain ⟨normal, leftNormalizes, rightNormalizes, _⟩ := conv.normalizesTo
  exact ⟨conv.typed.1.infer_eq, conv.typed.2.infer_eq, normal, leftNormalizes, rightNormalizes⟩

/-- A list cell with a function variable for its head, and with the expansion of the variable. -/
theorem normalize_complete_at_hidden_eta :
    ∃ normal,
      (Term.cons (.var 0) (.nil (.fn .nat .nat))).NormalizesTo [.fn .nat .nat] normal
        (.list (.fn .nat .nat)) ∧
      (Term.cons (.lam .nat (.app (.var 1) (.var 0))) (.nil (.fn .nat .nat))).NormalizesTo
        [.fn .nat .nat] normal (.list (.fn .nat .nat)) := by
  have typed : (Term.var 0).HasType [.fn .nat .nat] (.fn .nat .nat) := .var rfl
  have expanded := Convertible.cons (.eta typed) (.refl .nil)
  exact (normalize_complete expanded).2.2

/-- **A term of a type has a normal form that it is convertible to**, and terms with one normal
form are convertible. -/
theorem normalize_sound :
    (∀ (ctx : Context) (ty : Ty) (term : Term), term.infer ctx = .ok ty →
      ∃ normal, term.NormalizesTo ctx normal ty ∧ Convertible ctx ty normal term) ∧
    (∀ (ctx : Context) (ty : Ty) (left right normal : Term),
      left.NormalizesTo ctx normal ty → right.NormalizesTo ctx normal ty →
      Convertible ctx ty left right) := by
  constructor
  · intro ctx ty term inferred
    obtain ⟨normal, normalizes, _, conv⟩ :=
      (Convertible.refl (Term.HasType.of_infer_eq inferred)).normalizesTo
    exact ⟨normal, normalizes, conv⟩
  · intro ctx ty left right normal leftNormalizes rightNormalizes
    exact leftNormalizes.convertible.symm.trans rightNormalizes.convertible

/-- A variable and the variable with a remark on its type have one normal form. -/
theorem normalize_sound_at_remark :
    Convertible [.nat] .nat (.var 0) (.ann .nat (.var 0)) := by
  have typed : (Term.var 0).HasType [.nat] .nat := .var rfl
  have evaluates : (Term.var 0).Evaluates (Env.identity 1) (.ofIndex 0) := .var rfl
  have reads : (Value.ofIndex 0).ReadsBack [.nat] .nat (.var 0) := .stuck rfl (.var rfl)
  exact normalize_sound.2 [.nat] .nat _ _ (.var 0) (.of_reads typed evaluates reads)
    (.of_reads (.ann typed) (evaluates.ann .nat) reads)

end EtaLong
