/-
**Outcomes.**

A computation either fails or ends with a result, and one that runs on fuel may also run out of
it. What such a computation does without a bound is what it does for all fuel from some amount on.

* `bind_eq_ok`, `mapM_cons_eq_ok`: a sequence or a row succeeds when all of its parts do;
* `exists_of_mapM_eq_error`, `exists_of_mem_mapM`: the item that an error or a result comes from;
* `FailsOnly`, `EndsOnly`: what a computation may fail with, and what it may end with;
* `bimap`, `bimap_bind`: an outcome with its result and its error changed;
* `Yields`: a computation ends with a result once it has enough fuel;
* `Yields.bind`, `Yields.of_succ`: results of parts give the result of the whole;
* `Yields.iff_of_endsOnly`: a computation that yields all that it may end with.
-/

namespace EtaLong

section Sequence

variable {ε α β : Type}

/-- **A sequence succeeds** when its first part does and the rest does after it. -/
theorem bind_eq_ok {first : Except ε α} {rest : α → Except ε β} {result : β} :
    first >>= rest = .ok result ↔ ∃ value, first = .ok value ∧ rest value = .ok result := by
  cases first with
  | error _ => simp [bind, Except.bind]
  | ok value => simp [bind, Except.bind]

/-- Renaming errors leaves results alone. -/
theorem mapError_eq_ok {δ : Type} {change : ε → δ} {run : Except ε α} {result : α} :
    run.mapError change = .ok result ↔ run = .ok result := by
  constructor
  · intro renamed
    cases run with
    | error _ => cases renamed
    | ok value =>
      cases renamed
      rfl
  · rintro rfl
    rfl

/-- A row fails at one of its items. -/
theorem exists_of_mapM_eq_error {act : α → Except ε β} {items : List α} {error : ε}
    (failed : items.mapM act = .error error) : ∃ item ∈ items, act item = .error error := by
  induction items with
  | nil => cases failed
  | cons item items ih =>
    rw [List.mapM_cons] at failed
    cases first : act item with
    | error found =>
      rw [first] at failed
      cases failed
      exact ⟨item, List.mem_cons_self, first⟩
    | ok value =>
      rw [first] at failed
      cases rest : items.mapM act with
      | error found =>
        rw [rest] at failed
        cases failed
        obtain ⟨other, among, refused⟩ := ih rest
        exact ⟨other, .tail item among, refused⟩
      | ok values =>
        rw [rest] at failed
        cases failed

/-- A row succeeds when its first item does and the rest of it does. -/
theorem mapM_cons_eq_ok {act : α → Except ε β} {item : α} {items : List α} {results : List β} :
    (item :: items).mapM act = .ok results ↔
      ∃ result rest, results = result :: rest ∧ act item = .ok result ∧
        items.mapM act = .ok rest := by
  rw [List.mapM_cons]
  constructor
  · intro done
    obtain ⟨result, first, later⟩ := bind_eq_ok.mp done
    obtain ⟨rest, others, made⟩ := bind_eq_ok.mp later
    cases made
    exact ⟨result, rest, rfl, first, others⟩
  · rintro ⟨result, rest, rfl, first, others⟩
    rw [first, others]
    rfl

/-- Each result of a row comes from one of its items. -/
theorem exists_of_mem_mapM {act : α → Except ε β} {items : List α} {results : List β} {result : β}
    (done : items.mapM act = .ok results) (among : result ∈ results) :
    ∃ item ∈ items, act item = .ok result := by
  induction items generalizing results with
  | nil =>
    cases done
    cases among
  | cons item items ih =>
    obtain ⟨first, rest, rfl, acted, others⟩ := mapM_cons_eq_ok.mp done
    rcases List.mem_cons.mp among with rfl | later
    · exact ⟨item, List.mem_cons_self, acted⟩
    · obtain ⟨other, otherAmong, found⟩ := ih others later
      exact ⟨other, .tail item otherAmong, found⟩

/-- **What a computation may fail with.** -/
def FailsOnly (allowed : ε → Prop) (run : Except ε α) : Prop :=
  ∀ error, run = .error error → allowed error

namespace FailsOnly

variable {allowed : ε → Prop} {run : Except ε α}

theorem ok (value : α) : FailsOnly allowed (.ok value : Except ε α) := fun _ failed => nomatch failed

theorem error {found : ε} (may : allowed found) : FailsOnly allowed (.error found : Except ε α) := by
  intro _ failed
  cases failed
  exact may

theorem bind {rest : α → Except ε β} (first : FailsOnly allowed run)
    (after : ∀ value, FailsOnly allowed (rest value)) : FailsOnly allowed (run >>= rest) := by
  cases run with
  | ok value => exact after value
  | error found => exact .error (first found rfl)

theorem mapM {act : β → Except ε α} {items : List β}
    (each : ∀ item ∈ items, FailsOnly allowed (act item)) : FailsOnly allowed (items.mapM act) := by
  intro found failed
  obtain ⟨item, among, refused⟩ := exists_of_mapM_eq_error failed
  exact each item among found refused

theorem mono {wider : ε → Prop} (only : FailsOnly allowed run)
    (implies : ∀ found, allowed found → wider found) : FailsOnly wider run :=
  fun found failed => implies found (only found failed)

end FailsOnly

/-- **What a computation may end with.** -/
def EndsOnly (allowed : α → Prop) (run : Except ε α) : Prop :=
  ∀ result, run = .ok result → allowed result

namespace EndsOnly

variable {allowed : α → Prop} {run : Except ε α}

theorem ok {value : α} (may : allowed value) : EndsOnly allowed (.ok value : Except ε α) := by
  intro _ ended
  cases ended
  exact may

theorem error (found : ε) : EndsOnly allowed (.error found : Except ε α) :=
  fun _ ended => nomatch ended

theorem bind {final : β → Prop} {rest : α → Except ε β} (first : EndsOnly allowed run)
    (after : ∀ value, allowed value → EndsOnly final (rest value)) :
    EndsOnly final (run >>= rest) := by
  cases run with
  | ok value => exact after value (first value rfl)
  | error found => exact .error found

/-- What comes last decides. -/
theorem after {final : β → Prop} {rest : α → Except ε β}
    (each : ∀ value, EndsOnly final (rest value)) : EndsOnly final (run >>= rest) := by
  have anything : EndsOnly (fun _ => True) run := fun _ _ => trivial
  exact anything.bind fun value _ => each value

theorem foldlM {step : α → β → Except ε α} {items : List β}
    (steps : ∀ item ∈ items, ∀ value, allowed value → EndsOnly allowed (step value item)) {start : α}
    (begins : allowed start) : EndsOnly allowed (items.foldlM step start) := by
  induction items generalizing start with
  | nil => exact .ok begins
  | cons item items ih =>
    obtain ⟨here, later⟩ := List.forall_mem_cons.mp steps
    rw [List.foldlM_cons]
    exact .bind (here start begins) fun _ kept => ih later kept

end EndsOnly

/-- **An outcome with its result and its error changed.** -/
def bimap {δ γ : Type} (onError : ε → δ) (onResult : α → γ) : Except ε α → Except δ γ
  | .ok result => .ok (onResult result)
  | .error error => .error (onError error)

section Bimap

variable {δ γ ζ : Type} {onError : ε → δ}

/-- **Changes pass through a sequence** when they pass through the rest of it. -/
theorem bimap_bind {onValue : α → γ} {onResult : β → ζ} {first : Except ε α} {rest : α → Except ε β}
    {rest' : γ → Except δ ζ}
    (after : ∀ value, rest' (onValue value) = bimap onError onResult (rest value)) :
    bimap onError onValue first >>= rest' = bimap onError onResult (first >>= rest) := by
  cases first with
  | error error => rfl
  | ok value => exact after value

/-- **Changes pass through a row** when they pass through each of its items. -/
theorem mapM_bimap {onItem : α → γ} {onResult : β → ζ} {act : α → Except ε β}
    {act' : γ → Except δ ζ} {items : List α}
    (each : ∀ item ∈ items, act' (onItem item) = bimap onError onResult (act item)) :
    (items.map onItem).mapM act' = bimap onError (List.map onResult) (items.mapM act) := by
  induction items with
  | nil => rfl
  | cons item items ih =>
    obtain ⟨first, others⟩ := List.forall_mem_cons.mp each
    rw [List.map_cons, List.mapM_cons, List.mapM_cons, first, ih others]
    exact bimap_bind fun result => bimap_bind fun results => rfl

/-- A changed result comes from a result. -/
theorem bimap_eq_ok {onResult : α → γ} {run : Except ε α} {changed : γ} :
    bimap onError onResult run = .ok changed ↔
      ∃ result, run = .ok result ∧ onResult result = changed := by
  cases run with
  | ok result => simp [bimap]
  | error error => simp [bimap]

/-- A changed error comes from an error. -/
theorem bimap_eq_error {onResult : α → γ} {run : Except ε α} {changed : δ} :
    bimap onError onResult run = .error changed ↔
      ∃ error, run = .error error ∧ onError error = changed := by
  cases run with
  | ok result => simp [bimap]
  | error error => simp [bimap]

/-- What a change makes of an outcome tells which of the two it was. -/
theorem bimap_eq_bimap {onResult : α → γ} {first second : Except ε α}
    (same : bimap onError onResult first = bimap onError onResult second) :
    (∃ one other, first = .ok one ∧ second = .ok other ∧ onResult one = onResult other) ∨
      ∃ one other, first = .error one ∧ second = .error other ∧ onError one = onError other := by
  cases first with
  | ok one =>
    cases second with
    | ok other => exact .inl ⟨one, other, rfl, rfl, Except.ok.inj same⟩
    | error other => cases same
  | error one =>
    cases second with
    | ok other => cases same
    | error other => exact .inr ⟨one, other, rfl, rfl, Except.error.inj same⟩

end Bimap

end Sequence

/-- **A computation yields a result**: with enough fuel it always ends with it. -/
def Yields {ε α : Type} (run : Nat → Except ε α) (result : α) : Prop :=
  ∃ enough, ∀ fuel, enough ≤ fuel → run fuel = .ok result

namespace Yields

variable {ε α β : Type} {run : Nat → Except ε α} {result other : α}

/-- A computation that needs no fuel. -/
theorem of_forall (always : ∀ fuel, run fuel = .ok result) : Yields run result :=
  ⟨0, fun fuel _ => always fuel⟩

/-- The first unit of fuel may be spent before anything else happens. -/
theorem of_succ (later : Yields (fun fuel => run (fuel + 1)) result) : Yields run result := by
  obtain ⟨enough, ends⟩ := later
  refine ⟨enough + 1, fun fuel bound => ?_⟩
  obtain ⟨less, rfl⟩ : ∃ less, fuel = less + 1 := ⟨fuel - 1, by omega⟩
  exact ends less (by omega)

/-- A computation yields at most one result. -/
theorem unique (first : Yields run result) (second : Yields run other) : result = other := by
  obtain ⟨enough, ends⟩ := first
  obtain ⟨enough', ends'⟩ := second
  have same := (ends (max enough enough') (by omega)).symm.trans (ends' _ (by omega))
  exact Except.ok.inj same

/-- Parts one after another yield what the last of them does. -/
theorem bind {next : Nat → α → Except ε β} {final : β} (first : Yields run result)
    (rest : Yields (fun fuel => next fuel result) final) :
    Yields (fun fuel => run fuel >>= next fuel) final := by
  obtain ⟨enough, ends⟩ := first
  obtain ⟨enough', ends'⟩ := rest
  refine ⟨max enough enough', fun fuel bound => ?_⟩
  exact bind_eq_ok.mpr ⟨result, ends fuel (by omega), ends' fuel (by omega)⟩

/-- A result with its shape changed. -/
theorem map (change : α → β) (yields : Yields run result) :
    Yields (fun fuel => do return change (← run fuel)) (change result) :=
  yields.bind (of_forall fun _ => rfl)

/-- Renaming errors leaves results alone. -/
theorem mapError {δ : Type} (change : ε → δ) (yields : Yields run result) :
    Yields (fun fuel => (run fuel).mapError change) result := by
  obtain ⟨enough, ends⟩ := yields
  exact ⟨enough, fun fuel bound => mapError_eq_ok.mpr (ends fuel bound)⟩

/-- What holds of every run with a result holds of what the computation yields. -/
theorem exists_run (yields : Yields run result) : ∃ fuel, run fuel = .ok result := by
  obtain ⟨enough, ends⟩ := yields
  exact ⟨enough, ends enough (Nat.le_refl enough)⟩

/-- **A computation that can only end with some results**, and yields each of them, yields those and
no others; and once it ends with a result, more fuel changes nothing. -/
theorem iff_of_endsOnly {allowed : α → Prop} (ends : ∀ fuel, EndsOnly allowed (run fuel))
    (yields : ∀ result, allowed result → Yields run result) (result : α) :
    (Yields run result ↔ allowed result) ∧ ((∃ fuel, run fuel = .ok result) ↔ allowed result) := by
  have sound : (∃ fuel, run fuel = .ok result) → allowed result := by
    rintro ⟨fuel, ended⟩
    exact ends fuel result ended
  refine ⟨⟨fun yielded => sound yielded.exists_run, yields result⟩, sound, fun may => ?_⟩
  exact (yields result may).exists_run

end Yields

end EtaLong
