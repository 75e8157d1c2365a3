import DocStream.Error
import DocStream.Proofs.Related

/-!
# Outcomes taken apart

When a composed computation succeeds: each of its parts does. When it fails: one of its parts does.
The lemmas take an outcome apart, so that no proof about a computation has to unfold the monad.

* `Outcome.bind_eq_ok` and `Outcome.map_eq_ok` — two steps, and a step with a function after it;
* `Outcome.mapM_eq_ok`, `Outcome.exists_mapM_iff`, `Outcome.exists_foldlM_iff` — one step for every
  element of a list;
* `Outcome.bind_eq_error`, `Outcome.map_eq_error`, `Outcome.exists_of_mapM_eq_error`,
  `Outcome.exists_of_foldlM_eq_error` — the same for failures;
* `Outcome.Fails` — every failure, if there is one, is of a kind, and `Outcome.FailsPerRecord` — it
  belongs to one record.

Success is stated by equivalences, so that the same lemma takes a hypothesis apart and puts a goal
together. Failure comes with its error: a computation of several steps fails with the error of one
of them, and where all the errors of the steps are of one kind, so is that of the whole.
-/

namespace DocStream

namespace Outcome

variable {α β : Type}

/-- Two steps in a row succeed exactly when both do. -/
theorem bind_eq_ok {x : Outcome α} {f : α → Outcome β} {b : β} :
    (x >>= f) = .ok b ↔ ∃ a, x = .ok a ∧ f a = .ok b := by
  cases x with
  | error e => exact ⟨nofun, nofun⟩
  | ok a =>
    refine ⟨fun h => ⟨a, rfl, h⟩, ?_⟩
    rintro ⟨a', ha, hf⟩
    injection ha with ha
    rw [ha]
    exact hf

/-- A step with a function after it succeeds exactly when the step does. -/
theorem map_eq_ok {x : Outcome α} {f : α → β} {b : β} :
    f <$> x = .ok b ↔ ∃ a, x = .ok a ∧ f a = b := by
  cases x with
  | error e => exact ⟨nofun, nofun⟩
  | ok a =>
    refine ⟨fun h => ⟨a, rfl, ?_⟩, ?_⟩
    · injection h
    · rintro ⟨a', ha, rfl⟩
      injection ha with ha
      rw [ha]
      rfl

/-- Two steps of which the second cannot fail succeed exactly when the first does. -/
theorem exists_bind_pure_iff {x : Outcome α} {f : α → β} :
    (∃ b, (x >>= fun a => pure (f a)) = .ok b) ↔ ∃ a, x = .ok a := by
  cases x with
  | error e => exact iff_of_false nofun nofun
  | ok a => exact iff_of_true ⟨f a, rfl⟩ ⟨a, rfl⟩

/-- One step for every element succeeds exactly when each of the steps does, and the results are
theirs in order. So they are as many as the elements. -/
theorem mapM_eq_ok {f : α → Outcome β} {as : List α} {bs : List β} :
    as.mapM f = .ok bs ↔ List.Forall₂ (fun a b => f a = .ok b) as bs := by
  induction as generalizing bs with
  | nil =>
    rw [List.mapM_nil]
    constructor
    · intro h
      injection h with h
      rw [← h]
      exact .nil
    · intro h
      cases h
      rfl
  | cons a as ih =>
    -- the step of the first element, then those of the others
    rw [List.mapM_cons, bind_eq_ok]
    constructor
    · rintro ⟨b, hb, h⟩
      obtain ⟨rest, hrest, h⟩ := bind_eq_ok.mp h
      injection h with h
      rw [← h]
      exact .cons hb (ih.mp hrest)
    · intro h
      cases h with
      | cons hb hrest => exact ⟨_, hb, bind_eq_ok.mpr ⟨_, ih.mpr hrest, rfl⟩⟩

/-- One step for every element succeeds if each of the steps does. Which results there are is left
open. -/
theorem exists_mapM_iff {f : α → Outcome β} {as : List α} :
    (∃ bs, as.mapM f = .ok bs) ↔ ∀ a ∈ as, ∃ b, f a = .ok b := by
  constructor
  · rintro ⟨bs, hbs⟩ a ha
    obtain ⟨b, -, hb⟩ := exists_of_forall₂ (mapM_eq_ok.mp hbs).flip ha
    exact ⟨b, hb⟩
  · intro h
    obtain ⟨bs, hbs⟩ := forall₂_of_forall_exists h
    exact ⟨bs, mapM_eq_ok.mpr hbs⟩

/-- Steps in a row of which each succeeds or not whatever came before: they succeed if each does.
Otherwise the state between them would have to be carried along. -/
theorem exists_foldlM_iff {f : β → α → Outcome β} {P : α → Prop}
    (hf : ∀ a b, (∃ b', f b a = .ok b') ↔ P a) {as : List α} {b : β} :
    (∃ b', as.foldlM f b = .ok b') ↔ ∀ a ∈ as, P a := by
  induction as generalizing b with
  | nil => exact iff_of_true ⟨b, rfl⟩ fun a ha => absurd ha List.not_mem_nil
  | cons a rest ih =>
    rw [List.foldlM_cons, List.forall_mem_cons, ← hf a b]
    constructor
    · rintro ⟨b', h⟩
      obtain ⟨b₁, hb₁, h⟩ := bind_eq_ok.mp h
      exact ⟨⟨b₁, hb₁⟩, ih.mp ⟨b', h⟩⟩
    · -- the state that the first step leads to does not matter to the others
      rintro ⟨⟨b₁, hb₁⟩, hrest⟩
      obtain ⟨b', hb'⟩ := ih.mpr hrest
      exact ⟨b', bind_eq_ok.mpr ⟨b₁, hb₁, hb'⟩⟩

/-! ### Failures -/

variable {e : Error}

/-- Two steps in a row fail exactly when the first does, or the second after it. -/
theorem bind_eq_error {x : Outcome α} {f : α → Outcome β} :
    (x >>= f) = .error e ↔ x = .error e ∨ ∃ a, x = .ok a ∧ f a = .error e := by
  cases x with
  | error e' => exact ⟨fun h => .inl (congrArg Except.error (Except.error.inj h)),
      fun h => h.elim (fun h => congrArg Except.error (Except.error.inj h)) nofun⟩
  | ok a =>
    refine ⟨fun h => .inr ⟨a, rfl, h⟩, ?_⟩
    rintro (h | ⟨a', ha, hf⟩)
    · exact nomatch h
    · rw [Except.ok.inj ha]
      exact hf

/-- A step with a function after it fails exactly when the step does. -/
theorem map_eq_error {x : Outcome α} {f : α → β} : f <$> x = .error e ↔ x = .error e := by
  cases x with
  | error e' => exact ⟨fun h => congrArg Except.error (Except.error.inj h),
      fun h => congrArg Except.error (Except.error.inj h)⟩
  | ok a => exact ⟨nofun, nofun⟩

/-- If one step for every element fails, one of the steps does, with the same error. -/
theorem exists_of_mapM_eq_error {f : α → Outcome β} {as : List α} (h : as.mapM f = .error e) :
    ∃ a ∈ as, f a = .error e := by
  induction as with
  | nil => exact nomatch h
  | cons a as ih =>
    rw [List.mapM_cons] at h
    rcases bind_eq_error.mp h with ha | ⟨b, -, h⟩
    · exact ⟨a, List.mem_cons_self, ha⟩
    · rcases bind_eq_error.mp h with hrest | ⟨bs, -, h⟩
      · obtain ⟨a', ha', hfa'⟩ := ih hrest
        exact ⟨a', List.mem_cons_of_mem a ha', hfa'⟩
      · exact nomatch h

/-- If steps in a row fail, one of them does. -/
theorem exists_of_foldlM_eq_error {f : β → α → Outcome β} {as : List α} {b : β}
    (h : as.foldlM f b = .error e) : ∃ a ∈ as, ∃ b', f b' a = .error e := by
  induction as generalizing b with
  | nil => exact nomatch h
  | cons a rest ih =>
    rw [List.foldlM_cons] at h
    rcases bind_eq_error.mp h with ha | ⟨b', -, h⟩
    · exact ⟨a, List.mem_cons_self, b, ha⟩
    · obtain ⟨a', ha', hfa'⟩ := ih h
      exact ⟨a', List.mem_cons_of_mem a ha', hfa'⟩

/-! ### Failures of a kind -/

/-- **Every failure is of a kind**, if there is one at all. -/
def Fails (x : Outcome α) (P : Error → Prop) : Prop := ∀ e, x = .error e → P e

variable {P : Error → Prop}

/-- A success does not fail, so whatever is said of its failures holds. -/
theorem fails_ok (a : α) : Fails (.ok a) P := nofun

theorem fails_error (h : P e) : Fails (.error e : Outcome α) P := by
  intro e' he
  rw [← Except.error.inj he]
  exact h

namespace Fails

theorem imp {Q : Error → Prop} {x : Outcome α} (hx : Fails x P) (h : ∀ e, P e → Q e) : Fails x Q :=
  fun e he => h e (hx e he)

/-- **Two steps in a row fail in a kind** if the first does, and the second whenever it is reached.
-/
theorem bind {x : Outcome α} {f : α → Outcome β} (hx : Fails x P)
    (hf : ∀ a, x = .ok a → Fails (f a) P) : Fails (x >>= f) P := by
  intro e h
  rcases bind_eq_error.mp h with h | ⟨a, ha, h⟩
  · exact hx e h
  · exact hf a ha e h

/-- A step with a function after it fails as the step does. -/
theorem map {x : Outcome α} (hx : Fails x P) (f : α → β) : Fails (f <$> x) P :=
  fun e h => hx e (map_eq_error.mp h)

/-- One step for every element fails in a kind if each step does. -/
theorem mapM {f : α → Outcome β} {as : List α} (hf : ∀ a ∈ as, Fails (f a) P) :
    Fails (as.mapM f) P := by
  intro e h
  obtain ⟨a, ha, h⟩ := exists_of_mapM_eq_error h
  exact hf a ha e h

/-- Steps in a row fail in a kind if each does, whatever state it is reached with. -/
theorem foldlM {f : β → α → Outcome β} {as : List α} (hf : ∀ a ∈ as, ∀ b, Fails (f b a) P)
    (b : β) : Fails (as.foldlM f b) P := by
  intro e h
  obtain ⟨a, ha, b', h⟩ := exists_of_foldlM_eq_error h
  exact hf a ha b' e h

end Fails

/-- **A failure belongs to one document or record**, if there is one at all. -/
def FailsPerRecord (x : Outcome α) : Prop := Fails x (·.isPerRecord = true)

theorem failsPerRecord_ok (a : α) : FailsPerRecord (.ok a) := fails_ok a

/-- An error that belongs to a record is such a failure. -/
theorem failsPerRecord_error (h : e.isPerRecord = true) :
    FailsPerRecord (.error e : Outcome α) :=
  fails_error h

end Outcome
end DocStream
