import Dwarf.Dialogue
import Dwarf.Error
/-!
# Judgements of dialogues

A judgement is a property of dialogues that may tell by which errors their answers fail.  A lawful
judgement holds of every answer that is not a misuse, and it is kept when dialogues go on and pass
the errors that they are given on.

## Implementation notes

Behind an error a dialogue is over, so what goes on is judged for the other answers only.  Errors
that no input should bring about are left to the judgement: whether they may be thrown depends on
what is known of the readers.
-/

namespace Dwarf

/-- Whether a result is the failure with an error. -/
def Blames {α : Type} (result : Except Error α) (error : Error) : Prop := result = .error error

theorem blames_error {α : Type} (error other : Error) :
    Blames (.error error : Except Error α) other ↔ other = error :=
  ⟨fun same => (Except.error.inj same).symm, fun same => congrArg Except.error same.symm⟩

/-- A property of dialogues with the errors that their answers blame. -/
structure Judgement (Q : Type) (R : Q → Type) where
  /-- Whether a dialogue has the property. -/
  Holds {α : Type} (blames : α → Error → Prop) (dialogue : Dialogue Q R α) : Prop

variable {Q : Type} {R : Q → Type} {α β : Type}

namespace Judgement

/-- A judgement that is kept when dialogues are put together. -/
class Lawful (J : Judgement Q R) : Prop where
  /-- An answer that blames no misuse has the property. -/
  done {α : Type} {blames : α → Error → Prop} {answer : α}
    (allowed : ∀ error, blames answer error → error.category ≠ .misuse) :
    J.Holds blames (pure answer)
  /-- A dialogue that passes the errors of its first part on has the property if its parts do. -/
  bind {α β : Type} {blames : α → Error → Prop} {blames' : β → Error → Prop}
    {first : Dialogue Q R α} {next : α → Dialogue Q R β} (begins : J.Holds blames first)
    (goes : ∀ answer, (∀ error, ¬ blames answer error) → J.Holds blames' (next answer))
    (passes : ∀ answer error, blames answer error → ∃ answer', next answer = .done answer' ∧
      ∀ other, blames' answer' other ↔ blames answer other) :
    J.Holds blames' (first >>= next)

/-- A step has the property, and its errors are what it blames. -/
abbrev Step (J : Judgement Q R) (step : ExceptT Error (Dialogue Q R) α) : Prop :=
  J.Holds Blames step.run

/-- A judgement that holds of every answer is lawful if it is kept when dialogues go on. -/
theorem Lawful.of_done {J : Judgement Q R}
    (done : ∀ {α : Type} {blames : α → Error → Prop} (answer : α), J.Holds blames (pure answer))
    (bind : ∀ {α β : Type} {blames : α → Error → Prop} {blames' : β → Error → Prop}
      {first : Dialogue Q R α} {next : α → Dialogue Q R β}, J.Holds blames first →
        (∀ answer, J.Holds blames' (next answer)) →
        (∀ answer, (∃ error, blames answer error) → ∃ answer', next answer = .done answer' ∧
          ∃ error, blames' answer' error) → J.Holds blames' (first >>= next)) : J.Lawful where
  done _ := done _
  bind {α β blames blames' first next} begins goes passes := by
    refine bind begins (fun answer => ?_) fun answer ⟨error, blamed⟩ => ?_
    · by_cases blamed : ∃ error, blames answer error
      · obtain ⟨error, blamed⟩ := blamed
        obtain ⟨answer', ends, -⟩ := passes answer error blamed
        rw [ends]
        exact done answer'
      · exact goes answer (not_exists.mp blamed)
    · obtain ⟨answer', ends, same⟩ := passes answer error blamed
      exact ⟨answer', ends, error, (same error).mpr blamed⟩

variable {J : Judgement Q R} [J.Lawful] {blames : α → Error → Prop} {blames' : β → Error → Prop}

theorem holds_pure {answer : α} (clean : ∀ error, ¬ blames answer error) :
    J.Holds blames (pure answer : Dialogue Q R α) :=
  Lawful.done fun error blamed => absurd blamed (clean error)

theorem Holds.map {dialogue : Dialogue Q R α} (f : α → β) (h : J.Holds blames dialogue)
    (same : ∀ answer error, blames' (f answer) error ↔ blames answer error) :
    J.Holds blames' (f <$> dialogue) := by
  rw [map_eq_pure_bind]
  refine Lawful.bind h (fun answer clean => holds_pure fun error => ?_) fun answer error _ =>
    ⟨f answer, rfl, same answer⟩
  rw [same]
  exact clean error

theorem Holds.lift {dialogue : Dialogue Q R α} (h : J.Holds (fun _ _ => False) dialogue) :
    J.Step (ExceptT.lift dialogue) :=
  h.map _ fun _ _ => ⟨nofun, False.elim⟩

theorem step_pure (answer : α) : J.Step (pure answer : ExceptT Error (Dialogue Q R) α) :=
  holds_pure nofun

theorem step_throw {error : Error} (allowed : error.category ≠ .misuse) :
    J.Step (throw error : ExceptT Error (Dialogue Q R) α) := by
  apply Lawful.done
  rintro _ ⟨⟩
  exact allowed

/-- A step may go on with dialogues that blame its errors. -/
theorem Step.bindInto {first : ExceptT Error (Dialogue Q R) α}
    {next : α → ExceptT Error (Dialogue Q R) β} {blames : Except Error β → Error → Prop}
    (h : J.Step first) (each : ∀ answer, J.Holds blames (next answer).run)
    (errors : ∀ error other, blames (.error error) other ↔ other = error) :
    J.Holds blames (first >>= next).run := by
  refine Lawful.bind h (fun result clean => ?_) ?_
  · cases result with
    | ok answer => exact each answer
    | error error => exact absurd rfl (clean error)
  · rintro result error ⟨⟩
    exact ⟨.error error, rfl, fun other => (errors error other).trans (blames_error _ _).symm⟩

theorem Step.bind {first : ExceptT Error (Dialogue Q R) α}
    {next : α → ExceptT Error (Dialogue Q R) β} (h : J.Step first)
    (each : ∀ answer, J.Step (next answer)) : J.Step (first >>= next) :=
  h.bindInto each blames_error

theorem Step.map {first : ExceptT Error (Dialogue Q R) α} (f : α → β) (h : J.Step first) :
    J.Step (f <$> first) := by
  rw [map_eq_pure_bind]
  exact h.bind fun answer => step_pure _

end Judgement

end Dwarf
