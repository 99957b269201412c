/-!
# Dialogues

A dialogue asks queries one after another, each chosen from the replies before it, and ends with
an answer.  It is data: the same dialogue runs against any server that can reply, and two servers
that reply alike take it to the same answer.

The type of a reply depends on its query, so a query that cannot fail needs no error case.
-/

namespace Dwarf

/-- A finite exchange of queries and replies that ends with an answer. -/
inductive Dialogue (Q : Type) (R : Q → Type) (α : Type) : Type where
  /-- The exchange is over. -/
  | done (answer : α)
  /-- One query, and how the exchange goes on from each reply. -/
  | ask (query : Q) (next : R query → Dialogue Q R α)

namespace Dialogue

variable {Q : Type} {R : Q → Type} {α β σ : Type}

/-- Continues a dialogue from its answer. -/
protected def bind : Dialogue Q R α → (α → Dialogue Q R β) → Dialogue Q R β
  | done answer, next => next answer
  | ask query rest, next => ask query fun reply => (rest reply).bind next

instance : Monad (Dialogue Q R) where
  pure := done
  bind := Dialogue.bind

/-- Only the last answer of a dialogue is replaced when it is continued, and continuing from its
answer alone changes nothing. -/
instance : LawfulMonad (Dialogue Q R) :=
  LawfulMonad.mk' _
    (by
      intro _ x
      induction x with
      | done answer => rfl
      | ask query rest ih => exact congrArg (ask query) (funext ih))
    (by
      intros
      rfl)
    (by
      intro _ _ _ x f g
      induction x with
      | done answer => rfl
      | ask query rest ih => exact congrArg (ask query) (funext ih))

/-- Runs a dialogue against a server that replies from a state of its own. -/
def run (serve : (query : Q) → σ → R query × σ) : Dialogue Q R α → σ → α × σ
  | done answer, state => (answer, state)
  | ask query next, state =>
    let (reply, state) := serve query state
    (next reply).run serve state

@[simp] theorem run_pure (serve : (query : Q) → σ → R query × σ) (answer : α) (state : σ) :
    (pure answer : Dialogue Q R α).run serve state = (answer, state) := rfl

@[simp] theorem run_ask (serve : (query : Q) → σ → R query × σ) (query : Q)
    (next : R query → Dialogue Q R α) (state : σ) :
    (ask query next).run serve state =
      (next (serve query state).1).run serve (serve query state).2 := rfl

@[simp] theorem run_bind (serve : (query : Q) → σ → R query × σ) (first : Dialogue Q R α)
    (next : α → Dialogue Q R β) (state : σ) :
    (first >>= next).run serve state =
      (next (first.run serve state).1).run serve (first.run serve state).2 := by
  induction first generalizing state with
  | done answer => rfl
  | ask query rest ih => exact ih _ _

theorem run_map (serve : (query : Q) → σ → R query × σ) (f : α → β) (dialogue : Dialogue Q R α)
    (state : σ) :
    (f <$> dialogue).run serve state =
      (f (dialogue.run serve state).1, (dialogue.run serve state).2) := by
  rw [map_eq_pure_bind, run_bind]
  rfl

theorem run_keeps {serve : (query : Q) → σ → R query × σ} (Kept : σ → Prop)
    (step : ∀ query state, Kept state → Kept (serve query state).2) (dialogue : Dialogue Q R α)
    {state : σ} (h : Kept state) : Kept (dialogue.run serve state).2 := by
  induction dialogue generalizing state with
  | done answer => exact h
  | ask query next ih => exact ih _ (step query state h)

theorem run_project {τ : Type} {serve : (query : Q) → σ → R query × σ}
    {serve' : (query : Q) → τ → R query × τ} (project : σ → τ)
    (step : ∀ query state,
      serve' query (project state) = ((serve query state).1, project (serve query state).2))
    (dialogue : Dialogue Q R α) (state : σ) :
    dialogue.run serve' (project state) =
      ((dialogue.run serve state).1, project (dialogue.run serve state).2) := by
  induction dialogue generalizing state with
  | done answer => rfl
  | ask query next ih =>
      rw [run_ask, run_ask, step]
      exact ih _ _

section Step

variable {ε : Type} (serve : (query : Q) → σ → R query × σ) (state : σ)

theorem runStep_pure (answer : α) :
    (pure answer : ExceptT ε (Dialogue Q R) α).run.run serve state = (.ok answer, state) := rfl

theorem runStep_throw (error : ε) :
    (throw error : ExceptT ε (Dialogue Q R) α).run.run serve state = (.error error, state) := rfl

theorem runStep_bind (first : ExceptT ε (Dialogue Q R) α)
    (next : α → ExceptT ε (Dialogue Q R) β) :
    (first >>= next).run.run serve state =
      match first.run.run serve state with
      | (.ok answer, state) => (next answer).run.run serve state
      | (.error error, state) => (.error error, state) := by
  refine (run_bind serve first.run (ExceptT.bindCont next) state).trans ?_
  rcases first.run.run serve state with ⟨_ | _, _⟩ <;> rfl

theorem runStep_map (f : α → β) (step : ExceptT ε (Dialogue Q R) α) :
    (f <$> step).run.run serve state =
      ((step.run.run serve state).1.map f, (step.run.run serve state).2) := by
  rw [map_eq_pure_bind, runStep_bind]
  rcases step.run.run serve state with ⟨_ | _, _⟩ <;> rfl

theorem runStep_bind_ok {first : ExceptT ε (Dialogue Q R) α}
    {next : α → ExceptT ε (Dialogue Q R) β} {answer : β} {state' : σ}
    (h : (first >>= next).run.run serve state = (.ok answer, state')) :
    ∃ middle reached, first.run.run serve state = (.ok middle, reached) ∧
      (next middle).run.run serve reached = (.ok answer, state') := by
  rw [runStep_bind] at h
  rcases ran : first.run.run serve state with ⟨_ | middle, reached⟩
  · rw [ran] at h
    cases h
  · rw [ran] at h
    exact ⟨middle, reached, rfl, h⟩

theorem runStep_bind_congr {first : ExceptT ε (Dialogue Q R) α}
    {next next' : α → ExceptT ε (Dialogue Q R) β}
    (h : ∀ answer reached, first.run.run serve state = (.ok answer, reached) →
      (next answer).run.run serve reached = (next' answer).run.run serve reached) :
    (first >>= next).run.run serve state = (first >>= next').run.run serve state := by
  rw [runStep_bind, runStep_bind]
  rcases ran : first.run.run serve state with ⟨_ | answer, reached⟩
  · rfl
  · exact h answer reached ran

theorem runStep_lift (dialogue : Dialogue Q R α) :
    (ExceptT.lift dialogue : ExceptT ε (Dialogue Q R) α).run.run serve state =
      (.ok (dialogue.run serve state).1, (dialogue.run serve state).2) :=
  run_map serve Except.ok dialogue state

end Step

end Dialogue

end Dwarf
