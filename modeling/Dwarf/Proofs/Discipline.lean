import Dwarf.Proofs.Judgement
/-!
# Disciplined dialogues

A discipline says which queries a dialogue may ask, which replies it must not tell apart, and which
replies it must give up on.  Two servers whose replies a discipline does not tell apart take a
disciplined dialogue to the same answer, unless one of them makes it give up.
-/

namespace Dwarf

/-- What dialogues may ask, and how they must take the replies. -/
structure Discipline (Q : Type) (R : Q → Type) (σ : Type) where
  /-- Whether a query may be asked in a state. -/
  permits : σ → Q → Prop
  /-- The state after a reply. -/
  after : σ → (query : Q) → R query → σ
  /-- Whether two replies must not be told apart. -/
  alike : (query : Q) → R query → R query → Prop
  /-- Whether a reply must be given up on. -/
  fatal : (query : Q) → R query → Prop

/-- Whether a result is an error. -/
def Failed {ε α : Type} (result : Except ε α) : Prop := ∃ error, result = .error error

variable {Q : Type} {R : Q → Type} {α β σ X Y : Type}

namespace Dialogue

/-- A dialogue follows a discipline from a state on, and gives up with failed answers only. -/
def Follows (D : Discipline Q R σ) (failed : α → Prop) : Dialogue Q R α → σ → Prop
  | done _, _ => True
  | ask query next, state =>
    D.permits state query ∧
      (∀ reply reply', D.alike query reply reply' → next reply = next reply') ∧
        ∀ reply, (D.fatal query reply → ∃ answer, next reply = done answer ∧ failed answer) ∧
          (next reply).Follows D failed (D.after state query reply)

variable {D : Discipline Q R σ} {failed : α → Prop} {failed' : β → Prop}

/-- A disciplined dialogue may go on with one that is governed, which must not forget a failure. -/
theorem Follows.bind {first : Dialogue Q R α} {next : α → Dialogue Q R β} {state : σ}
    (h : first.Follows D failed state)
    (each : ∀ answer state, (next answer).Follows D failed' state)
    (fails : ∀ answer, failed answer → ∃ answer', next answer = done answer' ∧ failed' answer') :
    (first >>= next).Follows D failed' state := by
  induction first generalizing state with
  | done answer => exact each answer state
  | ask query rest ih =>
      obtain ⟨permitted, blind, goes⟩ := h
      refine ⟨permitted, fun reply reply' alike => ?_, fun reply => ⟨fun fatal => ?_, ?_⟩⟩
      · exact congrArg (· >>= next) (blind reply reply' alike)
      · obtain ⟨answer, ends, bad⟩ := (goes reply).1 fatal
        obtain ⟨answer', ends', bad'⟩ := fails answer bad
        exact ⟨answer', (congrArg (· >>= next) ends).trans ends', bad'⟩
      · exact ih reply (goes reply).2

theorem Follows.run_keeps (serve : (query : Q) → X → R query × X) (Kept : σ → X → Prop)
    (step : ∀ state query x, D.permits state query → Kept state x →
      Kept (D.after state query (serve query x).1) (serve query x).2)
    {dialogue : Dialogue Q R α} {state : σ} (follows : dialogue.Follows D failed state) {x : X}
    (h : Kept state x) : ∃ state', Kept state' (dialogue.run serve x).2 := by
  induction dialogue generalizing x state with
  | done answer => exact ⟨state, h⟩
  | ask query next ih => exact ih _ (follows.2.2 _).2 (step state query x follows.1 h)

/-- Two servers that are related, and whose replies to permitted queries are alike unless they are
fatal, take a disciplined dialogue to the same answer and stay related, unless it fails.  Where no
reply is fatal, it does not fail. -/
theorem Follows.simulate (lossy : Prop) (serve : (query : Q) → X → R query × X)
    (serve' : (query : Q) → Y → R query × Y) (Related : σ → X → Y → Prop)
    (step : ∀ state query x y, D.permits state query → Related state x y →
      lossy ∧ D.fatal query (serve query x).1 ∨
        D.alike query (serve query x).1 (serve' query y).1 ∧
          Related (D.after state query (serve query x).1) (serve query x).2 (serve' query y).2)
    {dialogue : Dialogue Q R α} {state : σ} (follows : dialogue.Follows D failed state) {x : X}
    {y : Y} (h : Related state x y) :
    lossy ∧ failed (dialogue.run serve x).1 ∨
      (dialogue.run serve x).1 = (dialogue.run serve' y).1 ∧
        ∃ state', Related state' (dialogue.run serve x).2 (dialogue.run serve' y).2 := by
  induction dialogue generalizing x y state with
  | done answer => exact .inr ⟨rfl, state, h⟩
  | ask query next ih =>
      obtain ⟨permitted, blind, goes⟩ := follows
      rw [run_ask, run_ask]
      rcases step state query x y permitted h with ⟨loss, fatal⟩ | ⟨alike, related⟩
      · obtain ⟨answer, ends, bad⟩ := (goes (serve query x).1).1 fatal
        rw [ends]
        exact .inl ⟨loss, bad⟩
      · rw [← blind _ _ alike]
        exact ih _ (goes _).2 related

end Dialogue

namespace Discipline

variable {D : Discipline Q R σ} {failed : α → Prop} {failed' : β → Prop}

/-- A dialogue follows a discipline from every state. -/
def Governs (D : Discipline Q R σ) (failed : α → Prop) (dialogue : Dialogue Q R α) : Prop :=
  ∀ state, dialogue.Follows D failed state

theorem governs_pure (answer : α) : D.Governs failed (pure answer) := fun _ => trivial

theorem Governs.bind {first : Dialogue Q R α} {next : α → Dialogue Q R β}
    (h : D.Governs failed first) (each : ∀ answer, D.Governs failed' (next answer))
    (fails : ∀ answer, failed answer → ∃ answer', next answer = .done answer' ∧ failed' answer') :
    D.Governs failed' (first >>= next) :=
  fun state => (h state).bind (fun answer state => each answer state) fails

theorem Governs.map {first : Dialogue Q R α} (f : α → β) (h : D.Governs failed first)
    (fails : ∀ answer, failed answer → failed' (f answer)) : D.Governs failed' (f <$> first) := by
  rw [map_eq_pure_bind]
  exact h.bind (fun answer => governs_pure _) fun answer bad => ⟨_, rfl, fails answer bad⟩

/-- The discipline that lets dialogues go on behind every reply. -/
def tolerant (D : Discipline Q R σ) : Discipline Q R σ := { D with fatal := fun _ _ => False }

/-- A governed dialogue is governed by the tolerant discipline too. -/
theorem Governs.tolerant {dialogue : Dialogue Q R α} (h : D.Governs failed dialogue) :
    D.tolerant.Governs (fun _ => False) dialogue := by
  have follows : ∀ state, dialogue.Follows D failed state →
      dialogue.Follows D.tolerant (fun _ => False) state := by
    clear h
    induction dialogue with
    | done answer => exact fun _ _ => trivial
    | ask query next ih =>
        rintro state ⟨permitted, blind, goes⟩
        exact ⟨permitted, blind, fun reply => ⟨False.elim, ih reply _ (goes reply).2⟩⟩
  exact fun state => follows state (h state)

theorem Governs.andThen {first : Dialogue Q R α} {next : α → Dialogue Q R β}
    (h : D.tolerant.Governs (fun _ => False) first)
    (each : ∀ answer, D.tolerant.Governs (fun _ => False) (next answer)) :
    D.tolerant.Governs (fun _ => False) (first >>= next) :=
  h.bind each fun _ lost => lost.elim

/-- What a discipline governs, with the answers that blame an error as the failed ones. -/
def judgement (D : Discipline Q R σ) : Judgement Q R where
  Holds blames dialogue := D.Governs (fun answer => ∃ error, blames answer error) dialogue

/-- Governed dialogues go on with governed ones. -/
instance : D.judgement.Lawful := .of_done governs_pure Governs.bind

/-- A dialogue that may fail follows a discipline from every state. -/
abbrev GovernsStep (D : Discipline Q R σ) (step : ExceptT Error (Dialogue Q R) α) : Prop :=
  D.judgement.Step step

theorem governsStep_throw (error : Error) :
    D.GovernsStep (throw error : ExceptT Error (Dialogue Q R) α) := fun _ => trivial

end Discipline

end Dwarf
