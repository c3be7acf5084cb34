import Mathlib.Logic.Basic

/-!
# All along a run

A system goes from one state to the next by moves. `Trace.Always` says that a property holds all
along a run of it, `Trace.Throughout` that all moves of a run keep a condition where they happen.
Where an invariant that implies a law outlives each move that keeps a condition, and the law
outlives no other move, the law holds all along a run exactly when all its moves keep the condition
(`always_iff_throughout`, and for moves of one kind `always_iff_throughout_of`).
-/

namespace ListSync.Trace

variable {σ μ : Type} {step : σ → μ → σ} {P J : σ → Prop} {C : σ → μ → Prop} {s : σ}

/-- A property holds at the start of a run and after each of its moves. -/
def Always (step : σ → μ → σ) (P : σ → Prop) (s : σ) : List μ → Prop
  | [] => P s
  | m :: moves => P s ∧ Always step P (step s m) moves

/-- A condition holds for every move of a run, in the state in which it happens. -/
def Throughout (step : σ → μ → σ) (C : σ → μ → Prop) (s : σ) : List μ → Prop
  | [] => True
  | m :: moves => C s m ∧ Throughout step C (step s m) moves

instance decidableThroughout (step : σ → μ → σ) (C : σ → μ → Prop) [∀ s m, Decidable (C s m)] :
    ∀ (s : σ) (moves : List μ), Decidable (Throughout step C s moves)
  | _, [] => .isTrue trivial
  | s, m :: moves =>
    have := decidableThroughout step C (step s m) moves
    inferInstanceAs (Decidable (C s m ∧ Throughout step C (step s m) moves))

/-- What the moves of a run yield, one after the other. -/
def gather {ν : Type} (step : σ → μ → σ) (f : σ → μ → List ν) (s : σ) : List μ → List ν
  | [] => []
  | m :: moves => f s m ++ gather step f (step s m) moves

theorem Always.start {moves : List μ} (h : Always step P s moves) : P s := by
  cases moves with
  | nil => exact h
  | cons m moves => exact h.1

/-- What every move keeps holds all along a run. -/
theorem always_of_invariant (law : ∀ s, J s → P s) (keeps : ∀ s m, J s → J (step s m)) (known : J s)
    (moves : List μ) : Always step P s moves := by
  induction moves generalizing s with
  | nil => exact law s known
  | cons m moves ih => exact ⟨law s known, ih (keeps s m known)⟩

/-- What every move that keeps a condition keeps holds all along a run of such moves. -/
theorem always_of_throughout (law : ∀ s, J s → P s) (keeps : ∀ s m, J s → C s m → J (step s m))
    (known : J s) {moves : List μ} (kept : Throughout step C s moves) :
    Always step P s moves := by
  induction moves generalizing s with
  | nil => exact law s known
  | cons m moves ih => exact ⟨law s known, ih (keeps s m known kept.1) kept.2⟩

/-- Where every move keeps an invariant under which it meets a condition, all moves of a run meet
it. -/
theorem throughout_of_invariant (meets : ∀ s m, J s → C s m)
    (keeps : ∀ s m, J s → J (step s m)) (known : J s) (moves : List μ) :
    Throughout step C s moves := by
  induction moves generalizing s with
  | nil => trivial
  | cons m moves ih => exact ⟨meets s m known, ih (keeps s m known)⟩

/-- One more move meets a condition at the end of a run. -/
theorem Throughout.concat {moves : List μ} (h : Throughout step C s moves) {m : μ}
    (last : C (moves.foldl step s) m) : Throughout step C s (moves ++ [m]) := by
  induction moves generalizing s with
  | nil => exact ⟨last, trivial⟩
  | cons m' moves ih => exact ⟨h.1, ih h.2 last⟩

section

variable {A D : σ → μ → Prop}

/-- Among moves of one kind, where an invariant that implies a law outlives each move that keeps a
condition, and the law does not outlive any other move, the law holds all along a run exactly when
all moves keep the condition. -/
theorem always_iff_throughout_of (law : ∀ s, J s → P s)
    (keeps : ∀ s m, J s → A s m → C s m → J (step s m))
    (needs : ∀ s m, J s → A s m → P (step s m) → C s m) (known : J s) {moves : List μ}
    (kind : Throughout step A s moves) :
    Always step P s moves ↔ Throughout step C s moves := by
  induction moves generalizing s with
  | nil => exact ⟨fun _ => trivial, fun _ => law s known⟩
  | cons m moves ih =>
    constructor
    · rintro ⟨-, rest⟩
      have kept := needs s m known kind.1 rest.start
      exact ⟨kept, (ih (keeps s m known kind.1 kept) kind.2).1 rest⟩
    · rintro ⟨kept, rest⟩
      exact ⟨law s known, (ih (keeps s m known kind.1 kept) kind.2).2 rest⟩

/-- Where an invariant outlives each move that keeps a condition, what then holds of the move holds
of all moves of a run that keep the condition. -/
theorem Throughout.imp (keeps : ∀ s m, J s → A s m → C s m → J (step s m))
    (implies : ∀ s m, J s → A s m → C s m → D s m) (known : J s) {moves : List μ}
    (kind : Throughout step A s moves) (h : Throughout step C s moves) :
    Throughout step D s moves := by
  induction moves generalizing s with
  | nil => trivial
  | cons m moves ih =>
    exact ⟨implies s m known kind.1 h.1, ih (keeps s m known kind.1 h.1) kind.2 h.2⟩

end

/-- Where an invariant that implies a law outlives each move that keeps a condition, and the law
does not outlive any other move, the law holds all along a run exactly when all moves keep the
condition. -/
theorem always_iff_throughout (law : ∀ s, J s → P s) (keeps : ∀ s m, J s → C s m → J (step s m))
    (needs : ∀ s m, J s → P (step s m) → C s m) (known : J s) (moves : List μ) :
    Always step P s moves ↔ Throughout step C s moves := by
  refine always_iff_throughout_of (A := fun _ _ => True) law (fun s m known _ => keeps s m known)
    (fun s m known _ => needs s m known) known ?_
  exact throughout_of_invariant (J := fun _ => True) (fun _ _ _ => trivial) (fun _ _ _ => trivial)
    trivial moves

end ListSync.Trace
