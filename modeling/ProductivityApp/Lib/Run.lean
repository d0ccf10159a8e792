import Mathlib.Data.List.Basic

/-!
# Runs of an event system

A system is a step function on states and events; a run is the list of events that happened, in
order. `Always P` says that `P` held each time an event happened, of the state it happened in. The
laws proved of a system have this form, and so have the assumptions they are proved under, which is
why the rules below turn one `Always` into another along an invariant.
-/

namespace EventSystem

variable {σ ε : Type} (step : σ → ε → σ)

/-- The state a run ends in. -/
def run (s : σ) (events : List ε) : σ := events.foldl step s

/-- `P` holds of every event of the run and the state it happens in. -/
def Always (P : σ → ε → Prop) : σ → List ε → Prop
  | _, [] => True
  | s, e :: events => P s e ∧ Always P (step s e) events

@[simp]
theorem run_nil (s : σ) : run step s [] = s := rfl

@[simp]
theorem run_cons (s : σ) (e : ε) (events : List ε) :
    run step s (e :: events) = run step (step s e) events := rfl

@[simp]
theorem always_nil (P : σ → ε → Prop) (s : σ) : Always step P s [] := trivial

@[simp]
theorem always_cons {P : σ → ε → Prop} {s : σ} {e : ε} {events : List ε} :
    Always step P s (e :: events) ↔ P s e ∧ Always step P (step s e) events := Iff.rfl

theorem always_of_forall {P : σ → ε → Prop} (h : ∀ s e, P s e) (s : σ) (events : List ε) :
    Always step P s events := by
  induction events generalizing s with
  | nil => trivial
  | cons e events ih => exact ⟨h s e, ih (step s e)⟩

instance decidableAlways (P : σ → ε → Prop) [∀ s e, Decidable (P s e)] (s : σ) (events : List ε) :
    Decidable (Always step P s events) :=
  match events with
  | [] => .isTrue trivial
  | e :: events =>
      have := decidableAlways P (step s e) events
      inferInstanceAs (Decidable (P s e ∧ Always step P (step s e) events))

theorem always_append {P : σ → ε → Prop} {s : σ} {before after : List ε} :
    Always step P s (before ++ after)
      ↔ Always step P s before ∧ Always step P (run step s before) after := by
  induction before generalizing s with
  | nil => simp
  | cons e before ih => simp [ih, and_assoc]

variable {step}

theorem Always.and {P Q : σ → ε → Prop} {s : σ} {events : List ε}
    (hP : Always step P s events) (hQ : Always step Q s events) :
    Always step (fun s e => P s e ∧ Q s e) s events := by
  induction events generalizing s with
  | nil => trivial
  | cons e events ih => exact ⟨⟨hP.1, hQ.1⟩, ih hP.2 hQ.2⟩

/-! ### Invariants

An invariant may need the run's assumptions to be kept, so every rule takes the assumption `C`
together with the step lemma that uses it. -/

section Invariant

variable {Inv : σ → Prop} {C P : σ → ε → Prop}

/-- What every step keeps, a run keeps. -/
theorem run_invariant (hstep : ∀ s e, Inv s → C s e → Inv (step s e)) {s : σ} {events : List ε}
    (hs : Inv s) (h : Always step C s events) : Inv (run step s events) := by
  induction events generalizing s with
  | nil => exact hs
  | cons e events ih => exact ih (hstep s e hs h.1) h.2

/-- Along a run that keeps the invariant, `C` can be traded for what it says there. -/
theorem always_of_invariant (hstep : ∀ s e, Inv s → C s e → Inv (step s e))
    (himp : ∀ s e, Inv s → C s e → P s e) {s : σ} {events : List ε}
    (hs : Inv s) (h : Always step C s events) : Always step P s events := by
  induction events generalizing s with
  | nil => trivial
  | cons e events ih => exact ⟨himp s e hs h.1, ih (hstep s e hs h.1) h.2⟩

/-- Along a run of the scope `S`, two conditions that agree wherever the invariant holds agree. -/
theorem always_iff_of_scope {S : σ → ε → Prop}
    (hstep : ∀ s e, Inv s → S s e → C s e → Inv (step s e))
    (hiff : ∀ s e, Inv s → S s e → (P s e ↔ C s e)) {s : σ} {events : List ε}
    (hs : Inv s) (hscope : Always step S s events) :
    Always step P s events ↔ Always step C s events := by
  induction events generalizing s with
  | nil => exact Iff.rfl
  | cons e events ih =>
      rw [always_cons, always_cons, hiff s e hs hscope.1]
      exact and_congr_right fun hC => ih (hstep s e hs hscope.1 hC) hscope.2

theorem always_iff_of_invariant (hstep : ∀ s e, Inv s → C s e → Inv (step s e))
    (hiff : ∀ s e, Inv s → (P s e ↔ C s e)) {s : σ} {events : List ε} (hs : Inv s) :
    Always step P s events ↔ Always step C s events :=
  always_iff_of_scope (fun s e hs _ => hstep s e hs) (fun s e hs _ => hiff s e hs) hs
    (always_of_forall step (fun _ _ => trivial) s events)

theorem always_congr (hiff : ∀ s e, P s e ↔ C s e) {s : σ} {events : List ε} :
    Always step P s events ↔ Always step C s events :=
  have hstep : ∀ s e, True → C s e → True := fun _ _ _ _ => trivial
  always_iff_of_invariant hstep (fun s e _ => hiff s e) trivial

end Invariant

/-! ### Budgets

What a run does in all is bounded by what its events pay for, when each step does no more than its
event pays for and the state has put aside. -/

section Budget

variable (step)

/-- A quantity of the steps of a run, summed up. -/
def total (quantity : σ → ε → ℕ) : σ → List ε → ℕ
  | _, [] => 0
  | s, e :: events => quantity s e + total quantity (step s e) events

variable {step}

theorem total_add_le {saved : σ → ℕ} {cost budget : σ → ε → ℕ}
    (hcost : ∀ s e, cost s e + saved (step s e) ≤ saved s + budget s e) (s : σ)
    (events : List ε) :
    total step cost s events + saved (run step s events)
      ≤ saved s + total step budget s events := by
  induction events generalizing s with
  | nil => simp [total]
  | cons e events ih =>
      have hhead := hcost s e
      have htail := ih (step s e)
      simp only [total, run_cons]
      omega

end Budget

end EventSystem
