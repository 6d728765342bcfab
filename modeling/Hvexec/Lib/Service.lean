import Mathlib.Tactic

/-!
# Clients of a service

A client sees a part of the state of a service, chooses an action, and goes on with the
answer.  A service may also give the client up.

A service simulates another when it shows the same and answers the same, wherever the other
one answers.  Then no client can tell the two apart for as long as the other one does not
give it up: the actions, the answers, the state of the client and the way its run ends are
the same.
-/

namespace Hvexec

universe u v w x y

/-- States `S`, of which a client sees a `V`; actions `A` and answers `R`.  No answer means
that the client is given up. -/
structure Service (S : Type u) (V : Type v) (A : Type w) (R : Type x) where
  view : S → V
  step : S → A → Option (R × S)

/-- A client with states `C`, which may halt instead of choosing an action. -/
structure Client (C : Type y) (V : Type v) (A : Type w) (R : Type x) where
  next : C → V → Option A
  resume : C → R → C

/-- Why a run is over. -/
inductive Ending
  | outOfSteps | halted | givenUp
deriving DecidableEq

/-- The actions of a run with their answers, why it is over, and the states at its end. -/
structure ServiceRun (C : Type y) (S : Type u) (A : Type w) (R : Type x) where
  trace : List (A × R)
  ending : Ending
  client : C
  state : S

namespace Service

variable {S S' : Type u} {C : Type y} {V : Type v} {A : Type w} {R : Type x}

/-- A run of at most `n` actions. -/
def run (m : Service S V A R) (p : Client C V A R) : Nat → C → S → ServiceRun C S A R
  | 0, c, s => ⟨[], .outOfSteps, c, s⟩
  | n + 1, c, s =>
      match p.next c (m.view s) with
      | none => ⟨[], .halted, c, s⟩
      | some a =>
          match m.step s a with
          | none => ⟨[], .givenUp, c, s⟩
          | some (r, s') =>
              let t := m.run p n (p.resume c r) s'
              { t with trace := (a, r) :: t.trace }

section Equations

variable {m : Service S V A R} {p : Client C V A R} {n : Nat} {c : C} {s : S} {a : A}

theorem run_of_halted (hnext : p.next c (m.view s) = none) :
    m.run p (n + 1) c s = ⟨[], .halted, c, s⟩ := by
  rw [run, hnext]

theorem run_of_givenUp (hnext : p.next c (m.view s) = some a) (hstep : m.step s a = none) :
    m.run p (n + 1) c s = ⟨[], .givenUp, c, s⟩ := by
  simp only [run, hnext, hstep]

theorem run_of_answered {r : R} {s' : S}
    (hnext : p.next c (m.view s) = some a) (hstep : m.step s a = some (r, s')) :
    m.run p (n + 1) c s =
      { m.run p n (p.resume c r) s' with
        trace := (a, r) :: (m.run p n (p.resume c r) s').trace } := by
  simp only [run, hnext, hstep]

end Equations

/-! ## From one state to another -/

/-- In `n` actions the client comes from `c` to `c'`, and the service from `s` to `s'`. -/
inductive Reaches (m : Service S V A R) (p : Client C V A R) : Nat → C → S → C → S → Prop
  | refl (c : C) (s : S) : Reaches m p 0 c s c s
  | step {n : Nat} {c c' : C} {s s₁ s' : S} {a : A} {r : R}
      (hnext : p.next c (m.view s) = some a) (hstep : m.step s a = some (r, s₁))
      (hrest : Reaches m p n (p.resume c r) s₁ c' s') :
      Reaches m p (n + 1) c s c' s'

namespace Reaches

variable {m : Service S V A R} {p : Client C V A R} {n k : Nat} {c c' c'' : C} {s s' s'' : S}

theorem one {a : A} {r : R} (hnext : p.next c (m.view s) = some a)
    (hstep : m.step s a = some (r, s')) : Reaches m p 1 c s (p.resume c r) s' :=
  .step hnext hstep (.refl _ _)

theorem trans (h : Reaches m p n c s c' s') (h' : Reaches m p k c' s' c'' s'') :
    Reaches m p (n + k) c s c'' s'' := by
  induction h with
  | refl =>
      rwa [Nat.zero_add]
  | step hnext hstep _ ih =>
      rw [Nat.add_right_comm]
      exact .step hnext hstep (ih h')

/-- A run that gets where the client halts. -/
theorem run_halted (h : Reaches m p n c s c' s') (hhalt : p.next c' (m.view s') = none)
    (hk : n < k) :
    (m.run p k c s).ending = .halted ∧ (m.run p k c s).client = c' ∧
      (m.run p k c s).state = s' := by
  induction h generalizing k with
  | refl =>
      obtain ⟨k, rfl⟩ : ∃ j, k = j + 1 := ⟨k - 1, by omega⟩
      rw [run_of_halted hhalt]
      exact ⟨rfl, rfl, rfl⟩
  | step hnext hstep _ ih =>
      obtain ⟨k, rfl⟩ : ∃ j, k = j + 1 := ⟨k - 1, by omega⟩
      rw [run_of_answered hnext hstep]
      exact ih hhalt (by omega)

end Reaches

/-! ## Simulation -/

/-- `m` simulates `m'`: in related states both show the same, and where `m'` answers, `m`
gives the same answer. -/
structure Simulates
    (m : Service S V A R) (m' : Service S' V A R) (rel : S → S' → Prop) : Prop where
  view : ∀ s s', rel s s' → m.view s = m'.view s'
  step : ∀ s s' a r t', rel s s' → m'.step s' a = some (r, t') →
    ∃ t, m.step s a = some (r, t) ∧ rel t t'

/-- Two runs that a client cannot tell apart, in related states at the end. -/
structure SameRun (rel : S → S' → Prop) (t : ServiceRun C S A R) (t' : ServiceRun C S' A R) :
    Prop where
  trace : t.trace = t'.trace
  ending : t.ending = t'.ending
  client : t.client = t'.client
  state : rel t.state t'.state

/-- **Simulation of runs.**  A client that the simulated service does not give up runs in
the same way on the other one. -/
theorem Simulates.run
    {m : Service S V A R} {m' : Service S' V A R} {rel : S → S' → Prop}
    (h : Simulates m m' rel) (p : Client C V A R) :
    ∀ (n : Nat) (c : C) (s : S) (s' : S'), rel s s' →
      (m'.run p n c s').ending ≠ .givenUp →
      SameRun rel (m.run p n c s) (m'.run p n c s')
  | 0, _, _, _, hrel, _ => ⟨rfl, rfl, rfl, hrel⟩
  | n + 1, c, s, s', hrel, hend => by
      have hview := h.view s s' hrel
      cases hnext : p.next c (m'.view s') with
      | none =>
          rw [run_of_halted hnext, run_of_halted (hview ▸ hnext)]
          exact ⟨rfl, rfl, rfl, hrel⟩
      | some a =>
          cases hstep : m'.step s' a with
          | none =>
              rw [run_of_givenUp hnext hstep] at hend
              exact absurd rfl hend
          | some q =>
              obtain ⟨r, t'⟩ := q
              obtain ⟨t, ht, hrel'⟩ := h.step s s' a r t' hrel hstep
              rw [run_of_answered hnext hstep] at hend ⊢
              rw [run_of_answered (hview ▸ hnext) ht]
              have hrest := h.run p n (p.resume c r) t t' hrel' hend
              exact ⟨congrArg ((a, r) :: ·) hrest.trace, hrest.ending, hrest.client,
                hrest.state⟩

end Service
end Hvexec
