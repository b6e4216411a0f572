/-!
# Rounds: loops that run until one node is left

A round may fault, and it has to leave fewer nodes than it found. A loop is judged by its round
alone: where a round takes every state of an invariant to a smaller one (`Sustains`), no round of
the loop faults, all states that it passes have the invariant, and it ends with one node.
-/
namespace Merkle.Checked

/-- What stops a run before its end. -/
inductive Fault where
  /-- An index that is not below the length. -/
  | index
  /-- A shift by as much as the width of its type, or by more. -/
  | shift
  /-- A sum or a difference that its type cannot hold. -/
  | overflow
  /-- The logarithm of zero. -/
  | zeroCount
  /-- A round that leaves as many nodes as it found. -/
  | stalled
  deriving DecidableEq, Repr

variable {σ : Type} (size : σ → Nat) (round : σ → Except Fault σ)

/-- Rounds as long as there is more than one node. -/
def rounds (state : σ) : Except Fault σ :=
  if 1 < size state then
    match round state with
    | .error fault => .error fault
    | .ok next => if _ : size next < size state then rounds next else .error .stalled
  else .ok state
termination_by size state

/-- The states that the loop passes, its first and its last one among them. -/
inductive Reached (start : σ) : σ → Prop
  | start : Reached start start
  | round {state next : σ} (reached : Reached start state) (many : 1 < size state)
      (done : round state = .ok next) : Reached start next

/-- From every state that the loop passes a round leads to a smaller one, without a fault, until one
node is left. -/
structure Settles (start : σ) : Prop where
  shorter : ∀ state, Reached size round start state → 1 < size state →
    ∃ next, round state = .ok next ∧ size next < size state
  single : ∃ last, Reached size round start last ∧ rounds size round start = .ok last ∧
    size last = 1

/-- A round takes every state with the invariant to a smaller one, and none is without a node. -/
structure Sustains (Inv : σ → Prop) : Prop where
  occupied : ∀ state, Inv state → 0 < size state
  step : ∀ state, Inv state → 1 < size state →
    ∃ next, round state = .ok next ∧ Inv next ∧ size next < size state

variable {size round} {Inv : σ → Prop} {start state next last : σ}

theorem rounds_done (single : size state = 1) : rounds size round state = .ok state := by
  rw [rounds, if_neg (by omega)]

theorem rounds_next (many : 1 < size state) (done : round state = .ok next)
    (shorter : size next < size state) :
    rounds size round state = rounds size round next := by
  rw [rounds, if_pos many, done]
  exact dif_pos shorter

theorem Reached.of_next (many : 1 < size state) (done : round state = .ok next)
    (reached : Reached size round next last) : Reached size round state last := by
  induction reached with
  | start => exact .round .start many done
  | round _ many' done' ih => exact .round ih many' done'

namespace Sustains

variable (sustains : Sustains size round Inv)
include sustains

theorem reached (inv : Inv start) (reached : Reached size round start state) : Inv state := by
  induction reached with
  | start => exact inv
  | round _ many done ih =>
    obtain ⟨next, done', inv', -⟩ := sustains.step _ ih many
    rw [done] at done'
    cases done'
    exact inv'

/-- By induction on the nodes that are left. -/
theorem ends (inv : Inv start) :
    ∃ last, Reached size round start last ∧ rounds size round start = .ok last ∧ Inv last ∧
      size last = 1 := by
  induction nodes : size start using Nat.strongRecOn generalizing start with
  | _ nodes ih =>
    have occupied := sustains.occupied start inv
    by_cases many : 1 < size start
    · obtain ⟨next, done, inv', shorter⟩ := sustains.step start inv many
      obtain ⟨last, passed, ended, invLast, single⟩ := ih (size next) (by omega) inv' rfl
      exact ⟨last, passed.of_next many done, by rw [rounds_next many done shorter, ended], invLast,
        single⟩
    · have single : size start = 1 := by omega
      exact ⟨start, .start, rounds_done single, inv, single⟩

theorem settles (inv : Inv start) : Settles size round start where
  shorter state passed many := by
    obtain ⟨next, done, -, shorter⟩ := sustains.step state (sustains.reached inv passed) many
    exact ⟨next, done, shorter⟩
  single := by
    obtain ⟨last, passed, ended, -, single⟩ := sustains.ends inv
    exact ⟨last, passed, ended, single⟩

end Sustains
end Merkle.Checked
