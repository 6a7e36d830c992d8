import Restaking.Proofs.Entries
import Restaking.Proofs.Runs

/-!
# Any course of transitions

A stake can be asked to begin to unbond, to end by a slashing or to end by an unbonding, any number
of times and in any order. What it is asked for and cannot do leaves it as it is. Here the course of
such moves is followed from any stake, whether or not it has ever passed a check (`run_advances`).

1. One move keeps the identity (`id_after`), never goes back a phase (`phase_le_after`), and brings
   the stake to its end exactly if it is one of the two that do (`isTerminal_after`).
2. After the end nothing changes (`run_of_isTerminal`), so of all the moves that end a stake only the
   first has an effect, and those before it make no difference (`run_of_find?_ends`).
-/

namespace Restaking

/-- How far along a life a stage is: first active, then unbonding, then one of the two ends. -/
def Stage.phase : Stage → Nat
  | .active => 0
  | .unbonding => 1
  | .slashed => 2
  | .unbonded => 2

theorem Stage.phase_le (stage : Stage) : stage.phase ≤ 2 := by
  cases stage <;> decide

namespace Stake

/-! ## Moves -/

/-- A transition that a stake is asked for. -/
inductive Move where
  | beginUnbonding (signature : Bytes)
  | slash
  | unbond
  deriving DecidableEq

/-- Whether a move is one that ends a stake. -/
def Move.ends : Move → Bool
  | .beginUnbonding _ => false
  | .slash => true
  | .unbond => true

/-- What a move makes of a stake, if it is possible. -/
def move (s : Stake) : Move → Except StakingError Stake
  | .beginUnbonding signature => s.beginUnbonding signature
  | .slash => .ok s.slash
  | .unbond => .ok s.unbond

/-- The stake after a move. A move that is not possible leaves it as it is. -/
def after (s : Stake) (m : Move) : Stake :=
  match s.move m with
  | .ok t => t
  | .error _ => s

/-- The stake after moves that it is asked for one after the other. -/
def run (s : Stake) (moves : List Move) : Stake := moves.foldl after s

theorem run_cons (s : Stake) (m : Move) (moves : List Move) :
    s.run (m :: moves) = (s.after m).run moves := rfl

theorem run_append (s : Stake) (moves later : List Move) :
    s.run (moves ++ later) = (s.run moves).run later := List.foldl_append

/-! ## One move -/

theorem beginUnbonding_eq_ok {s t : Stake} {signature : Bytes} :
    s.beginUnbonding signature = .ok t ↔
      ∃ d, s = .active d ∧ signature ≠ [] ∧ t = .unbonding ⟨d, signature⟩ := by
  cases s with
  | active d =>
    unfold beginUnbonding
    by_cases h : signature = []
    · simp [h]
    · simp [h, eq_comm]
  | unbonding | slashed | unbonded => simp [beginUnbonding]

/-- A stake that is asked to begin to unbond does so from the first stage, or stays as it is. -/
theorem after_beginUnbonding (s : Stake) (signature : Bytes) :
    s.after (.beginUnbonding signature) = s ∨
      ∃ d, s = .active d ∧ s.after (.beginUnbonding signature) = .unbonding ⟨d, signature⟩ := by
  unfold after move
  dsimp only
  cases h : s.beginUnbonding signature with
  | error e => exact .inl rfl
  | ok t =>
    obtain ⟨d, rfl, _, rfl⟩ := beginUnbonding_eq_ok.1 h
    exact .inr ⟨d, rfl, rfl⟩

theorem after_slash (s : Stake) : s.after .slash = s.slash := rfl

theorem after_unbond (s : Stake) : s.after .unbond = s.unbond := rfl

theorem id_after (s : Stake) (m : Move) : (s.after m).id = s.id := by
  cases m with
  | beginUnbonding signature =>
    rcases after_beginUnbonding s signature with h | ⟨d, rfl, h⟩
    · rw [h]
    · rw [h]
      rfl
  | slash => exact (becomes_slash s).id_eq
  | unbond => exact (becomes_unbond s).id_eq

theorem isTerminal_after (s : Stake) (m : Move) :
    (s.after m).isTerminal = (s.isTerminal || m.ends) := by
  cases m with
  | beginUnbonding signature =>
    rcases after_beginUnbonding s signature with h | ⟨d, rfl, h⟩
    · rw [h, Move.ends, Bool.or_false]
    · rw [h]
      rfl
  | slash => rw [after_slash, isTerminal_slash, Move.ends, Bool.or_true]
  | unbond => rw [after_unbond, isTerminal_unbond, Move.ends, Bool.or_true]

theorem phase_of_isTerminal {s : Stake} (h : s.isTerminal = true) : s.stage.phase = 2 := by
  cases s with
  | active | unbonding => cases h
  | slashed | unbonded => rfl

theorem phase_le_after (s : Stake) (m : Move) : s.stage.phase ≤ (s.after m).stage.phase := by
  by_cases hend : (s.after m).isTerminal = true
  · rw [phase_of_isTerminal hend]
    exact s.stage.phase_le
  · rw [isTerminal_after, Bool.or_eq_true, not_or] at hend
    cases m with
    | beginUnbonding signature =>
      rcases after_beginUnbonding s signature with h | ⟨d, rfl, _⟩
      · exact Nat.le_of_eq (by rw [h])
      · exact Nat.zero_le _
    | slash | unbond => exact absurd rfl hend.2

theorem after_of_isTerminal {s : Stake} (h : s.isTerminal = true) (m : Move) : s.after m = s := by
  cases m with
  | beginUnbonding signature =>
    rcases after_beginUnbonding s signature with h' | ⟨d, rfl, _⟩
    · exact h'
    · cases h
  | slash => exact slash_of_isTerminal h
  | unbond => exact unbond_of_isTerminal h

/-- It makes no difference to the end of a stake whether it has begun to unbond before. -/
theorem after_after_of_ends {first m : Move} (hfirst : first.ends = false) (hm : m.ends = true)
    (s : Stake) : (s.after first).after m = s.after m := by
  cases first with
  | slash | unbond => cases hfirst
  | beginUnbonding signature =>
    rcases after_beginUnbonding s signature with h | ⟨d, rfl, h⟩
    · rw [h]
    · rw [h]
      cases m with
      | beginUnbonding => cases hm
      | slash | unbond => rfl

/-! ## Courses of moves -/

theorem id_run (s : Stake) (moves : List Move) : (s.run moves).id = s.id := by
  induction moves generalizing s with
  | nil => rfl
  | cons m rest ih => rw [run_cons, ih, id_after]

theorem isTerminal_run (s : Stake) (moves : List Move) :
    (s.run moves).isTerminal = (s.isTerminal || moves.any Move.ends) := by
  induction moves generalizing s with
  | nil => exact (Bool.or_false _).symm
  | cons m rest ih => rw [run_cons, ih, isTerminal_after, List.any_cons, Bool.or_assoc]

theorem run_of_isTerminal {s : Stake} (h : s.isTerminal = true) (moves : List Move) :
    s.run moves = s := by
  induction moves with
  | nil => rfl
  | cons m rest ih => rw [run_cons, after_of_isTerminal h, ih]

/-- The first move that ends a stake is the only one that counts. -/
theorem run_of_find?_ends {moves : List Move} {m : Move} (h : moves.find? Move.ends = some m)
    (s : Stake) : s.run moves = s.after m := by
  induction moves generalizing s with
  | nil => cases h
  | cons first rest ih =>
    rw [run_cons]
    cases hfirst : first.ends with
    | true =>
      rw [List.find?_cons_of_pos hfirst] at h
      obtain rfl := Option.some.inj h
      have hend : (s.after first).isTerminal = true := by
        rw [isTerminal_after, hfirst, Bool.or_true]
      exact run_of_isTerminal hend rest
    | false =>
      rw [List.find?_cons_of_neg (by simp [hfirst])] at h
      rw [ih h, after_after_of_ends hfirst (List.find?_some h)]

/-- Whatever a stake is asked for, one move after the other, it keeps its identity at every moment,
and no move leads back to an earlier phase. It begins to unbond exactly if it is active and the
signature is not empty, and then its body is unchanged and carries that signature. It has come to
its end exactly if it had so from the start or has been slashed or unbonded since; the first of
these moves decides which end it is, and after it nothing changes any more. -/
theorem run_advances (s : Stake) (moves : List Move) :
    (s.run moves).id = s.id ∧
      (∀ m, (s.run moves).stage.phase ≤ (s.run (moves ++ [m])).stage.phase) ∧
      (∀ signature t, (s.run moves).beginUnbonding signature = .ok t ↔
        ∃ d, s.run moves = .active d ∧ signature ≠ [] ∧ t = .unbonding ⟨d, signature⟩) ∧
      ((s.run moves).isTerminal = true ↔ s.isTerminal = true ∨ ∃ m ∈ moves, m.ends = true) ∧
      (s.isTerminal = false →
        (moves.find? Move.ends = some .slash → s.run moves = .slashed s.id) ∧
          (moves.find? Move.ends = some .unbond → s.run moves = .unbonded s.id)) ∧
      ((s.run moves).isTerminal = true → ∀ later, s.run (moves ++ later) = s.run moves) := by
  refine ⟨id_run s moves, fun m => ?_, fun signature t => beginUnbonding_eq_ok, ?_,
    fun live => ⟨fun h => ?_, fun h => ?_⟩, fun h later => ?_⟩
  · rw [run_append]
    exact phase_le_after (s.run moves) m
  · rw [isTerminal_run, Bool.or_eq_true, List.any_eq_true]
  · rw [run_of_find?_ends h, after_slash, slash_of_live live]
  · rw [run_of_find?_ends h, after_unbond, unbond_of_live live]
  · rw [run_append, run_of_isTerminal h]

/-- A delegation that begins to unbond at the second attempt, unbonds, and is slashed too late. -/
theorem run_advances_tooLate :
    (active Sample.admitted).isTerminal = false ∧
      (active Sample.admitted).beginUnbonding [8] = .ok (.unbonding ⟨Sample.admitted, [8]⟩) ∧
      [Move.beginUnbonding [], .beginUnbonding [8], .unbond, .slash].find? Move.ends =
        some .unbond ∧
      (active Sample.admitted).run [.beginUnbonding [], .beginUnbonding [8], .unbond, .slash] =
        .unbonded (Delegation.id Sample.admitted) ∧
      (active Sample.admitted).run
          ([.beginUnbonding [], .beginUnbonding [8], .unbond, .slash] ++ [.beginUnbonding [9]]) =
        (active Sample.admitted).run [.beginUnbonding [], .beginUnbonding [8], .unbond, .slash] := by
  obtain ⟨_, _, hbegin, _, _, _⟩ := run_advances (active Sample.admitted) []
  obtain ⟨_, _, _, hend, hfirst, hlast⟩ := run_advances (active Sample.admitted)
    [.beginUnbonding [], .beginUnbonding [8], .unbond, .slash]
  have hended := hend.2 (.inr ⟨.unbond, by decide, rfl⟩)
  exact ⟨rfl, (hbegin [8] _).2 ⟨Sample.admitted, rfl, by decide, rfl⟩, rfl, (hfirst rfl).2 rfl,
    hlast hended [.beginUnbonding [9]]⟩

end Stake

end Restaking
