import Mathlib.Algebra.Group.Nat.Defs
import TableClient.Settings

/-! Delays between attempts grow by the factor, up to two bounds.

The multiplier of a delay is a power of the factor up to the greatest number of 32 bits
(`cappedPow_eq_min`), and the product of the least delay and the multiplier stops at the longest
duration. The greatest delay is a duration, so that second bound never shows. The first one does
where the greatest delay is longer than the least delay times the greatest multiplier, and nowhere
else (`nanos_delayAfter_eq_exact_iff`): a policy that begins with a nanosecond stops growing after
four seconds (`delayAfter_outgrown`). -/
namespace TableClient

/-! ### The arithmetic of durations -/

namespace Duration

theorem nanos_times (d : Duration) (n : Nat) : (d.times n).nanos = min (d.nanos * n) longest := rfl

theorem nanos_shorter (a b : Duration) : (a.shorter b).nanos = min a.nanos b.nanos := by
  unfold shorter
  split
  · next le => exact (Nat.min_eq_left le).symm
  · next gt => exact (Nat.min_eq_right (Nat.le_of_not_le gt)).symm

end Duration

namespace Backoff

/-! ### The multiplier -/

/-- A base from two on has passed 32 bits at the exponent at which its power is not worked out. -/
theorem max32_le_pow {base exponent : Nat} (grows : 2 ≤ base) (large : 32 ≤ exponent) :
    Number.max32 ≤ base ^ exponent :=
  calc
    Number.max32 ≤ 2 ^ 32 := by decide
    _ ≤ base ^ 32 := Nat.pow_le_pow_left grows 32
    _ ≤ base ^ exponent := Nat.pow_le_pow_right (by omega) large

theorem cappedPow_eq_min (base exponent : Nat) :
    cappedPow base exponent = min (base ^ exponent) Number.max32 := by
  unfold cappedPow
  split
  · next zero =>
    subst zero
    cases exponent with
    | zero => rfl
    | succ n => simp
  split
  · next one =>
    subst one
    rw [Nat.one_pow]
    rfl
  split
  · next large => exact (Nat.min_eq_right (max32_le_pow (by omega) large)).symm
  · rfl

/-! ### The delay -/

/-- The nanoseconds of the delay after an attempt in exact arithmetic. -/
def exactNanos (b : Backoff) (attempt : Nat) : Nat :=
  min b.maxDelay.nanos (b.minDelay.nanos * b.factor ^ (attempt - 1))

variable (b : Backoff)

/-- Of the two bounds only that of the multiplier shows. -/
theorem nanos_delayAfter (attempt : Nat) :
    (b.delayAfter attempt).nanos =
      min b.maxDelay.nanos
        (b.minDelay.nanos * min (b.factor ^ (attempt - 1)) Number.max32) := by
  have bounded := b.maxDelay.nanos_le
  rw [delayAfter, Duration.nanos_shorter, Duration.nanos_times, cappedPow_eq_min]
  omega

/-- The delay is exact as long as the power fits 32 bits. Where it does not, the greatest multiplier
has to do: the delay is exact if that reaches the greatest delay, or if nothing is multiplied. -/
theorem nanos_delayAfter_eq_exact_iff (attempt : Nat) :
    (b.delayAfter attempt).nanos = b.exactNanos attempt ↔
      b.factor ^ (attempt - 1) ≤ Number.max32 ∨ b.minDelay.nanos = 0 ∨
        b.maxDelay.nanos ≤ b.minDelay.nanos * Number.max32 := by
  rw [nanos_delayAfter, exactNanos]
  by_cases fits : b.factor ^ (attempt - 1) ≤ Number.max32
  · rw [Nat.min_eq_left fits]
    exact ⟨fun _ => .inl fits, fun _ => rfl⟩
  · have passed : Number.max32 < b.factor ^ (attempt - 1) := Nat.lt_of_not_le fits
    rw [Nat.min_eq_right (Nat.le_of_lt passed), or_iff_right fits]
    rcases Nat.eq_zero_or_pos b.minDelay.nanos with zero | pos
    · simp [zero]
    · have less := Nat.mul_lt_mul_of_pos_left passed pos
      omega

/-- A factor from one on makes no delay shorter than the one before. -/
theorem nanos_delayAfter_le {m n : Nat} (growing : 1 ≤ b.factor) (later : m ≤ n) :
    (b.delayAfter m).nanos ≤ (b.delayAfter n).nanos := by
  have power : b.factor ^ (m - 1) ≤ b.factor ^ (n - 1) :=
    Nat.pow_le_pow_right growing (Nat.sub_le_sub_right later 1)
  have multiplier : min (b.factor ^ (m - 1)) Number.max32 ≤
      min (b.factor ^ (n - 1)) Number.max32 := by
    omega
  have product := Nat.mul_le_mul_left b.minDelay.nanos multiplier
  rw [nanos_delayAfter, nanos_delayAfter]
  omega

/-- **Delays grow by the factor, up to two bounds.** The delay after an attempt is the product of
the least delay and the power of the factor, which counts up to the greatest number of 32 bits, but
no more than the greatest delay. So it is the exact one as long as the power fits 32 bits, and
beyond that if the greatest multiplier reaches the greatest delay or nothing is multiplied. No delay
is shorter than the one before, and where the exact product reaches the greatest delay, so does the
delay, under the same condition. -/
theorem delayAfter_grows {b : Backoff} (growing : 1 ≤ b.factor) :
    (∀ n, (b.delayAfter n).nanos =
      min b.maxDelay.nanos (b.minDelay.nanos * min (b.factor ^ (n - 1)) Number.max32)) ∧
    (∀ n, (b.delayAfter n).nanos = b.exactNanos n ↔
      b.factor ^ (n - 1) ≤ Number.max32 ∨ b.minDelay.nanos = 0 ∨
        b.maxDelay.nanos ≤ b.minDelay.nanos * Number.max32) ∧
    (∀ m n, m ≤ n → (b.delayAfter m).nanos ≤ (b.delayAfter n).nanos) ∧
    ∀ n, b.maxDelay.nanos ≤ b.minDelay.nanos * b.factor ^ (n - 1) →
      ((b.delayAfter n).nanos = b.maxDelay.nanos ↔
        b.factor ^ (n - 1) ≤ Number.max32 ∨
          b.maxDelay.nanos ≤ b.minDelay.nanos * Number.max32) := by
  refine ⟨b.nanos_delayAfter, b.nanos_delayAfter_eq_exact_iff,
    fun m n => b.nanos_delayAfter_le growing, fun n reached => ?_⟩
  have exact : b.exactNanos n = b.maxDelay.nanos := Nat.min_eq_left reached
  rw [← exact, nanos_delayAfter_eq_exact_iff, exact]
  -- a product of nothing reaches no greatest delay but that of nothing
  refine or_congr_right (or_iff_right_of_imp fun zero => ?_)
  simpa [zero] using reached

/-- After the last attempt at which the power of two fits 32 bits, the delay that begins with a
nanosecond is exact, and it grows once more. -/
theorem delayAfter_grows_nanosecond :
    let b : Backoff := { minDelay := .ofNanos 1 }
    1 ≤ b.factor ∧ (b.delayAfter 32).nanos = b.exactNanos 32 ∧ b.exactNanos 32 = 2147483648 ∧
      (b.delayAfter 32).nanos ≤ (b.delayAfter 33).nanos ∧
      (b.delayAfter 33).nanos = 4294967295 := by
  intro b
  obtain ⟨product, exact, grows, -⟩ := delayAfter_grows (b := b) (by decide)
  refine ⟨by decide, (exact 32).2 (.inl (by decide +kernel)), by decide +kernel,
    grows 32 33 (by decide), ?_⟩
  rw [product]
  decide +kernel

/-- The exact delay of a policy that begins with a nanosecond reaches five seconds after 34
attempts. The delay stays where the multiplier stops, at less than that. -/
theorem delayAfter_outgrown :
    let b : Backoff := { minDelay := .ofNanos 1 }
    1 ≤ b.factor ∧ b.maxDelay = .ofSeconds 5 0 ∧
      b.maxDelay.nanos ≤ b.minDelay.nanos * b.factor ^ (34 - 1) ∧
      b.exactNanos 34 = 5000000000 ∧ (b.delayAfter 34).nanos = 4294967295 ∧
      (b.delayAfter 34).nanos ≠ b.exactNanos 34 := by
  decide +kernel

end Backoff

end TableClient
