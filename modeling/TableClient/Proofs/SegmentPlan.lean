import Mathlib.Algebra.Order.Floor.Div
import Mathlib.GroupTheory.GroupAction.Ring
import TableClient.Proofs.Scan

/-! A plan of segments, worked out in words.

The number of segments is one of 32 bits, a limit one of 64. Every step of the plan may then fail: a
quotient for want of a divisor, a number one greater for want of room. None does: what is divided by
is never zero, and a quotient that is rounded up has a divisor from two on, so there is room
(`Word.ceilDiv?_eq_some`). A fifth of the limit may not fit 32 bits, but what stands for it then is
still more than the most segments there can be. So the plan in words is the plan
(`exists_planned`), and its segments cover the limit without one item to spare for each
(`plan_covers`). -/
namespace TableClient

/-! ### Quotients that are rounded up -/

namespace SegmentPlan

theorem ceilDiv_eq_ceilDiv (n d : Nat) : ceilDiv n d = n ⌈/⌉ d :=
  (Nat.ceilDiv_eq_add_pred_div n d).symm

theorem le_mul_ceilDiv (n : Nat) {d : Nat} (pos : 0 < d) : n ≤ d * ceilDiv n d := by
  rw [ceilDiv_eq_ceilDiv]
  exact le_smul_ceilDiv pos

theorem mul_ceilDiv_lt (n : Nat) {d : Nat} (pos : 0 < d) : d * ceilDiv n d < n + d := by
  have floor := Nat.mul_div_le (n + d - 1) d
  unfold ceilDiv
  omega

/-- A quotient is rounded up by one if anything is left. -/
theorem ceilDiv_eq (n : Nat) {d : Nat} (pos : 0 < d) :
    ceilDiv n d = if n % d = 0 then n / d else n / d + 1 := by
  have parts := Nat.div_add_mod n d
  have rest := Nat.mod_lt n pos
  unfold ceilDiv
  split
  · refine Nat.div_eq_of_lt_le ?_ ?_ <;> rw [Nat.mul_comm]
    · omega
    · rw [Nat.mul_succ]
      omega
  · refine Nat.div_eq_of_lt_le ?_ ?_ <;> rw [Nat.mul_comm]
    · rw [Nat.mul_succ]
      omega
    · rw [Nat.mul_succ, Nat.mul_succ]
      omega

/-- The numbers of a plan with a limit: a fifth of the limit leaves a segment to ask for, and the
shares of all segments come to the limit, but not without one item of each. -/
theorem make_some (requested : Nat) {limit : Nat} (pos : 1 ≤ limit) :
    ∃ total quota, make requested (some limit) = ⟨total, some quota⟩ ∧
      total = min (max 1 (min requested mostSegments)) (limit ⌈/⌉ 5) ∧ 1 ≤ total ∧ 1 ≤ quota ∧
      limit ≤ total * quota ∧ total * (quota - 1) < limit := by
  let most := max 1 (min requested mostSegments)
  let total := max 1 (min most (ceilDiv limit 5))
  have fifth : 1 ≤ ceilDiv limit 5 := by
    have covers := le_mul_ceilDiv limit (d := 5) (by decide)
    omega
  have enough : 1 ≤ total := Nat.le_max_left ..
  have covers := le_mul_ceilDiv limit enough
  have tight := mul_ceilDiv_lt limit enough
  have share : 1 ≤ ceilDiv limit total := by
    by_contra none
    rw [show ceilDiv limit total = 0 by omega] at covers
    omega
  refine ⟨total, ceilDiv limit total, rfl, ?_, enough, share, covers, ?_⟩
  · rw [← ceilDiv_eq_ceilDiv]
    omega
  · rw [Nat.mul_sub_one]
    omega

end SegmentPlan

/-! ### Arithmetic in words -/

namespace Word

/-- A quotient and what is left, if there is something to divide by. -/
def divMod? (n d : UInt64) : Option (UInt64 × UInt64) := if d = 0 then none else some (n / d, n % d)

/-- The next number, if there is room for it. -/
def succ? (n : UInt64) : Option UInt64 := if n.toNat < Number.max64 then some (n + 1) else none

/-- A quotient, rounded up if anything is left. -/
def ceilDiv? (n d : UInt64) : Option UInt64 := do
  let (quotient, rest) ← divMod? n d
  if rest = 0 then return quotient else succ? quotient

/-- A number in 32 bits; the greatest of these for one that does not fit. -/
def narrow (n : UInt64) : UInt32 :=
  if n.toNat ≤ Number.max32 then n.toUInt32 else .ofNat Number.max32

theorem toNat_succ {n : UInt64} (room : n.toNat < Number.max64) : (n + 1).toNat = n.toNat + 1 := by
  rw [UInt64.toNat_add]
  exact Nat.mod_eq_of_lt (by simp only [Number.max64] at room; simp; omega)

/-- Rounding up fails for want of a divisor only. -/
theorem ceilDiv?_eq_some (n : UInt64) {d : UInt64} (pos : 0 < d.toNat) :
    ∃ quotient, ceilDiv? n d = some quotient ∧
      quotient.toNat = SegmentPlan.ceilDiv n.toNat d.toNat := by
  have divisor : d ≠ 0 := by
    rintro rfl
    exact absurd pos (by decide)
  have divided : divMod? n d = some (n / d, n % d) := if_neg divisor
  have exact : n % d = 0 ↔ n.toNat % d.toNat = 0 := by
    rw [← UInt64.toNat_inj, UInt64.toNat_mod]
    rfl
  rw [SegmentPlan.ceilDiv_eq _ pos, ceilDiv?, divided]
  by_cases none : n % d = 0
  · refine ⟨n / d, if_pos none, ?_⟩
    rw [if_pos (exact.1 none), UInt64.toNat_div]
  · -- nothing is left of a division by one, so the quotient is half of the greatest number at most
    have left := mt exact.2 none
    have room : (n / d).toNat < Number.max64 := by
      have several : 2 ≤ d.toNat := by
        by_contra one
        obtain single : d.toNat = 1 := by omega
        exact left (by rw [single, Nat.mod_one])
      have half : n.toNat / d.toNat ≤ n.toNat / 2 := Nat.div_le_div_left several (by decide)
      have bounded := n.toNat_lt
      rw [UInt64.toNat_div]
      simp only [Number.max64]
      omega
    have next : succ? (n / d) = some (n / d + 1) := if_pos room
    refine ⟨n / d + 1, (if_neg none).trans next, ?_⟩
    rw [if_neg left, toNat_succ room, UInt64.toNat_div]

theorem toNat_narrow (n : UInt64) : (narrow n).toNat = min n.toNat Number.max32 := by
  unfold narrow
  split
  · next fits =>
    rw [Nat.min_eq_left fits, UInt64.toNat_toUInt32]
    simp only [Number.max32] at fits
    exact Nat.mod_eq_of_lt (by omega)
  · next large =>
    rw [Nat.min_eq_right (Nat.le_of_not_le large)]
    rfl

end Word

/-! ### The plan in words -/

/-- How a scan is split, in words. -/
structure WordPlan where
  total : UInt32
  limit : Option UInt64

namespace WordPlan

/-- The most segments of a scan. -/
def mostSegments : UInt32 := .ofNat SegmentPlan.mostSegments

/-- Splits a scan, if no step of that fails. -/
def make? (requested : UInt32) (limit : Option UInt64) : Option WordPlan := do
  let most := max 1 (min requested mostSegments)
  match limit with
  | none => return ⟨most, none⟩
  | some limit =>
    let fifth ← Word.ceilDiv? limit 5
    let total := max 1 (min most (Word.narrow fifth))
    let quota ← Word.ceilDiv? limit total.toUInt64
    return ⟨total, some quota⟩

/-- What a plan in words says. -/
def plan (w : WordPlan) : SegmentPlan := ⟨w.total.toNat, w.limit.map UInt64.toNat⟩

theorem toNat_max (a b : UInt32) : (max a b).toNat = max a.toNat b.toNat := by
  show (if a ≤ b then b else a).toNat = _
  split <;> simp only [UInt32.le_iff_toNat_le] at * <;> omega

theorem toNat_min (a b : UInt32) : (min a b).toNat = min a.toNat b.toNat := by
  show (if a ≤ b then a else b).toNat = _
  split <;> simp only [UInt32.le_iff_toNat_le] at * <;> omega

theorem toNat_most (requested : UInt32) :
    (max 1 (min requested mostSegments)).toNat =
      max 1 (min requested.toNat SegmentPlan.mostSegments) := by
  rw [toNat_max, toNat_min]
  rfl

/-- No step of a plan fails, and none comes to anything but what it comes to in numbers without
bounds. -/
theorem exists_planned (requested : UInt32) (limit : Option UInt64) :
    ∃ w, make? requested limit = some w ∧
      w.plan = SegmentPlan.make requested.toNat (limit.map UInt64.toNat) := by
  cases limit with
  | none =>
    refine ⟨_, rfl, ?_⟩
    rw [plan, toNat_most]
    rfl
  | some limit =>
    obtain ⟨fifth, hfifth, fifthOf⟩ := Word.ceilDiv?_eq_some limit (d := 5) (by decide)
    let total := max 1 (min (max 1 (min requested mostSegments)) (Word.narrow fifth))
    -- what does not fit 32 bits is more than the most segments, and so is what stands for it
    have totalOf : total.toNat =
        max 1 (min (max 1 (min requested.toNat SegmentPlan.mostSegments))
          (SegmentPlan.ceilDiv limit.toNat 5)) := by
      have less : SegmentPlan.mostSegments ≤ Number.max32 := by decide
      have one : (1 : UInt32).toNat = 1 := rfl
      have five : (5 : UInt64).toNat = 5 := rfl
      rw [five] at fifthOf
      rw [toNat_max, toNat_min, toNat_most, Word.toNat_narrow, fifthOf, one]
      omega
    obtain ⟨quota, hquota, quotaOf⟩ :=
      Word.ceilDiv?_eq_some limit (d := total.toUInt64) (by
        rw [UInt32.toNat_toUInt64, totalOf]
        omega)
    refine ⟨⟨total, some quota⟩, ?_, ?_⟩
    · rw [make?]
      simp only [hfifth, Option.bind_eq_bind, Option.bind_some]
      rw [hquota]
      rfl
    · simp only [plan, SegmentPlan.make, Option.map_some, totalOf, quotaOf, UInt32.toNat_toUInt64]

/-- **A plan covers the limit without overshoot.** No step of a plan fails in words, and its numbers
are those of the plan. Without a limit there are as many segments as asked for, within bounds; with
one there are no more than a fifth of it, rounded up. The shares of the segments come to the limit
or more, and with one item less each they would not. -/
theorem plan_covers (requested : UInt32) :
    (∃ total : UInt32, make? requested none = some ⟨total, none⟩ ∧
      SegmentPlan.make requested.toNat none = ⟨total.toNat, none⟩ ∧
      total.toNat = max 1 (min requested.toNat SegmentPlan.mostSegments)) ∧
    ∀ limit : UInt64, 1 ≤ limit.toNat →
      ∃ (total : UInt32) (quota : UInt64), make? requested (some limit) = some ⟨total, some quota⟩ ∧
        SegmentPlan.make requested.toNat (some limit.toNat) = ⟨total.toNat, some quota.toNat⟩ ∧
        total.toNat =
          min (max 1 (min requested.toNat SegmentPlan.mostSegments)) (limit.toNat ⌈/⌉ 5) ∧
        1 ≤ total.toNat ∧ 1 ≤ quota.toNat ∧ limit.toNat ≤ total.toNat * quota.toNat ∧
        total.toNat * (quota.toNat - 1) < limit.toNat := by
  constructor
  · exact ⟨_, rfl, congrArg (SegmentPlan.mk · none) (toNat_most requested).symm,
      toNat_most requested⟩
  · intro limit pos
    obtain ⟨⟨total, share⟩, made, planned⟩ := exists_planned requested (some limit)
    obtain ⟨total', quota', numbers, bounds⟩ := SegmentPlan.make_some requested.toNat pos
    rw [Option.map_some, numbers] at planned
    obtain ⟨rfl, same⟩ := SegmentPlan.mk.inj planned
    obtain ⟨quota, rfl, rfl⟩ := Option.map_eq_some_iff.1 same
    exact ⟨total, quota, made, numbers, bounds⟩

/-- The greatest limit there is, and as many segments as can be asked for. -/
theorem plan_covers_greatest :
    let limit : UInt64 := 18446744073709551615
    1 ≤ limit.toNat ∧ make? 4294967295 (some limit) = some ⟨1000000, some 18446744073710⟩ ∧
      limit.toNat ≤ 1000000 * 18446744073710 ∧ 1000000 * (18446744073710 - 1) < limit.toNat := by
  intro limit
  have pos : 1 ≤ limit.toNat := by decide
  obtain ⟨total, quota, made, numbers, -, -, -, covers, tight⟩ :=
    (plan_covers 4294967295).2 limit pos
  have worked : SegmentPlan.make 4294967295 (some limit.toNat) =
      ⟨1000000, some 18446744073710⟩ := by
    decide +kernel
  obtain ⟨totalOf, quotaOf⟩ := SegmentPlan.mk.inj (numbers.symm.trans worked)
  obtain rfl : total = 1000000 := UInt32.toNat_inj.1 totalOf
  obtain rfl : quota = 18446744073710 := UInt64.toNat_inj.1 (Option.some.inj quotaOf)
  exact ⟨pos, made, covers, tight⟩

end WordPlan

end TableClient
