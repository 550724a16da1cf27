import TableClient.Page
import TableClient.Service.Failure

/-! Calls that are ready to be made, and the numbers in them. -/
namespace TableClient

/-- A request that passed all checks, with what its execution has to know. -/
structure Pending (ρ : Type) where
  request : ρ
  paging : Paging := {}
  /-- The segments into which a scan is to be split. -/
  segments : Option Nat := none

/-- A number as the store takes it: one that does not fit 32 bits with a sign stands for the
greatest that does. -/
def wireNumber (n : Nat) : Int32 := Int32.ofNat (min n Number.maxSigned32)

/-- Checks that a limit lets something through. -/
def wireLimit : Option Nat → Outcome (Option Int32)
  | none => .ok none
  | some 0 => .error (.rejected .zeroLimit)
  | some limit => .ok (some (wireNumber limit))

end TableClient
