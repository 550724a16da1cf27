/-! Doubles by their bits.

Arithmetic does not tell one NaN from another. A double that is kept and shown as it was
given is kept by its bits; it has decidable equality, which `Float` has not. -/
namespace TableClient

/-- A double by its bits. -/
structure Double where
  bits : UInt64
deriving DecidableEq

namespace Double

/-- The bits of a double. -/
def ofFloat (x : Float) : Double := ⟨x.toBits⟩

/-- The double of the bits. -/
def toFloat (d : Double) : Float := .ofBits d.bits

/-- The double with its sign set. -/
def negated (d : Double) : Double := ⟨d.bits ||| 0x8000000000000000⟩

end Double

end TableClient
