/-! Text out of bytes that may not be UTF-8.

`lossy` reads every well-formed sequence as its character and puts one replacement
character for each maximal part that begins a sequence but does not complete it. -/
namespace TableClient.Text

/-- Stands for bytes that are no text. -/
def replacement : Char := '\uFFFD'

/-- What may follow a lead byte: the bits it contributes, the range of the second byte and
the number of bytes still to come. `none` for a byte that begins no sequence. -/
def leadByte (b : UInt8) : Option (Nat × UInt8 × UInt8 × Nat) :=
  let n := b.toNat
  if n < 0x80 then some (n, 0x80, 0xBF, 0)
  else if n < 0xC2 then none
  else if n < 0xE0 then some (n % 32, 0x80, 0xBF, 1)
  else if n = 0xE0 then some (n % 16, 0xA0, 0xBF, 2)
  else if n = 0xED then some (n % 16, 0x80, 0x9F, 2)
  else if n < 0xF0 then some (n % 16, 0x80, 0xBF, 2)
  else if n = 0xF0 then some (n % 8, 0x90, 0xBF, 3)
  else if n < 0xF4 then some (n % 8, 0x80, 0xBF, 3)
  else if n = 0xF4 then some (n % 8, 0x80, 0x8F, 3)
  else none

/-- Reads the bytes that complete a sequence; the first that does not fit ends it. -/
def continuation (bits : Nat) (low high : UInt8) : Nat → List UInt8 → Char × List UInt8
  | 0, rest => (Char.ofNat bits, rest)
  | _ + 1, [] => (replacement, [])
  | more + 1, b :: rest =>
    if low ≤ b ∧ b ≤ high then continuation (bits * 64 + b.toNat % 64) 0x80 0xBF more rest
    else (replacement, b :: rest)

theorem continuation_length_le (bits : Nat) (low high : UInt8) (more : Nat) (bytes : List UInt8) :
    (continuation bits low high more bytes).2.length ≤ bytes.length := by
  induction more generalizing bits low high bytes with
  | zero => simp [continuation]
  | succ more ih =>
    cases bytes with
    | nil => simp [continuation]
    | cons b rest =>
      unfold continuation
      split
      · exact Nat.le_trans (ih ..) (by simp)
      · simp

/-- The characters of a byte sequence, with one replacement for each ill-formed part. -/
def lossyChars : List UInt8 → List Char
  | [] => []
  | b :: rest =>
    match leadByte b with
    | none => replacement :: lossyChars rest
    | some (bits, low, high, more) =>
      let read := continuation bits low high more rest
      have : read.2.length < (b :: rest).length :=
        Nat.lt_succ_of_le (continuation_length_le bits low high more rest)
      read.1 :: lossyChars read.2
termination_by bytes => bytes.length
decreasing_by
  · simp
  · exact this

/-- The text of a byte sequence, with one replacement for each ill-formed part. -/
def lossy (bytes : List UInt8) : String :=
  String.ofList (lossyChars bytes)

/-- The text of a byte sequence that is well-formed UTF-8. -/
def ofUtf8? (bytes : List UInt8) : Option String :=
  String.fromUTF8? ⟨bytes.toArray⟩

/-- The UTF-8 form of a text. -/
def toUtf8 (text : String) : List UInt8 :=
  text.toByteArray.toList

end TableClient.Text
