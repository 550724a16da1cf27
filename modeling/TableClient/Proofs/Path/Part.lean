import TableClient.Proofs.Grammar.Path

/-! How the parts of a path are read.

The points of a text split it into parts (`parts_eq_splitOn`). A part that has nothing behind its
name but indices in brackets (`IsIndices`) is read as the name and the indices, any other as a
name. That is decided by what stands behind the name alone (`indices?_eq_some_iff`), so a part
that is written anew from what was read is read as the same (`partSegments_append_brackets`). -/
namespace TableClient

namespace Number

/-- One decimal digit or more, which write a number. -/
structure IsDigits (digits : List Char) (n : Nat) : Prop where
  some : digits ≠ []
  decimal : ∀ c ∈ digits, c.isDigit = true
  value : Nat.ofDigitChars 10 digits 0 = n

/-- Digits, with or without a plus sign before them. -/
inductive IsDecimal : List Char → Nat → Prop where
  | plain {digits : List Char} {n : Nat} (h : IsDigits digits n) : IsDecimal digits n
  | plus {digits : List Char} {n : Nat} (h : IsDigits digits n) : IsDecimal ('+' :: digits) n

theorem isDigit_of_digitValue? {c : Char} {value : Nat} (h : digitValue? c = some value) :
    c.isDigit = true := by
  unfold digitValue? at h
  split at h
  · next range =>
    simp only [Char.isDigit, Bool.and_eq_true, decide_eq_true_eq]
    exact range
  · cases h

theorem isDigit_of_ofDigitsFrom {digits : List Char} {acc n : Nat}
    (h : ofDigitsFrom acc digits = some n) : ∀ c ∈ digits, c.isDigit = true := by
  induction digits generalizing acc with
  | nil => exact nofun
  | cons c rest ih =>
    obtain ⟨value, digit, later⟩ := Option.bind_eq_some_iff.1 h
    exact List.forall_mem_cons.2 ⟨isDigit_of_digitValue? digit, ih later⟩

theorem ofDigits?_eq_some_iff {digits : List Char} {n : Nat} :
    ofDigits? digits = some n ↔ IsDigits digits n := by
  cases digits with
  | nil => exact ⟨nofun, fun h => absurd rfl h.some⟩
  | cons c rest =>
    show ofDigitsFrom 0 (c :: rest) = some n ↔ _
    constructor
    · intro h
      have decimal := isDigit_of_ofDigitsFrom h
      rw [ofDigitsFrom_eq decimal, Option.some.injEq] at h
      exact ⟨List.cons_ne_nil c rest, decimal, h⟩
    · intro h
      rw [ofDigitsFrom_eq h.decimal, h.value]

theorem readUpTo_eq_some_iff {largest n : Nat} {chars : List Char} :
    readUpTo largest chars = some n ↔ IsDecimal chars n ∧ n ≤ largest := by
  have bounded (digits : List Char) :
      (do let n ← ofDigits? digits; if n ≤ largest then some n else none) = some n ↔
        IsDigits digits n ∧ n ≤ largest := by
    rw [Option.bind_eq_bind, Option.bind_eq_some_iff]
    simp only [ofDigits?_eq_some_iff, Option.ite_none_right_eq_some, Option.some.injEq]
    constructor
    · rintro ⟨m, digits, small, rfl⟩
      exact ⟨digits, small⟩
    · intro ⟨digits, small⟩
      exact ⟨n, digits, small, rfl⟩
  unfold readUpTo
  split
  · next rest =>
    rw [bounded]
    refine and_congr_left fun _ => ⟨.plus, fun h => ?_⟩
    cases h with
    | plus h => exact h
    | plain h => exact absurd (h.decimal '+' List.mem_cons_self) (by decide)
  · next unsigned =>
    rw [bounded]
    refine and_congr_left fun _ => ⟨.plain, fun h => ?_⟩
    cases h with
    | plus h => exact absurd rfl (unsigned _)
    | plain h => exact h

/-- The digits of a number write it. -/
theorem isDigits_toString (n : Nat) : IsDigits (toString n).toList n := by
  have shape : (toString n).toList = Nat.toDigits 10 n := Nat.toList_repr
  rw [shape, ← ofDigits?_eq_some_iff]
  exact ofDigits?_toDigits n

/-- What writes a number has none of the characters that delimit an index. -/
theorem IsDecimal.not_mem {chars : List Char} {n : Nat} (h : IsDecimal chars n) {c : Char}
    (other : c.isDigit = false) (sign : c ≠ '+') : c ∉ chars := by
  intro member
  cases h with
  | plain h => exact absurd (h.decimal c member) (by simp [other])
  | plus h =>
    rcases List.mem_cons.1 member with rfl | member
    · exact sign rfl
    · exact absurd (h.decimal c member) (by simp [other])

end Number

namespace Path

/-! ### Parts -/

/-- The points split a text into its parts. -/
theorem parts_eq_splitOn (chars : List Char) : parts chars = chars.splitOn '.' := by
  induction chars with
  | nil => rw [List.splitOn_nil, parts]
  | cons c rest ih =>
    rw [List.splitOn_cons_eq_if_modifyHead, ← ih, parts]
    by_cases point : c = '.'
    · simp [point]
    · rw [if_neg point, if_neg (by simpa using point)]
      cases shape : parts rest with
      | nil => exact absurd (ih.symm.trans shape) (List.splitOn_ne_nil _ _)
      | cons part others => rfl

theorem parts_ne_nil (chars : List Char) : parts chars ≠ [] := by
  rw [parts_eq_splitOn]
  exact List.splitOn_ne_nil _ _

/-- Parts joined by points again are the text. -/
theorem intercalate_parts (chars : List Char) : ['.'].intercalate (parts chars) = chars := by
  rw [parts_eq_splitOn]
  exact List.intercalate_splitOn '.'

/-- Parts without points are the parts of what they are joined to. -/
theorem parts_intercalate {ps : List (List Char)} (plain : ∀ part ∈ ps, '.' ∉ part)
    (some : ps ≠ []) : parts (['.'].intercalate ps) = ps := by
  rw [parts_eq_splitOn]
  exact List.splitOn_intercalate '.' plain some

/-- The first part of a text is what stands before its first point. -/
theorem parts_append_point {first : List Char} (plain : '.' ∉ first) (rest : List Char) :
    parts (first ++ '.' :: rest) = first :: parts rest := by
  have alone : first.splitOnP (· == '.') = [first] := by
    refine List.splitOnP_eq_singleton fun c member => ?_
    rw [beq_eq_false_iff_ne]
    rintro rfl
    exact plain member
  have split := List.splitOnP_append_cons (p := (· == '.')) first rest (beq_self_eq_true '.')
  rw [parts_eq_splitOn, parts_eq_splitOn, List.splitOn_eq_splitOnP, List.splitOn_eq_splitOnP,
    split, alone]
  rfl

/-- There are no points in a part. -/
theorem point_not_mem_of_mem_parts {chars part : List Char} (h : part ∈ parts chars) :
    '.' ∉ part := by
  induction chars generalizing part with
  | nil => simp_all [parts]
  | cons c rest ih =>
    unfold parts at h
    split at h
    · rcases List.mem_cons.1 h with rfl | h
      · exact List.not_mem_nil
      · exact ih h
    · next other =>
      split at h
      · next none => exact absurd none (parts_ne_nil rest)
      · next first others shape =>
        rw [shape] at ih
        rcases List.mem_cons.1 h with rfl | h
        · rw [List.mem_cons, not_or]
          exact ⟨Ne.symm other, ih List.mem_cons_self⟩
        · exact ih (List.mem_cons_of_mem _ h)

/-! ### Indices -/

/-- A text that is nothing but list indices, each in brackets. -/
inductive IsIndices : List Char → List Nat → Prop where
  | nil : IsIndices [] []
  | cons {chars rest : List Char} {n : Nat} {ns : List Nat} (index : Number.IsDecimal chars n)
      (small : n ≤ Number.max64) (later : IsIndices rest ns) :
      IsIndices ('[' :: (chars ++ ']' :: rest)) (n :: ns)

/-- What stands behind the first closing bracket. -/
theorem exists_of_dropWhile_eq_cons {chars after : List Char} {c : Char}
    (h : chars.dropWhile (· ≠ ']') = c :: after) :
    chars = chars.takeWhile (· ≠ ']') ++ ']' :: after := by
  have closes : c = ']' := by
    have first := List.head?_dropWhile_not (· ≠ ']') chars
    rw [h] at first
    simpa using first
  calc
    chars = chars.takeWhile (· ≠ ']') ++ chars.dropWhile (· ≠ ']') :=
      List.takeWhile_append_dropWhile.symm
    _ = chars.takeWhile (· ≠ ']') ++ ']' :: after := by rw [h, closes]

theorem isIndices_of_indices? {chars : List Char} {ns : List Nat} (h : indices? chars = some ns) :
    IsIndices chars ns := by
  fun_induction indices? chars generalizing ns with
  | case1 =>
    cases h
    exact .nil
  | case2 | case3 | case5 => cases h
  | case4 c rest opens _ after shape _ n others later index ih =>
    cases h
    obtain rfl : c = '[' := Decidable.not_not.1 opens
    rw [exists_of_dropWhile_eq_cons shape]
    obtain ⟨decimal, small⟩ := Number.readUpTo_eq_some_iff.1 index
    exact .cons decimal small (ih later)

theorem indices?_of_isIndices {chars : List Char} {ns : List Nat} (h : IsIndices chars ns) :
    indices? chars = some ns := by
  induction h with
  | nil => rw [indices?]
  | @cons chars rest n ns index small later ih =>
    have inside : ∀ c ∈ chars, decide (c ≠ ']') = true := by
      intro c member
      rw [decide_eq_true_iff]
      rintro rfl
      exact index.not_mem (by decide) (by decide) member
    have before : (chars ++ ']' :: rest).takeWhile (· ≠ ']') = chars := by
      rw [List.takeWhile_append_of_pos inside]
      simp
    have behind : (chars ++ ']' :: rest).dropWhile (· ≠ ']') = ']' :: rest := by
      rw [List.dropWhile_append_of_pos inside]
      simp
    have read := Number.readUpTo_eq_some_iff.2 ⟨index, small⟩
    unfold indices?
    dsimp only
    rw [if_neg (by decide)]
    split
    · next none => cases behind.symm.trans none
    · next after shape =>
      obtain ⟨-, rfl⟩ := List.cons.inj (behind.symm.trans shape)
      rw [before, read, ih]

theorem indices?_eq_some_iff {chars : List Char} {ns : List Nat} :
    indices? chars = some ns ↔ IsIndices chars ns :=
  ⟨isIndices_of_indices?, indices?_of_isIndices⟩

/-- No index is greater than a position can be. -/
theorem IsIndices.small {chars : List Char} {ns : List Nat} (h : IsIndices chars ns) :
    ∀ n ∈ ns, n ≤ Number.max64 := by
  induction h with
  | nil => exact nofun
  | cons index small later ih => exact List.forall_mem_cons.2 ⟨small, ih⟩

/-- There is an index wherever there is any text. -/
theorem IsIndices.eq_nil_iff {chars : List Char} {ns : List Nat} (h : IsIndices chars ns) :
    chars = [] ↔ ns = [] := by
  cases h <;> simp

/-- List indices in plain decimal, each in brackets. -/
def brackets (ns : List Nat) : List Char :=
  ns.flatMap fun n => '[' :: ((toString n).toList ++ [']'])

theorem isIndices_brackets {ns : List Nat} (small : ∀ n ∈ ns, n ≤ Number.max64) :
    IsIndices (brackets ns) ns := by
  induction ns with
  | nil => exact .nil
  | cons n rest ih =>
    obtain ⟨first, later⟩ := List.forall_mem_cons.1 small
    have shape : brackets (n :: rest) =
        '[' :: ((toString n).toList ++ ']' :: brackets rest) := by
      simp [brackets]
    rw [shape]
    exact .cons (.plain (Number.isDigits_toString n)) first (ih later)

/-! ### Names -/

/-- A part up to its first opening bracket. -/
def stem (part : List Char) : List Char := part.takeWhile (· ≠ '[')

/-- A part from its first opening bracket on. -/
def behind (part : List Char) : List Char := part.dropWhile (· ≠ '[')

theorem stem_append_behind (part : List Char) : stem part ++ behind part = part :=
  List.takeWhile_append_dropWhile

theorem bracket_not_mem_stem (part : List Char) : '[' ∉ stem part := by
  intro member
  have inside := List.all_eq_true.1 (List.all_takeWhile (p := (· ≠ '[')) (l := part)) '[' member
  simp at inside

theorem stem_append_brackets {name : List Char} (plain : '[' ∉ name) (ns : List Nat) :
    stem (name ++ brackets ns) = name := by
  have inside : ∀ c ∈ name, decide (c ≠ '[') = true := by
    intro c member
    rw [decide_eq_true_iff]
    rintro rfl
    exact plain member
  rw [stem, List.takeWhile_append_of_pos inside]
  cases ns <;> simp [brackets]

theorem behind_append_brackets {name : List Char} (plain : '[' ∉ name) (ns : List Nat) :
    behind (name ++ brackets ns) = brackets ns := by
  have whole := stem_append_behind (name ++ brackets ns)
  rw [stem_append_brackets plain] at whole
  exact List.append_cancel_left whole

/-- A part with indices behind its name is read as both, and only as the indices where a path
begins with them. -/
theorem partSegments_of_isIndices {part : List Char} {ns : List Nat}
    (h : IsIndices (behind part) ns) (start : Bool) :
    partSegments start part =
      if stem part = [] ∧ start = true ∧ ns ≠ [] then ns.map .index
      else .name (String.ofList (stem part)) :: ns.map .index := by
  have read : indices? (part.dropWhile (· ≠ '[')) = some ns := indices?_of_isIndices h
  unfold partSegments
  rw [read]
  cases ns with
  | nil => simp [stem]
  | cons n rest => simp [stem]

/-- A part with anything else behind its name is one name. -/
theorem partSegments_of_not_isIndices {part : List Char} (h : ∀ ns, ¬IsIndices (behind part) ns)
    (start : Bool) : partSegments start part = [.name (String.ofList part)] := by
  have read : indices? (part.dropWhile (· ≠ '[')) = none :=
    Option.eq_none_iff_forall_ne_some.2 fun ns found => h ns (isIndices_of_indices? found)
  unfold partSegments
  rw [read]

/-- A part whose indices are written anew is read as before. -/
theorem partSegments_append_brackets {part : List Char} {ns : List Nat}
    (h : IsIndices (behind part) ns) (start : Bool) :
    partSegments start (stem part ++ brackets ns) = partSegments start part := by
  have plain := bracket_not_mem_stem part
  have anew : IsIndices (behind (stem part ++ brackets ns)) ns := by
    rw [behind_append_brackets plain]
    exact isIndices_brackets h.small
  rw [partSegments_of_isIndices anew, partSegments_of_isIndices h, stem_append_brackets plain]

end Path

end TableClient
