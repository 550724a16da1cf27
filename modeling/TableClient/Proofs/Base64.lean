import TableClient.Base64

/-! Reading base64 takes back writing it.

Digits stand for the numbers below 64, one each (`value?_eq_some_iff`), and a group of digits is
read as bytes exactly if these bytes are written so. Hence a text is read as some bytes exactly if
it is what they are written as (`decode?_eq_some_iff`), and it is read at all exactly if it is
canonical: full groups of digits, the last padded where fewer are needed, and the bits that fill it
up zero (`exists_decode?_iff`). -/
namespace TableClient.Base64

/-! ### Digits -/

theorem value?_digit {n : Nat} (h : n < 64) : value? (digit n) = some n := by
  have all : ∀ n : Fin 64, value? (digit n) = some n.val := by decide
  exact all ⟨n, h⟩

theorem digit_ne_pad {n : Nat} (h : n < 64) : digit n ≠ '=' := by
  have all : ∀ n : Fin 64, digit n ≠ '=' := by decide
  exact all ⟨n, h⟩

/-- A character has a value if it is the digit of that value. -/
theorem value?_eq_some_iff {c : Char} {n : Nat} : value? c = some n ↔ n < 64 ∧ digit n = c := by
  constructor
  · intro h
    unfold value? at h
    dsimp only at h
    split at h
    · next upper =>
      obtain rfl := Option.some.inj h
      refine ⟨by omega, ?_⟩
      rw [digit, if_pos (by omega), Nat.sub_add_cancel (by omega),
        Char.ofNat_toNat]
    split at h
    · next lower =>
      obtain rfl := Option.some.inj h
      refine ⟨by omega, ?_⟩
      rw [digit, if_neg (by omega), if_pos (by omega), Nat.sub_add_cancel (by omega),
        Char.ofNat_toNat]
    split at h
    · next number =>
      obtain rfl := Option.some.inj h
      refine ⟨by omega, ?_⟩
      rw [digit, if_neg (by omega), if_neg (by omega), if_pos (by omega), Nat.add_sub_cancel,
        Char.ofNat_toNat]
    split at h
    · next plus =>
      obtain rfl := Option.some.inj h
      exact ⟨by decide, plus ▸ by decide⟩
    split at h
    · next slash =>
      obtain rfl := Option.some.inj h
      exact ⟨by decide, slash ▸ by decide⟩
    · cases h
  · rintro ⟨h, rfl⟩
    exact value?_digit h

/-! ### Groups of digits -/

theorem ofNat_eq {n : Nat} {a : UInt8} (h : n = a.toNat) : UInt8.ofNat n = a := by
  rw [h, UInt8.ofNat_toNat]

theorem toNat_ofNat {n : Nat} (h : n < 256) : (UInt8.ofNat n).toNat = n :=
  UInt8.toNat_ofNat_of_lt h

/-- What is written is read. -/
theorem decodeChars_encodeChars (bytes : List UInt8) :
    decodeChars (encodeChars bytes) = some bytes := by
  fun_induction encodeChars bytes with
  | case1 => rfl
  | case2 a =>
    have ha := a.toNat_lt
    have hlast : UInt8.ofNat (a.toNat / 4 * 4 + a.toNat % 4 * 16 / 16) = a := ofNat_eq (by omega)
    have hzero : a.toNat % 4 * 16 % 16 = 0 := Nat.mul_mod_left ..
    rw [decodeChars, value?_digit (by omega), value?_digit (by omega)]
    simp only [Option.bind_eq_bind, Option.bind_some, if_true, decodeLast, hlast, hzero]
  | case3 a b =>
    have ha := a.toNat_lt
    have hb := b.toNat_lt
    have hfirst : UInt8.ofNat (a.toNat / 4 * 4 + (a.toNat % 4 * 16 + b.toNat / 16) / 16) = a :=
      ofNat_eq (by omega)
    have hlast : UInt8.ofNat ((a.toNat % 4 * 16 + b.toNat / 16) % 16 * 16 + b.toNat % 16 * 4 / 4) =
        b := ofNat_eq (by omega)
    have hzero : b.toNat % 16 * 4 % 4 = 0 := Nat.mul_mod_left ..
    rw [decodeChars, value?_digit (by omega), value?_digit (by omega)]
    simp only [Option.bind_eq_bind, Option.bind_some, if_true, decodeLast]
    rw [if_neg (digit_ne_pad (by omega)), value?_digit (by omega)]
    simp only [Option.bind_some, if_true, hfirst, hlast, hzero]
  | case4 a b c rest ih =>
    have ha := a.toNat_lt
    have hb := b.toNat_lt
    have hc := c.toNat_lt
    have hfirst : UInt8.ofNat (a.toNat / 4 * 4 + (a.toNat % 4 * 16 + b.toNat / 16) / 16) = a :=
      ofNat_eq (by omega)
    have hsecond : UInt8.ofNat ((a.toNat % 4 * 16 + b.toNat / 16) % 16 * 16 +
        (b.toNat % 16 * 4 + c.toNat / 64) / 4) = b := ofNat_eq (by omega)
    have hthird : UInt8.ofNat ((b.toNat % 16 * 4 + c.toNat / 64) % 4 * 64 + c.toNat % 64) = c :=
      ofNat_eq (by omega)
    rw [decodeChars, value?_digit (by omega), value?_digit (by omega)]
    simp only [Option.bind_eq_bind, Option.bind_some]
    rw [if_neg (digit_ne_pad (by omega)), value?_digit (by omega), value?_digit (by omega), ih]
    simp only [Option.bind_some, hfirst, hsecond, hthird]
    rfl

/-- The bytes of the last four digits are written as these. -/
theorem encodeChars_of_decodeLast {w x : Nat} (hw : w < 64) (hx : x < 64) {y : Char}
    {bytes : List UInt8} (h : decodeLast w x y = some bytes) :
    encodeChars bytes = [digit w, digit x, y, '='] := by
  have hfirst : (UInt8.ofNat (w * 4 + x / 16)).toNat = w * 4 + x / 16 :=
    toNat_ofNat (by omega)
  unfold decodeLast at h
  split at h
  · next pad =>
    split at h
    · next zero =>
      obtain rfl := Option.some.inj h
      rw [encodeChars, hfirst, pad, show (w * 4 + x / 16) / 4 = w by omega,
        show (w * 4 + x / 16) % 4 * 16 = x by omega]
    · cases h
  · obtain ⟨n, hy, hlast⟩ := Option.bind_eq_some_iff.1 h
    obtain ⟨hn, rfl⟩ := value?_eq_some_iff.1 hy
    split at hlast
    · next zero =>
      obtain rfl := Option.some.inj hlast
      have hsecond : (UInt8.ofNat (x % 16 * 16 + n / 4)).toNat = x % 16 * 16 + n / 4 :=
        toNat_ofNat (by omega)
      rw [encodeChars, hfirst, hsecond, show (w * 4 + x / 16) / 4 = w by omega,
        show (w * 4 + x / 16) % 4 * 16 + (x % 16 * 16 + n / 4) / 16 = x by omega,
        show (x % 16 * 16 + n / 4) % 16 * 4 = n by omega]
    · cases hlast

/-- The bytes of four digits are written as these. -/
theorem encodeChars_group {w x y z : Nat} (hw : w < 64) (hx : x < 64) (hy : y < 64) (hz : z < 64)
    (rest : List UInt8) :
    encodeChars (UInt8.ofNat (w * 4 + x / 16) :: UInt8.ofNat (x % 16 * 16 + y / 4) ::
      UInt8.ofNat (y % 4 * 64 + z) :: rest) =
    digit w :: digit x :: digit y :: digit z :: encodeChars rest := by
  rw [encodeChars, toNat_ofNat (by omega), toNat_ofNat (by omega), toNat_ofNat (by omega),
    show (w * 4 + x / 16) / 4 = w by omega,
    show (w * 4 + x / 16) % 4 * 16 + (x % 16 * 16 + y / 4) / 16 = x by omega,
    show (x % 16 * 16 + y / 4) % 16 * 4 + (y % 4 * 64 + z) / 64 = y by omega,
    show (y % 4 * 64 + z) % 64 = z by omega]

/-- What is read is written as it was. -/
theorem encodeChars_of_decodeChars {chars : List Char} {bytes : List UInt8}
    (h : decodeChars chars = some bytes) : encodeChars bytes = chars := by
  fun_induction decodeChars chars generalizing bytes with
  | case1 =>
    obtain rfl := Option.some.inj h
    rfl
  | case2 w x y z rest ih =>
    obtain ⟨i, hw, hpair⟩ := Option.bind_eq_some_iff.1 h
    obtain ⟨j, hx, hrest⟩ := Option.bind_eq_some_iff.1 hpair
    obtain ⟨hi, rfl⟩ := value?_eq_some_iff.1 hw
    obtain ⟨hj, rfl⟩ := value?_eq_some_iff.1 hx
    by_cases pad : z = '='
    · rw [if_pos pad] at hrest
      by_cases last : rest = []
      · rw [if_pos last] at hrest
        rw [encodeChars_of_decodeLast hi hj hrest, pad, last]
      · rw [if_neg last] at hrest
        cases hrest
    · rw [if_neg pad] at hrest
      obtain ⟨k, hy, htriple⟩ := Option.bind_eq_some_iff.1 hrest
      obtain ⟨l, hz, hgroup⟩ := Option.bind_eq_some_iff.1 htriple
      obtain ⟨later, hlater, hbytes⟩ := Option.bind_eq_some_iff.1 hgroup
      obtain ⟨hk, rfl⟩ := value?_eq_some_iff.1 hy
      obtain ⟨hl, rfl⟩ := value?_eq_some_iff.1 hz
      obtain rfl := Option.some.inj hbytes
      rw [encodeChars_group hi hj hk hl, ih hlater]
  | case3 => cases h

/-- **Reading takes back writing**: a text is read as the bytes that are written so, and as no
others. -/
theorem decode?_eq_some_iff {text : String} {bytes : List UInt8} :
    decode? text = some bytes ↔ encode bytes = text := by
  constructor
  · intro h
    rw [encode, encodeChars_of_decodeChars h, String.ofList_toList]
  · rintro rfl
    rw [decode?, encode, String.toList_ofList]
    exact decodeChars_encodeChars bytes

/-! ### Canonical texts -/

/-- Canonical digits: groups of four, the last of which may be padded. Two digits of a padded group
are the bits of one byte and four zeros, three those of two bytes and two zeros. -/
inductive IsCanonical : List Char → Prop where
  | nil : IsCanonical []
  | padded₂ (w : Fin 64) (x : Fin 4) : IsCanonical [digit w, digit (x * 16), '=', '=']
  | padded₁ (w x : Fin 64) (y : Fin 16) : IsCanonical [digit w, digit x, digit (y * 4), '=']
  | group (w x y z : Fin 64) {rest : List Char} (h : IsCanonical rest) :
    IsCanonical (digit w :: digit x :: digit y :: digit z :: rest)

theorem isCanonical_encodeChars (bytes : List UInt8) : IsCanonical (encodeChars bytes) := by
  fun_induction encodeChars bytes with
  | case1 => exact .nil
  | case2 a =>
    have ha := a.toNat_lt
    exact .padded₂ ⟨a.toNat / 4, by omega⟩ ⟨a.toNat % 4, by omega⟩
  | case3 a b =>
    have ha := a.toNat_lt
    have hb := b.toNat_lt
    exact .padded₁ ⟨a.toNat / 4, by omega⟩ ⟨a.toNat % 4 * 16 + b.toNat / 16, by omega⟩
      ⟨b.toNat % 16, by omega⟩
  | case4 a b c rest ih =>
    have ha := a.toNat_lt
    have hb := b.toNat_lt
    have hc := c.toNat_lt
    exact .group ⟨a.toNat / 4, by omega⟩ ⟨a.toNat % 4 * 16 + b.toNat / 16, by omega⟩
      ⟨b.toNat % 16 * 4 + c.toNat / 64, by omega⟩ ⟨c.toNat % 64, by omega⟩ ih

theorem exists_encodeChars {chars : List Char} (h : IsCanonical chars) :
    ∃ bytes, encodeChars bytes = chars := by
  induction h with
  | nil => exact ⟨[], rfl⟩
  | padded₂ w x =>
    have hread : decodeLast w (x * 16) '=' = some [UInt8.ofNat (w * 4 + x * 16 / 16)] := by
      rw [decodeLast, if_pos rfl, if_pos (Nat.mul_mod_left ..)]
    exact ⟨_, encodeChars_of_decodeLast w.isLt (by omega) hread⟩
  | padded₁ w x y =>
    have hread : decodeLast w x (digit (y * 4)) =
        some [UInt8.ofNat (w * 4 + x / 16), UInt8.ofNat (x % 16 * 16 + y * 4 / 4)] := by
      rw [decodeLast, if_neg (digit_ne_pad (by omega)), value?_digit (by omega)]
      exact if_pos (Nat.mul_mod_left ..)
    exact ⟨_, encodeChars_of_decodeLast w.isLt x.isLt hread⟩
  | group w x y z _ ih =>
    obtain ⟨bytes, rfl⟩ := ih
    exact ⟨_, encodeChars_group w.isLt x.isLt y.isLt z.isLt bytes⟩

/-- A text is read exactly if its digits are canonical. -/
theorem exists_decode?_iff {text : String} :
    (∃ bytes, decode? text = some bytes) ↔ IsCanonical text.toList := by
  simp only [decode?_eq_some_iff]
  constructor
  · rintro ⟨bytes, rfl⟩
    rw [encode, String.toList_ofList]
    exact isCanonical_encodeChars bytes
  · intro h
    obtain ⟨bytes, hbytes⟩ := exists_encodeChars h
    exact ⟨bytes, by rw [encode, hbytes, String.ofList_toList]⟩

end TableClient.Base64
