import TableClient.Proofs.RoundTrip

/-! What a decoder makes of a text.

A reader that came to the end of a value met nothing torn on its way, however deep
(`Json.readsUntorn`), so that no part of the value is an obstacle to those who pass it over. Values
cannot be compared, but an object of nothing but texts is known by them (`Json.read_of_texts?`).

A record is read member by member in the order of the text. Its fields do not see that order: each
is read off the members of its own name, which are one at most, and the members of no field are
passed over (`Fields.readMembers_cons_iff`, `Fields.readMembers_nil_iff`). -/
namespace TableClient

/-! ### Texts that do not break off -/

namespace Json

theorem skippable_ofWhole (negative : Bool) (digits : List Nat) :
    (ofWhole negative digits).skippable = true := by
  unfold ofWhole
  cases (Decimal.whole 0 digits).toFloat? with
  | none => grind [skippable]
  | some x => grind [skippable]

theorem skippable_ofDecimal (negative : Bool) (digits fraction : List Nat) (exponent : Int) :
    (ofDecimal negative digits fraction exponent).skippable = true := by
  unfold ofDecimal
  dsimp only
  split <;> rfl

/-- What is read after something else is skippable if it always is. -/
theorem skippable_of_bind {α : Type} {first : Option α} {f : α → Option (Json × List UInt8)}
    (hf : ∀ a, ∀ read ∈ f a, read.1.skippable = true) :
    ∀ read ∈ first >>= f, read.1.skippable = true := by
  intro read hread
  obtain ⟨a, -, hread⟩ := Option.bind_eq_some_iff.1 hread
  exact hf a read hread

theorem skippable_of_pure {value : Json} (rest : List UInt8) (h : value.skippable = true) :
    ∀ read ∈ (pure (value, rest) : Option (Json × List UInt8)), read.1.skippable = true := by
  rintro read ⟨⟩
  exact h

theorem skippable_of_readNumber (negative : Bool) (bytes : List UInt8) :
    ∀ read ∈ readNumber negative bytes, read.1.skippable = true := by
  unfold readNumber
  split
  · simp
  · simp
  · -- whatever stands for the fraction, an exponent may follow
    dsimp only
    split
    on_goal 1 => split
    on_goal 1 => split
    all_goals
      refine skippable_of_bind fun p => ?_
      split
      on_goal 1 => split
      all_goals
        refine skippable_of_bind fun q => ?_
        split
        · exact skippable_of_pure _ (skippable_ofWhole _ _)
        · exact skippable_of_pure _ (skippable_ofDecimal _ _ _ _)

theorem skippable_held {value : Json} (depth : Nat) (h : value.skippable = true) :
    (held depth value).skippable = true := by
  unfold held
  split
  · exact h
  · rfl

theorem skippableMembers_cons (member : String × Json) (rest : List (String × Json)) :
    skippableMembers (member :: rest) = (member.2.skippable && skippableMembers rest) := rfl

theorem skippableMembers_iff {members : List (String × Json)} :
    skippableMembers members = true ↔ ∀ member ∈ members, member.2.skippable = true := by
  induction members with
  | nil => simp [skippableMembers]
  | cons member rest ih => simp [skippableMembers_cons, ih]

/-- A name that cannot be held does not make a member torn. -/
theorem skippable_entry (name : Option String) {value : Json} (h : value.skippable = true) :
    (match name with
      | some name => (name, value)
      | none => ("", fault .unreadableName) : String × Json).2.skippable = true := by
  cases name with
  | some name => exact h
  | none => rfl

/-- Of what a budget lets be read up to a point of a text, nothing is torn. -/
structure ReadsUntorn (budget : Nat) : Prop where
  value {depth : Nat} {bytes rest : List UInt8} {value : Json}
    (h : readValue depth budget bytes = (value, some rest)) : value.skippable = true
  items {depth : Nat} {bytes rest : List UInt8} {items : List Json}
    (h : readItems depth budget bytes = (items, some rest)) : skippableItems items = true
  members {depth : Nat} {bytes rest : List UInt8} {members : List (String × Json)}
    (h : readMembers depth budget bytes = (members, some rest)) : skippableMembers members = true

section Budget
variable {budget depth : Nat} {bytes rest : List UInt8}

theorem ReadsUntorn.value_succ (ih : ReadsUntorn budget) {value : Json}
    (h : readValue depth (budget + 1) bytes = (value, some rest)) : value.skippable = true := by
  rw [readValue] at h
  split at h
  · cases h
  split at h
  · -- a string
    split at h
    · cases h
    · cases h
      rfl
    · cases h
      rfl
  split at h
  · -- an array
    split at h
    · split at h
      · cases h
        exact skippable_held _ rfl
      · generalize hread : readItems (depth + 1) budget _ = read at h
        obtain ⟨items, after⟩ := read
        cases h
        exact skippable_held _ (ih.items hread)
    · cases h
  split at h
  · -- an object
    split at h
    · split at h
      · cases h
        exact skippable_held _ rfl
      · generalize hread : readMembers (depth + 1) budget _ = read at h
        obtain ⟨members, after⟩ := read
        cases h
        exact skippable_held _ (ih.members hread)
    · cases h
  -- a word or a number
  dsimp only at h
  split at h
  · split at h
    · cases h
      rfl
    · cases h
  split at h
  · split at h
    · cases h
      rfl
    · cases h
  split at h
  · split at h
    · cases h
      rfl
    · cases h
  split at h
  · cases h
  next number after hnumber =>
    cases h
    split at hnumber
    · exact skippable_of_readNumber _ _ _ hnumber
    · exact skippable_of_readNumber _ _ _ hnumber

theorem ReadsUntorn.items_succ (ih : ReadsUntorn budget) {items : List Json}
    (h : readItems depth (budget + 1) bytes = (items, some rest)) :
    skippableItems items = true := by
  obtain ⟨hvalue, hitems, -⟩ := ih
  rw [readItems] at h
  grind [skippableItems]

theorem ReadsUntorn.members_succ (ih : ReadsUntorn budget) {members : List (String × Json)}
    (h : readMembers depth (budget + 1) bytes = (members, some rest)) :
    skippableMembers members = true := by
  rw [readMembers] at h
  -- where the name, the colon or the value breaks off, nothing is left to read
  split at h
  · cases h
  split at h
  · cases h
  split at h
  · cases h
  dsimp only at h
  split at h
  · cases h
  split at h
  · cases h
  split at h
  · cases h
  next value after hread =>
    have hentry := ih.value hread
    -- the object ends after the value or goes on after a comma
    split at h
    · split at h
      · cases h
        exact Bool.and_eq_true_iff.2 ⟨skippable_entry _ hentry, rfl⟩
      split at h
      · generalize hrest : readMembers depth budget _ = read at h
        obtain ⟨members, after⟩ := read
        cases h
        exact Bool.and_eq_true_iff.2 ⟨skippable_entry _ hentry, ih.members hrest⟩
      · cases h
    · cases h

theorem readsUntorn (budget : Nat) : ReadsUntorn budget := by
  induction budget with
  | zero =>
    constructor
    all_goals
      intro _ _ _ _ h
      cases h
  | succ budget ih => exact ⟨ih.value_succ, ih.items_succ, ih.members_succ⟩

end Budget

/-- No member of an object that was read to its end is torn. -/
theorem skippable_of_read {bytes : List UInt8} {members : List (String × Json)}
    (h : read bytes = (.obj members, true)) : ∀ member ∈ members, member.2.skippable = true := by
  unfold read at h
  split at h
  · cases h
  next value rest hread =>
    obtain ⟨rfl, -⟩ := Prod.mk.inj h
    exact skippableMembers_iff.1 ((readsUntorn _).value hread)

/-! ### Objects of texts -/

/-- The members of an object, if the value of each is a text. -/
def texts? : Json → Option (List (String × String))
  | .obj members => members.mapM fun
    | (name, .str text) => some (name, text)
    | _ => none
  | _ => none

/-- An object of texts is known by them. -/
theorem eq_obj_of_texts? {value : Json} {texts : List (String × String)}
    (h : texts? value = some texts) :
    value = .obj (texts.map fun text => (text.1, .str text.2)) := by
  cases value with
  | obj members =>
    rw [texts?] at h
    induction members generalizing texts with
    | nil =>
      cases h
      rfl
    | cons member rest ih =>
      rw [List.mapM_cons] at h
      obtain ⟨text, hmember, h⟩ := Option.bind_eq_some_iff.1 h
      obtain ⟨others, hrest, h⟩ := Option.bind_eq_some_iff.1 h
      obtain rfl := Option.some.inj h
      obtain ⟨name, value⟩ := member
      cases value with
      | str =>
        cases hmember
        rw [obj.inj (ih hrest)]
        rfl
      | _ => cases hmember
  | _ => cases h

theorem read_of_texts? {body : List UInt8} {texts : List (String × String)}
    (h : (read body).map texts? id = (some texts, true)) :
    read body = (.obj (texts.map fun text => (text.1, .str text.2)), true) := by
  obtain ⟨hvalue, hread⟩ := Prod.mk.inj h
  exact Prod.ext (eq_obj_of_texts? hvalue) hread

end Json

/-! ### Records off their members -/

/-- The name of a member can be held. -/
def Json.IsNamed (member : String × Json) : Prop :=
  member.2 ≠ .fault .tornName ∧ member.2 ≠ .fault .unreadableName

/-- The values of the members that a name is written for. -/
def Json.valuesOf (name : String) (members : List (String × Json)) : List Json :=
  (members.filter fun member => member.1 = name).map Prod.snd

/-- Members of one name stay when those of another are left out. -/
theorem Json.valuesOf_filter_ne {name other : String} (h : name ≠ other)
    (members : List (String × Json)) :
    valuesOf name (members.filter fun member => member.1 ≠ other) = valuesOf name members := by
  rw [valuesOf, List.filter_filter, valuesOf]
  congr 1
  refine List.filter_congr fun member _ => ?_
  by_cases hname : member.1 = name
  · simp [hname, h]
  · simp [hname]

/-- What values of its name do to the slot of a field: without one it stays as it is, and one is
read into an empty slot. -/
inductive Field.Takes {β : Type} (field : Field β) : List Json → Option β → Option β → Prop
  | none (slot : Option β) : field.Takes [] slot slot
  | one {value : Json} {b : β} (hread : field.read value = .ok b) :
    field.Takes [value] .none (some b)

namespace Field
variable {β : Type} {field : Field β} {values : List Json} {slot slot' : Option β}

@[simp] theorem takes_nil_iff : field.Takes [] slot slot' ↔ slot' = slot := by
  constructor
  · rintro ⟨⟩
    rfl
  · rintro rfl
    exact .none slot'

/-- A slot that has been read into stays as it is, and nothing more may come for it. -/
theorem takes_some_iff {b : β} :
    field.Takes values (some b) slot' ↔ values = [] ∧ slot' = some b := by
  constructor
  · rintro ⟨⟩
    exact ⟨rfl, rfl⟩
  · rintro ⟨rfl, rfl⟩
    exact .none _

/-- The first value is read, and the others find the slot full. -/
theorem takes_cons_iff {value : Json} :
    field.Takes (value :: values) slot slot' ↔
      slot = none ∧ ∃ b, field.read value = .ok b ∧ field.Takes values (some b) slot' := by
  constructor
  · rintro (_ | @⟨_, b, hread⟩)
    exact ⟨rfl, b, hread, .none _⟩
  · rintro ⟨rfl, b, hread, hlater⟩
    obtain ⟨rfl, rfl⟩ := takes_some_iff.1 hlater
    exact .one hread

end Field

namespace Fields
open Json

variable {P β : Type} {field : Field β} {rest : Fields P} {fields : Fields P}
  {members : List (String × Json)}

theorem readMembers_of_named {member : String × Json} (h : IsNamed member)
    (members : List (String × Json)) (slots : fields.Slots) :
    fields.readMembers (member :: members) slots =
      (do fields.readMembers members (← fields.readMember member.1 member.2 slots)) := by
  obtain ⟨name, value⟩ := member
  rw [readMembers]
  · exact h.1
  · exact h.2

/-- Only members with names are read. -/
theorem isNamed_of_readMembers {slots slots' : fields.Slots}
    (h : fields.readMembers members slots = .ok slots') : ∀ member ∈ members, IsNamed member := by
  induction members generalizing slots with
  | nil => simp
  | cons member members ih =>
    have hmember : IsNamed member := by
      constructor
      all_goals
        intro hfault
        obtain ⟨name, value⟩ := member
        obtain rfl : value = _ := hfault
        cases h
    rw [readMembers_of_named hmember] at h
    obtain ⟨between, -, h⟩ := exists_of_bind_eq_ok h
    exact List.forall_mem_cons.2 ⟨hmember, ih h⟩

/-- Without fields, all that is asked of members is that they can be passed over. -/
theorem readMembers_nil_iff (hnamed : ∀ member ∈ members, IsNamed member) {slots' : nil.Slots} :
    nil.readMembers members () = .ok slots' ↔ ∀ member ∈ members, member.2.skippable = true := by
  induction members with
  | nil => simp [readMembers]
  | cons member members ih =>
    obtain ⟨hmember, hnamed⟩ := List.forall_mem_cons.1 hnamed
    rw [readMembers_of_named hmember, List.forall_mem_cons, ← ih hnamed]
    cases hskippable : member.2.skippable with
    | true => simp [readMember, hskippable, bind, Except.bind]
    | false => simp [readMember, hskippable, bind, Except.bind]

/-- A field is read off the members of its name, and the other fields off those that are left. -/
theorem readMembers_cons_iff (hnamed : ∀ member ∈ members, IsNamed member)
    {slots slots' : (cons field rest).Slots} :
    (cons field rest).readMembers members slots = .ok slots' ↔
      field.Takes (valuesOf field.name members) slots.1 slots'.1 ∧
        rest.readMembers (members.filter fun member => member.1 ≠ field.name) slots.2 =
          .ok slots'.2 := by
  induction members generalizing slots with
  | nil =>
    obtain ⟨slot, slots⟩ := slots
    obtain ⟨slot', slots'⟩ := slots'
    simp [readMembers, valuesOf, eq_comm]
  | cons member members ih =>
    obtain ⟨hmember, hnamed⟩ := List.forall_mem_cons.1 hnamed
    obtain ⟨slot, slots⟩ := slots
    rw [readMembers_of_named hmember]
    by_cases hname : member.1 = field.name
    · have hvalues : valuesOf field.name (member :: members) =
          member.2 :: valuesOf field.name members := by simp [valuesOf, hname]
      rw [hvalues, Field.takes_cons_iff, List.filter_cons_of_neg (by simpa using hname), hname]
      cases slot with
      | some b => simp [readMember, bind, Except.bind]
      | none =>
        rw [readMember_own]
        cases hread : field.read member.2 with
        | error fault => simp [bind, Except.bind]
        | ok b => simpa [bind, Except.bind, pure, Except.pure] using ih hnamed
    · have hvalues : valuesOf field.name (member :: members) = valuesOf field.name members := by
        simp [valuesOf, hname]
      rw [hvalues, List.filter_cons_of_pos (by simpa using hname), readMember_other hname,
        readMembers_of_named hmember]
      cases hread : rest.readMember member.1 member.2 slots with
      | error fault => simp [bind, Except.bind]
      | ok slots => simpa [bind, Except.bind, pure, Except.pure] using ih hnamed

end Fields

end TableClient
