import TableClient.Proofs.AttributeValue
import TableClient.Proofs.KeyMap
import TableClient.Wire.Choice
import TableClient.Wire.Record
import Mathlib.Data.List.Perm.Basic

/-! Values that come back from their wire form.

A value survives if it is read back from what is written of it, in whatever order the members of
objects stand (`Survives`). Texts, numbers and words do, collections do where their members do, and
a record does where each of its fields keeps what it holds: a field that is left out has to stand
for what was left out, and one that is written has to be read (`Field.Keeps`). Members are read one
by one into the slots of their names, so `Fields.exists_slots` goes through the fields and takes the
member of each out of its place. -/
namespace TableClient

/-! ### JSON values in another order -/

namespace Json

/-- A value is neither null nor missing. -/
def IsPresent : Json → Prop
  | .null | .fault _ => False
  | _ => True

variable {j value : Json}

theorem Reorders.isPresent (h : j.Reorders value) (hvalue : value.IsPresent) : j.IsPresent := by
  cases h with
  | refl => exact hvalue
  | arr => trivial
  | obj => trivial

/-- Members have the same names, and values that are equal but for order. -/
def MembersReorder (member member' : String × Json) : Prop :=
  member.1 = member'.1 ∧ member.2.Reorders member'.2

theorem Reorders.exists_arr {items : List Json} (h : j.Reorders (.arr items)) :
    ∃ items', j = .arr items' ∧ List.Forall₂ Reorders items' items := by
  cases h with
  | refl => exact ⟨items, rfl, List.forall₂_same.2 fun item _ => .refl item⟩
  | arr h => exact ⟨_, rfl, h⟩

theorem Reorders.exists_obj {members : List (String × Json)} (h : j.Reorders (.obj members)) :
    ∃ members' between, j = .obj members' ∧ members'.Perm between ∧
      List.Forall₂ MembersReorder between members := by
  cases h with
  | refl =>
    exact ⟨members, members, rfl, .refl members,
      List.forall₂_same.2 fun member _ => ⟨rfl, .refl member.2⟩⟩
  | obj order names h =>
    rw [map_eq_map_iff_forall₂] at names
    rw [List.forall₂_map_left_iff, List.forall₂_map_right_iff] at h
    exact ⟨_, _, rfl, order, names.mp (fun _ _ => And.intro) h⟩

/-- A list of texts has no other order. -/
theorem Reorders.eq_texts {α : Type} {f : α → String} {as : List α}
    (h : j.Reorders (.arr (as.map fun a => .str (f a)))) :
    j = .arr (as.map fun a => .str (f a)) := by
  obtain ⟨items, rfl, hitems⟩ := h.exists_arr
  have heq : List.Forall₂ (fun item a => item = .str (f a)) items as := by
    refine (List.forall₂_map_right_iff.1 hitems).imp fun item a hitem => ?_
    cases hitem
    rfl
  rw [← List.forall₂_map_right_iff (R := Eq) (f := fun a => Json.str (f a)),
    List.forall₂_eq_eq_eq] at heq
  rw [heq]

/-- An object with one member has no other order. -/
theorem Reorders.exists_single {name : String} (h : j.Reorders (.obj [(name, value)])) :
    ∃ value', j = .obj [(name, value')] ∧ value'.Reorders value := by
  obtain ⟨members, between, rfl, hperm, hbetween⟩ := h.exists_obj
  obtain ⟨⟨name', value'⟩, _, ⟨rfl, hvalue⟩, hnil, rfl⟩ := List.forall₂_cons_right_iff.1 hbetween
  obtain rfl := List.forall₂_nil_right_iff.1 hnil
  rw [List.perm_singleton.1 hperm]
  exact ⟨value', rfl, hvalue⟩

end Json

/-! ### Values that survive -/

/-- A value is read back from its wire form, in whatever order the members of objects stand. -/
structure Survives {α : Type} [Wire α] (a : α) : Prop where
  /-- The wire form is not taken for nothing. -/
  present : (Wire.encode a).IsPresent
  decode : ∀ j : Json, j.Reorders (Wire.encode a) → Wire.decode j = .ok a

/-- A type all values of which survive. -/
class Faithful (α : Type) [Wire α] : Prop where
  survives : ∀ a : α, Survives a

/-- A value is read back from its wire form as it stands. -/
theorem Survives.decode_encode {α : Type} [Wire α] {a : α} (h : Survives a) :
    Wire.decode (Wire.encode a) = .ok a := h.decode _ (.refl _)

section Leaves

instance : Faithful String where
  survives _ := ⟨trivial, fun _ h => by cases h; rfl⟩

instance : Faithful Bool where
  survives _ := ⟨trivial, fun _ h => by cases h; rfl⟩

instance : Faithful Int32 where
  survives n := by
    refine ⟨trivial, fun j h => ?_⟩
    cases h
    have hlow : -(Number.maxSigned32 : Int) - 1 ≤ n.toInt := n.le_toInt
    have hhigh : n.toInt ≤ Number.maxSigned32 := n.toInt_le
    show (if _ then .ok (Int32.ofInt n.toInt) else _) = Except.ok n
    rw [if_pos ⟨hlow, hhigh⟩, Int32.ofInt_toInt]

/-- A double survives if it is finite. -/
theorem Survives.float {x : Float} (h : x.isFinite) : Survives x := by
  have hencode : Wire.encode x = .float x := if_pos h
  refine ⟨by rw [hencode]; trivial, fun j hj => ?_⟩
  rw [hencode] at hj
  cases hj
  rfl

/-- No other double does: it is written as null. -/
theorem Survives.isFinite {x : Float} (h : Survives x) : x.isFinite := by
  by_contra hx
  have hencode : Wire.encode x = .null := if_neg hx
  have hpresent := h.present
  rw [hencode] at hpresent
  exact hpresent

/-- A choice survives if its word is its own. -/
theorem Choice.faithful {α : Type} [Choice α] (h : ∀ a : α, ofWord? (word a) = some a) :
    Faithful α where
  survives a := by
    refine ⟨trivial, fun j hj => ?_⟩
    cases hj
    show decodeWord (word a) true = .ok a
    rw [decodeWord, h]

end Leaves

/-- What holds of related members, where one is in the second list, holds throughout. -/
theorem forall₂_imp_of_mem {α β : Type} {R S : α → β → Prop} {l : List α} {l' : List β}
    (h : List.Forall₂ R l l') (hRS : ∀ a, ∀ b ∈ l', R a b → S a b) : List.Forall₂ S l l' := by
  induction h with
  | nil => exact .nil
  | cons hab _ ih =>
    exact .cons (hRS _ _ List.mem_cons_self hab)
      (ih fun a b hb => hRS a b (List.mem_cons_of_mem _ hb))

/-- What is in the first of two related lists is related to something in the second. -/
theorem exists_mem_of_forall₂ {α β : Type} {R : α → β → Prop} {l : List α} {l' : List β}
    (h : List.Forall₂ R l l') {a : α} (ha : a ∈ l) : ∃ b ∈ l', R a b := by
  induction h with
  | nil => cases ha
  | cons hab _ ih =>
    rcases List.mem_cons.1 ha with rfl | ha
    · exact ⟨_, List.mem_cons_self, hab⟩
    · obtain ⟨b, hb, hR⟩ := ih ha
      exact ⟨b, List.mem_cons_of_mem _ hb, hR⟩

section Collections
variable {α : Type} [Wire α]

/-- A list survives if its items do. -/
theorem Survives.list {as : List α} (h : ∀ a ∈ as, Survives a) : Survives as := by
  refine ⟨trivial, fun j hj => ?_⟩
  obtain ⟨items, rfl, hitems⟩ := Json.Reorders.exists_arr hj
  show Wire.decodeItems items = .ok as
  rw [AttributeValue.decodeItems_eq_mapM, mapM_eq_ok_iff_forall₂]
  rw [List.forall₂_map_right_iff] at hitems
  exact forall₂_imp_of_mem hitems fun item a ha hitem => (h a ha).decode item hitem

/-- Members that are present are read one by one. -/
theorem decodeMembers_eq_ok {members : List (String × Json)} {entries : List (String × α)}
    (h : List.Forall₂ (fun member entry => member.1 = entry.1 ∧ member.2.IsPresent ∧
      Wire.decode member.2 = .ok entry.2) members entries) :
    Wire.decodeMembers members = .ok entries := by
  induction h with
  | nil => rfl
  | @cons member entry _ _ hmember _ ih =>
    obtain ⟨name, value⟩ := member
    obtain ⟨rfl, hpresent, hvalue⟩ := hmember
    rw [Wire.decodeMembers, hvalue, ih]
    · rfl
    · rintro why rfl
      exact hpresent

/-- A map survives if its values do. -/
theorem Survives.map {m : KeyMap α} (h : ∀ entry ∈ m.toList, Survives entry.2) : Survives m := by
  refine ⟨trivial, fun j hj => ?_⟩
  obtain ⟨members, between, rfl, hperm, hbetween⟩ := Json.Reorders.exists_obj hj
  rw [List.forall₂_map_right_iff] at hbetween
  have hread := forall₂_imp_of_mem (S := fun member entry => member.1 = entry.1 ∧
    member.2.IsPresent ∧ Wire.decode member.2 = .ok entry.2) hbetween
    fun member entry he ⟨hname, hvalue⟩ =>
      ⟨hname, hvalue.isPresent (h entry he).present, (h entry he).decode member.2 hvalue⟩
  obtain ⟨entries, hentries, horder⟩ := List.perm_comp_forall₂ hperm hread
  show (do return KeyMap.ofList (← Wire.decodeMembers members)) = Except.ok m
  rw [decodeMembers_eq_ok hentries]
  exact congrArg Except.ok (KeyMap.ofList_of_perm horder)

instance [Faithful α] : Faithful (List α) where
  survives _ := .list fun a _ => Faithful.survives a

instance [Faithful α] : Faithful (KeyMap α) where
  survives _ := .map fun entry _ => Faithful.survives entry.2

end Collections

/-! ### Fields -/

/-- A field keeps a value: what is written of it is read back, and where nothing is written the
field's substitute is the value. -/
structure Field.Keeps {β : Type} (field : Field β) (b : β) : Prop where
  written : ∀ value ∈ field.write b, value.IsPresent ∧
    ∀ j : Json, j.Reorders value → field.read j = .ok b
  left : field.write b = none → field.absent = .ok b

namespace Field
variable {α : Type} [Wire α] {name : String}

theorem required_keeps {a : α} (h : Survives a) : (Field.required name).Keeps a where
  written _ hvalue := Option.some.inj hvalue ▸ ⟨h.present, h.decode⟩
  left hnone := by cases hnone

theorem defaulted_keeps {default a : α} (h : Survives a) :
    (Field.defaulted name default).Keeps a where
  written _ hvalue := Option.some.inj hvalue ▸ ⟨h.present, h.decode⟩
  left hnone := by cases hnone

/-- Something that is present is read as something. -/
theorem readOption_of_present {j : Json} {a : α} (hpresent : j.IsPresent)
    (h : Wire.decode j = .ok a) : readOption j = .ok (some a) := by
  have hread : (readOption j : Except DecodeFault (Option α)) =
      do return some (← Wire.decode j) := by
    cases j with
    | null => exact hpresent.elim
    | _ => rfl
  rw [hread, h]
  rfl

theorem optional_keeps {o : Option α} (h : ∀ a ∈ o, Survives a) :
    (Field.optional name).Keeps o := by
  constructor
  · intro value hvalue
    obtain ⟨a, rfl, rfl⟩ := Option.map_eq_some_iff.1 hvalue
    have ha := h a rfl
    exact ⟨ha.present, fun j hj =>
      readOption_of_present (hj.isPresent ha.present) (ha.decode j hj)⟩
  · intro hnone
    obtain rfl := Option.map_eq_none_iff.1 hnone
    rfl

theorem unlessEmpty_keeps {default a : α} {isEmpty : α → Bool} (h : Survives a)
    (hempty : isEmpty a → a = default) : (Field.unlessEmpty name default isEmpty).Keeps a := by
  constructor
  · intro value hvalue
    obtain ⟨-, hencode⟩ := Option.ite_none_left_eq_some.1 hvalue
    exact Option.some.inj hencode ▸ ⟨h.present, h.decode⟩
  · intro hnone
    have hleft : isEmpty a = true := by
      by_contra hne
      cases (if_neg hne).symm.trans hnone
    exact congrArg Except.ok (hempty hleft).symm

theorem map_keeps {m : KeyMap α} (h : ∀ entry ∈ m.toList, Survives entry.2) :
    (Field.map name).Keeps m :=
  unlessEmpty_keeps (.map h) KeyMap.isEmpty_iff.1

theorem list_keeps {as : List α} (h : ∀ a ∈ as, Survives a) : (Field.list name).Keeps as :=
  unlessEmpty_keeps (.list h) List.isEmpty_iff.1

end Field

namespace Fields

/-- Each field keeps its part of a record. -/
def Keeps : {P : Type} → Fields P → P → Prop
  | _, nil, _ => True
  | _, cons field rest, p => field.Keeps p.1 ∧ rest.Keeps p.2

variable {P β : Type} {field : Field β} {rest : Fields P} {fields : Fields P}

theorem names_of_mem_write {p : P} {member : String × Json} (h : member ∈ fields.write p) :
    member.1 ∈ fields.names := by
  induction fields with
  | nil => cases h
  | cons field rest ih =>
    rw [write] at h
    rw [names]
    cases hwrite : field.write p.1 with
    | none =>
      rw [hwrite] at h
      exact List.mem_cons_of_mem _ (ih h)
    | some value =>
      rw [hwrite] at h
      rcases List.mem_cons.1 h with rfl | h
      · exact List.mem_cons_self
      · exact List.mem_cons_of_mem _ (ih h)

theorem present_of_mem_write {p : P} (hkeeps : fields.Keeps p) {member : String × Json}
    (h : member ∈ fields.write p) : member.2.IsPresent := by
  induction fields with
  | nil => cases h
  | cons field rest ih =>
    rw [write] at h
    cases hwrite : field.write p.1 with
    | none =>
      rw [hwrite] at h
      exact ih hkeeps.2 h
    | some value =>
      rw [hwrite] at h
      rcases List.mem_cons.1 h with rfl | h
      · exact (hkeeps.1.written value hwrite).1
      · exact ih hkeeps.2 h

/-- A member that is present is read into its slot. -/
theorem readMembers_of_present {name : String} {value : Json} (h : value.IsPresent)
    (members : List (String × Json)) (slots : fields.Slots) :
    fields.readMembers ((name, value) :: members) slots =
      (do fields.readMembers members (← fields.readMember name value slots)) := by
  cases value with
  | fault => exact h.elim
  | _ => rfl

theorem readMember_own (value : Json) (slots : rest.Slots) :
    (cons field rest).readMember field.name value (none, slots) =
      (do return (some (← field.read value), slots)) := if_pos rfl

theorem readMember_other {name : String} (h : name ≠ field.name) (value : Json) (b : Option β)
    (slots : rest.Slots) :
    (cons field rest).readMember name value (b, slots) =
      (do return (b, ← rest.readMember name value slots)) := if_neg h

/-- Members of other names pass a field by. -/
theorem readMembers_pass {members : List (String × Json)} {b : Option β}
    {slots slots' : rest.Slots} (hpresent : ∀ member ∈ members, member.2.IsPresent)
    (hother : ∀ member ∈ members, member.1 ≠ field.name)
    (h : rest.readMembers members slots = .ok slots') :
    (cons field rest).readMembers members (b, slots) = .ok (b, slots') := by
  induction members generalizing slots with
  | nil =>
    cases h
    rfl
  | cons member members ih =>
    obtain ⟨name, value⟩ := member
    obtain ⟨hvalue, hpresent⟩ := List.forall_mem_cons.1 hpresent
    obtain ⟨hname, hother⟩ := List.forall_mem_cons.1 hother
    rw [readMembers_of_present hvalue] at h ⊢
    obtain ⟨between, hmember, h⟩ := exists_of_bind_eq_ok h
    rw [readMember_other hname, hmember]
    exact ih hpresent hother h

/-- A member of a field's name is read into its slot, wherever it stands. -/
theorem readMembers_take {before after : List (String × Json)} {value : Json} {b : β}
    {slots slots' : rest.Slots} (hpresent : ∀ member ∈ before ++ after, member.2.IsPresent)
    (hother : ∀ member ∈ before ++ after, member.1 ≠ field.name) (hvalue : value.IsPresent)
    (hread : field.read value = .ok b) (h : rest.readMembers (before ++ after) slots = .ok slots') :
    (cons field rest).readMembers (before ++ (field.name, value) :: after) (none, slots) =
      .ok (some b, slots') := by
  induction before generalizing slots with
  | nil =>
    rw [List.nil_append, readMembers_of_present hvalue, readMember_own, hread]
    exact readMembers_pass hpresent hother h
  | cons member before ih =>
    obtain ⟨name, value'⟩ := member
    obtain ⟨hvalue', hpresent⟩ := List.forall_mem_cons.1 hpresent
    obtain ⟨hname, hother⟩ := List.forall_mem_cons.1 hother
    rw [List.cons_append, readMembers_of_present hvalue'] at h ⊢
    obtain ⟨between, hmember, h⟩ := exists_of_bind_eq_ok h
    rw [readMember_other hname, hmember]
    exact ih hpresent hother h

/-- What is written of a record is read into slots that are the record. -/
theorem exists_slots {p : P} (hkeeps : fields.Keeps p) (hnames : fields.names.Nodup)
    {members between : List (String × Json)} (hperm : members.Perm between)
    (hbetween : List.Forall₂ Json.MembersReorder between (fields.write p)) :
    ∃ slots, fields.readMembers members fields.unread = .ok slots ∧
      fields.finish slots = .ok p := by
  induction fields generalizing members between with
  | nil =>
    obtain rfl := List.forall₂_nil_right_iff.1 hbetween
    obtain rfl := hperm.eq_nil
    exact ⟨(), rfl, rfl⟩
  | @cons β P field rest ih =>
    obtain ⟨b, p⟩ := p
    obtain ⟨hfield, hrest⟩ := hkeeps
    obtain ⟨hname, hnames⟩ := List.nodup_cons.1 hnames
    -- the members of the other fields are present, and have other names
    have hothers {members between : List (String × Json)} (hperm : members.Perm between)
        (hbetween : List.Forall₂ Json.MembersReorder between (rest.write p)) :
        (∀ member ∈ members, member.2.IsPresent) ∧
          ∀ member ∈ members, member.1 ≠ field.name := by
      have hwritten (member : String × Json) (hmember : member ∈ members) :
          ∃ member' ∈ rest.write p, Json.MembersReorder member member' :=
        exists_mem_of_forall₂ hbetween (hperm.subset hmember)
      refine ⟨fun member hmember => ?_, fun member hmember hown => ?_⟩
      · obtain ⟨member', hmember', -, hvalue⟩ := hwritten member hmember
        exact hvalue.isPresent (present_of_mem_write hrest hmember')
      · obtain ⟨member', hmember', hsame, -⟩ := hwritten member hmember
        exact hname (hown ▸ hsame ▸ names_of_mem_write hmember')
    cases hwrite : field.write b with
    | none =>
      simp only [write, hwrite] at hbetween
      obtain ⟨slots, hslots, hfinish⟩ := ih hrest hnames hperm hbetween
      obtain ⟨hpresent, hother⟩ := hothers hperm hbetween
      refine ⟨(none, slots), readMembers_pass hpresent hother hslots, ?_⟩
      show (do let b ← field.absent; return (b, ← rest.finish slots)) = Except.ok (b, p)
      rw [hfield.left hwrite, hfinish]
      rfl
    | some value =>
      simp only [write, hwrite] at hbetween
      obtain ⟨⟨name, value'⟩, later, ⟨rfl, hvalue⟩, hlater, rfl⟩ :=
        List.forall₂_cons_right_iff.1 hbetween
      obtain ⟨before, after, rfl⟩ := List.append_of_mem (hperm.symm.subset List.mem_cons_self)
      have hperm : (before ++ after).Perm later := (List.perm_middle.symm.trans hperm).cons_inv
      obtain ⟨slots, hslots, hfinish⟩ := ih hrest hnames hperm hlater
      obtain ⟨hpresent, hother⟩ := hothers hperm hlater
      obtain ⟨hvisible, hread⟩ := hfield.written value hwrite
      refine ⟨(some b, slots), readMembers_take hpresent hother (hvalue.isPresent hvisible)
        (hread value' hvalue) hslots, ?_⟩
      show (do let b ← Except.ok b; return (b, ← rest.finish slots)) = Except.ok (b, p)
      rw [hfinish]
      rfl

variable {α : Type} {ofFields : P → α} {toFields : α → P}

/-- A record survives if its fields, which have names of their own, keep their parts of it. -/
theorem survives {a : α} (hnames : fields.names.Nodup) (hof : ofFields (toFields a) = a)
    (hkeeps : fields.Keeps (toFields a)) :
    @Survives α (fields.wire ofFields toFields) a := by
  refine @Survives.mk α (fields.wire ofFields toFields) a trivial fun j hj => ?_
  obtain ⟨members, between, rfl, hperm, hbetween⟩ := Json.Reorders.exists_obj hj
  obtain ⟨slots, hslots, hfinish⟩ := exists_slots hkeeps hnames hperm hbetween
  show (do return ofFields (← (do fields.finish (← fields.readMembers members fields.unread)))) =
    Except.ok a
  rw [hslots]
  show (do return ofFields (← fields.finish slots)) = Except.ok a
  rw [hfinish]
  exact congrArg Except.ok hof

end Fields

/-! ### Records of types that survive -/

/-- A field that keeps whatever it holds. -/
class Field.IsFaithful {β : Type} (field : Field β) : Prop where
  keeps : ∀ b, field.Keeps b

/-- Fields that keep whatever they hold. -/
class Fields.AreFaithful {P : Type} (fields : Fields P) : Prop where
  keeps : ∀ p, fields.Keeps p

section Instances
variable {α : Type} [Wire α] [Faithful α] {name : String}

instance : (Field.required name : Field α).IsFaithful :=
  ⟨fun b => Field.required_keeps (Faithful.survives b)⟩

instance : (Field.optional name : Field (Option α)).IsFaithful :=
  ⟨fun _ => Field.optional_keeps fun a _ => Faithful.survives a⟩

instance {default : α} : (Field.defaulted name default).IsFaithful :=
  ⟨fun b => Field.defaulted_keeps (Faithful.survives b)⟩

instance : (Field.map name : Field (KeyMap α)).IsFaithful :=
  ⟨fun _ => Field.map_keeps fun entry _ => Faithful.survives entry.2⟩

instance : (Field.list name : Field (List α)).IsFaithful :=
  ⟨fun _ => Field.list_keeps fun a _ => Faithful.survives a⟩

instance : Fields.nil.AreFaithful := ⟨fun _ => trivial⟩

instance {β P : Type} {field : Field β} {rest : Fields P} [field.IsFaithful] [rest.AreFaithful] :
    (Fields.cons field rest).AreFaithful :=
  ⟨fun p => ⟨Field.IsFaithful.keeps p.1, Fields.AreFaithful.keeps p.2⟩⟩

end Instances

/-- All records survive if their fields keep whatever they hold. -/
theorem Fields.faithful {α P : Type} {fields : Fields P} {ofFields : P → α} {toFields : α → P}
    [fields.AreFaithful] (hnames : fields.names.Nodup) (hof : ∀ a, ofFields (toFields a) = a) :
    @Faithful α (fields.wire ofFields toFields) :=
  @Faithful.mk α (fields.wire ofFields toFields) fun a =>
    survives hnames (hof a) (AreFaithful.keeps (toFields a))

/-! ### Attribute values -/

namespace AttributeValue

mutual
/-- An attribute value is read back in whatever order members stand. -/
theorem decode_of_reorders : ∀ (v : AttributeValue) (j : Json),
    j.Reorders (encode v) → decode j = .ok v
  | .text s, j, h => by
    obtain ⟨_, rfl, hpayload⟩ := Json.Reorders.exists_single h
    cases hpayload
    exact decode_of_reads (.text s)
  | .number n, j, h => by
    obtain ⟨_, rfl, hpayload⟩ := Json.Reorders.exists_single h
    cases hpayload
    exact decode_of_reads (.number n)
  | .binary bytes, j, h => by
    obtain ⟨_, rfl, hpayload⟩ := Json.Reorders.exists_single h
    cases hpayload
    exact decode_of_reads (.binary bytes)
  | .textSet members, j, h => by
    obtain ⟨_, rfl, hpayload⟩ := Json.Reorders.exists_single h
    obtain rfl := hpayload.eq_texts
    exact decode_of_reads (.textSet members)
  | .numberSet members, j, h => by
    obtain ⟨_, rfl, hpayload⟩ := Json.Reorders.exists_single h
    obtain rfl := hpayload.eq_texts
    exact decode_of_reads (.numberSet members)
  | .binarySet members, j, h => by
    obtain ⟨_, rfl, hpayload⟩ := Json.Reorders.exists_single h
    obtain rfl := hpayload.eq_texts
    exact decode_of_reads (.binarySet members)
  | .bool b, j, h => by
    obtain ⟨_, rfl, hpayload⟩ := Json.Reorders.exists_single h
    cases hpayload
    exact decode_of_reads (.bool b)
  | .null b, j, h => by
    obtain ⟨_, rfl, hpayload⟩ := Json.Reorders.exists_single h
    cases hpayload
    exact decode_of_reads (.null b)
  | .list values, j, h => by
    obtain ⟨_, rfl, hpayload⟩ := Json.Reorders.exists_single h
    obtain ⟨items, rfl, hitems⟩ := hpayload.exists_arr
    exact decode_of_reads (.list (decode_of_reordersList values items hitems))
  | .map entries, j, h => by
    obtain ⟨_, rfl, hpayload⟩ := Json.Reorders.exists_single h
    obtain ⟨members, between, rfl, hperm, hbetween⟩ := hpayload.exists_obj
    obtain ⟨entries', hentries, horder⟩ := List.perm_comp_forall₂ hperm
      (decode_of_reordersMap entries between hbetween)
    rw [← KeyMap.ofList_of_perm horder]
    exact decode_of_reads (.map hentries)

theorem decode_of_reordersList : ∀ (values : List AttributeValue) (items : List Json),
    List.Forall₂ Json.Reorders items (encodeList values) →
    List.Forall₂ (fun item value => decode item = .ok value) items values
  | [], _, h => by
    obtain rfl := List.forall₂_nil_right_iff.1 h
    exact .nil
  | v :: rest, _, h => by
    obtain ⟨item, items, hitem, hitems, rfl⟩ := List.forall₂_cons_right_iff.1 h
    exact .cons (decode_of_reorders v item hitem) (decode_of_reordersList rest items hitems)

theorem decode_of_reordersMap : ∀ (entries : KeyMap AttributeValue)
    (members : List (String × Json)), List.Forall₂ Json.MembersReorder members (encodeMap entries) →
    List.Forall₂ (fun member entry => member.1 = entry.1 ∧ decode member.2 = .ok entry.2) members
      entries.toList
  | ⟨keys, value⟩, members, h => by
    have hvalue : ∀ i j, j.Reorders (encode (value i)) → decode j = .ok (value i) :=
      fun i j => decode_of_reorders (value i) j
    rw [encodeMap_eq_map, List.forall₂_map_right_iff] at h
    refine forall₂_imp_of_mem h fun member entry hentry ⟨hname, hmember⟩ => ⟨hname, ?_⟩
    obtain ⟨i, hi⟩ := List.mem_ofFn.1 (List.of_mem_zip hentry).2
    have hentry : member.2.Reorders (encode entry.2) := hmember
    rw [← hi] at hentry ⊢
    exact hvalue i member.2 hentry
end

/-- An attribute value is an object with a member. -/
theorem isPresent_encode (v : AttributeValue) : (encode v).IsPresent := by
  cases v <;> exact trivial

instance : Faithful AttributeValue where
  survives v := ⟨isPresent_encode v, decode_of_reorders v⟩

end AttributeValue

end TableClient
