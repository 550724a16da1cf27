import TableClient.AttributeValue.Wire
import TableClient.Proofs.Base64
import TableClient.Proofs.Except
import TableClient.Proofs.Json

/-! The wire form of attribute values is exact.

A value is an object with one member, whose name says how the rest is read. `Reads` lists the ten
ways, given how the values in a value are read; `reads_of_decode` and `decode_of_reads` say that
these are the ways in which `decode` reads, and `decode_induction` carries what holds of each of
them to every value that is read.

`IsWire` describes the form without the reader. It asks for nothing but names, shapes and canonical
base64, and it is what is read (`isWire_of_decode`, `exists_decode_of_isWire`). What is written is
read as the value it was (`decode_encode`), and what is read is written in canonical form
(`encode_of_decode`), which is the same JSON value but for the order of members. -/
namespace TableClient

namespace AttributeValue

/-! ### Payloads -/

theorem decode_string_eq_ok_iff {value : Json} {text : String} :
    Wire.decode value = .ok text ↔ value = .str text := by
  cases value <;> simp [Wire.decode]

theorem decode_bool_eq_ok_iff {value : Json} {b : Bool} :
    Wire.decode value = .ok b ↔ value = .bool b := by
  cases value <;> simp [Wire.decode]

theorem decodeBytes_eq_ok_iff {value : Json} {bytes : Bytes} :
    decodeBytes value = .ok bytes ↔ value = encodeBytes bytes := by
  unfold decodeBytes encodeBytes
  split
  · next written =>
    rw [Json.str.injEq, eq_comm (a := written), ← Base64.decode?_eq_some_iff]
    cases Base64.decode? written <;> simp
  · next hother => simpa using fun h => hother _ h

theorem decodeItems_eq_mapM {α : Type} [Wire α] (items : List Json) :
    (Wire.decodeItems items : Except DecodeFault (List α)) = items.mapM Wire.decode := by
  induction items with
  | nil => rfl
  | cons item rest ih => rw [Wire.decodeItems, List.mapM_cons, ih]

theorem decodeBytesItems_eq_mapM (items : List Json) :
    decodeBytesItems items = items.mapM decodeBytes := by
  induction items with
  | nil => rfl
  | cons item rest ih => rw [decodeBytesItems, List.mapM_cons, ih]

theorem decodeList_eq_mapM (items : List Json) : decodeList items = items.mapM decode := by
  induction items with
  | nil => rfl
  | cons item rest ih => rw [decodeList, List.mapM_cons, ih]

theorem decodeMembers_eq_mapM (members : List (String × Json)) :
    decodeMembers members = members.mapM fun member => (member.1, ·) <$> decode member.2 := by
  induction members with
  | nil => rfl
  | cons member rest ih =>
    rw [decodeMembers, List.mapM_cons, ih]
    cases decode member.2 <;> rfl

theorem decode_strings_eq_ok_iff {value : Json} {texts : List String} :
    Wire.decode value = .ok texts ↔ value = .arr (texts.map .str) := by
  cases value with
  | arr items =>
    rw [show Wire.decode (.arr items) = (Wire.decodeItems items : Except _ (List String)) from rfl,
      decodeItems_eq_mapM, Json.arr.injEq]
    exact mapM_eq_ok_iff_eq_map fun _ _ => decode_string_eq_ok_iff
  | _ => simp [Wire.decode]

theorem decodeBytesItems_eq_ok_iff {items : List Json} {members : List Bytes} :
    decodeBytesItems items = .ok members ↔ Json.arr items = .arr (members.map encodeBytes) := by
  rw [decodeBytesItems_eq_mapM, Json.arr.injEq]
  exact mapM_eq_ok_iff_eq_map fun _ _ => decodeBytes_eq_ok_iff

theorem decodeList_eq_ok_iff {items : List Json} {values : List AttributeValue} :
    decodeList items = .ok values ↔
      List.Forall₂ (fun item value => decode item = .ok value) items values := by
  rw [decodeList_eq_mapM, mapM_eq_ok_iff_forall₂]

theorem decodeMembers_eq_ok_iff {members : List (String × Json)}
    {entries : List (String × AttributeValue)} :
    decodeMembers members = .ok entries ↔
      List.Forall₂ (fun member entry => member.1 = entry.1 ∧ decode member.2 = .ok entry.2) members
        entries := by
  have hmember (member : String × Json) (entry : String × AttributeValue) :
      (member.1, ·) <$> decode member.2 = .ok entry ↔
        member.1 = entry.1 ∧ decode member.2 = .ok entry.2 := by
    obtain ⟨name, value⟩ := entry
    cases decode member.2 <;> simp [Functor.map, Except.map]
  rw [decodeMembers_eq_mapM, mapM_eq_ok_iff_forall₂]
  simp only [hmember]

/-! ### One value -/

/-- How a value is read, given how the values in it are. -/
inductive Reads (R : Json → AttributeValue → Prop) : Json → AttributeValue → Prop where
  | text (text : String) : Reads R (.obj [("S", .str text)]) (.text text)
  | number (digits : String) : Reads R (.obj [("N", .str digits)]) (.number digits)
  | binary (bytes : Bytes) : Reads R (.obj [("B", encodeBytes bytes)]) (.binary bytes)
  | textSet (members : List String) :
    Reads R (.obj [("SS", .arr (members.map .str))]) (.textSet members)
  | numberSet (members : List String) :
    Reads R (.obj [("NS", .arr (members.map .str))]) (.numberSet members)
  | binarySet (members : List Bytes) :
    Reads R (.obj [("BS", .arr (members.map encodeBytes))]) (.binarySet members)
  | bool (b : Bool) : Reads R (.obj [("BOOL", .bool b)]) (.bool b)
  | null (b : Bool) : Reads R (.obj [("NULL", .bool b)]) (.null b)
  | list {items : List Json} {values : List AttributeValue} (h : List.Forall₂ R items values) :
    Reads R (.obj [("L", .arr items)]) (.list values)
  | map {members : List (String × Json)} {entries : List (String × AttributeValue)}
      (h : List.Forall₂ (fun member entry => member.1 = entry.1 ∧ R member.2 entry.2) members
        entries) :
    Reads R (.obj [("M", .obj members)]) (.map (.ofList entries))

/-- The values in a value are smaller. -/
theorem Reads.mono {R S : Json → AttributeValue → Prop} {j : Json} {v : AttributeValue}
    (h : Reads R j v) (hRS : ∀ item value, sizeOf item < sizeOf j → R item value → S item value) :
    Reads S j v := by
  cases h with
  | text text => exact .text text
  | number digits => exact .number digits
  | binary bytes => exact .binary bytes
  | textSet members => exact .textSet members
  | numberSet members => exact .numberSet members
  | binarySet members => exact .binarySet members
  | bool b => exact .bool b
  | null b => exact .null b
  | @list items values h =>
    have hmem := (List.forall₂_and_left _ _).2 ⟨fun item (hitem : item ∈ items) => hitem, h⟩
    refine .list (hmem.imp fun item value ⟨hitem, hR⟩ => hRS item value ?_ hR)
    have hsize := List.sizeOf_lt_of_mem hitem
    simp only [Json.obj.sizeOf_spec, Json.arr.sizeOf_spec, List.cons.sizeOf_spec,
      Prod.mk.sizeOf_spec]
    omega
  | @map members entries h =>
    have hmem := (List.forall₂_and_left _ _).2
      ⟨fun member (hmember : member ∈ members) => hmember, h⟩
    refine .map (hmem.imp fun member entry ⟨hmember, hname, hR⟩ =>
      ⟨hname, hRS member.2 entry.2 ?_ hR⟩)
    have hsize := List.sizeOf_lt_of_mem hmember
    obtain ⟨name, value⟩ := member
    simp only [Json.obj.sizeOf_spec, List.cons.sizeOf_spec, Prod.mk.sizeOf_spec] at hsize ⊢
    omega

/-! ### One member -/

section Member
variable {R : Json → AttributeValue → Prop} {α : Type} {payload : Except DecodeFault α}
  {make : α → AttributeValue} {name : String} {value : Json} {rest : List (String × Json)}
  {v : AttributeValue}

theorem exists_of_only (h : (do only rest (make (← payload))) = .ok v) :
    rest = [] ∧ ∃ a, payload = .ok a ∧ v = make a := by
  obtain ⟨a, ha, h⟩ := exists_of_bind_eq_ok h
  unfold only at h
  cases rest with
  | nil => exact ⟨rfl, a, ha, (Except.ok.inj h).symm⟩
  | cons member rest => cases h

theorem only_of_ok (make : α → AttributeValue) {a : α} (h : payload = .ok a) :
    (do only [] (make (← payload))) = .ok (make a) := by
  rw [h]
  rfl

/-- A member whose value holds what is read from it. -/
theorem reads_of_payload
    (hreads : ∀ a, payload = .ok a → Reads R (.obj [(name, value)]) (make a))
    (h : (do only rest (make (← payload))) = .ok v) : Reads R (.obj ((name, value) :: rest)) v := by
  obtain ⟨rfl, a, ha, rfl⟩ := exists_of_only h
  exact hreads a ha

/-- A member whose value is as it would be written. -/
theorem reads_of_written {written : α → Json}
    (hwritten : ∀ {a}, payload = .ok a ↔ value = written a)
    (hreads : ∀ a, Reads R (.obj [(name, written a)]) (make a))
    (h : (do only rest (make (← payload))) = .ok v) : Reads R (.obj ((name, value) :: rest)) v := by
  refine reads_of_payload (fun a ha => ?_) h
  rw [hwritten.1 ha]
  exact hreads a

end Member

/-! ### Reading -/

theorem decode_of_reads {j : Json} {v : AttributeValue}
    (h : Reads (fun j v => decode j = .ok v) j v) : decode j = .ok v := by
  cases h with
  | text | number | bool | null => rfl
  | binary bytes => exact only_of_ok .binary (decodeBytes_eq_ok_iff.2 rfl)
  | textSet members => exact only_of_ok .textSet (decode_strings_eq_ok_iff.2 rfl)
  | numberSet members => exact only_of_ok .numberSet (decode_strings_eq_ok_iff.2 rfl)
  | binarySet members => exact only_of_ok .binarySet (decodeBytesItems_eq_ok_iff.2 rfl)
  | list h => exact only_of_ok .list (decodeList_eq_ok_iff.2 h)
  | map h => exact only_of_ok (fun es => .map (.ofList es)) (decodeMembers_eq_ok_iff.2 h)

theorem reads_of_decode {j : Json} {v : AttributeValue} (h : decode j = .ok v) :
    Reads (fun j v => decode j = .ok v) j v := by
  unfold decode at h
  split at h
  -- no member, or one whose name cannot be read
  · cases h
  · cases h
  · cases h
  · -- names are tried one after the other
    rw [ite_eq_iff] at h
    rcases h with ⟨rfl, h⟩ | ⟨-, h⟩
    · exact reads_of_written decode_string_eq_ok_iff .text h
    rw [ite_eq_iff] at h
    rcases h with ⟨rfl, h⟩ | ⟨-, h⟩
    · exact reads_of_written decode_string_eq_ok_iff .number h
    rw [ite_eq_iff] at h
    rcases h with ⟨rfl, h⟩ | ⟨-, h⟩
    · exact reads_of_written decodeBytes_eq_ok_iff .binary h
    rw [ite_eq_iff] at h
    rcases h with ⟨rfl, h⟩ | ⟨-, h⟩
    · exact reads_of_written decode_strings_eq_ok_iff .textSet h
    rw [ite_eq_iff] at h
    rcases h with ⟨rfl, h⟩ | ⟨-, h⟩
    · exact reads_of_written decode_strings_eq_ok_iff .numberSet h
    rw [ite_eq_iff] at h
    rcases h with ⟨rfl, h⟩ | ⟨-, h⟩
    · split at h
      · exact reads_of_written decodeBytesItems_eq_ok_iff .binarySet h
      · cases h
    rw [ite_eq_iff] at h
    rcases h with ⟨rfl, h⟩ | ⟨-, h⟩
    · exact reads_of_written decode_bool_eq_ok_iff .bool h
    rw [ite_eq_iff] at h
    rcases h with ⟨rfl, h⟩ | ⟨-, h⟩
    · exact reads_of_written decode_bool_eq_ok_iff .null h
    rw [ite_eq_iff] at h
    rcases h with ⟨rfl, h⟩ | ⟨-, h⟩
    · split at h
      · exact reads_of_payload (fun _ ha => .list (decodeList_eq_ok_iff.1 ha)) h
      · cases h
    rw [ite_eq_iff] at h
    rcases h with ⟨rfl, h⟩ | ⟨-, h⟩
    · split at h
      · exact reads_of_payload (fun _ ha => .map (decodeMembers_eq_ok_iff.1 ha)) h
      · cases h
    · cases h
  · cases h

/-- What passes from the values in a value to the value itself holds of every value that is read. -/
theorem decode_induction {P : Json → AttributeValue → Prop} (step : ∀ j v, Reads P j v → P j v)
    {j : Json} {v : AttributeValue} (h : decode j = .ok v) : P j v :=
  step j v ((reads_of_decode h).mono fun _ _ _ hitem => decode_induction step hitem)
termination_by sizeOf j

/-! ### The format -/

/-- The wire forms: objects with one member, whose name says of what shape it is. -/
inductive IsWire : Json → Prop where
  | text (text : String) : IsWire (.obj [("S", .str text)])
  | number (digits : String) : IsWire (.obj [("N", .str digits)])
  | binary {written : String} (h : Base64.IsCanonical written.toList) :
    IsWire (.obj [("B", .str written)])
  | textSet (members : List String) : IsWire (.obj [("SS", .arr (members.map .str))])
  | numberSet (members : List String) : IsWire (.obj [("NS", .arr (members.map .str))])
  | binarySet {members : List String} (h : ∀ written ∈ members, Base64.IsCanonical written.toList) :
    IsWire (.obj [("BS", .arr (members.map .str))])
  | bool (b : Bool) : IsWire (.obj [("BOOL", .bool b)])
  | null (b : Bool) : IsWire (.obj [("NULL", .bool b)])
  | list {items : List Json} (h : ∀ item ∈ items, IsWire item) : IsWire (.obj [("L", .arr items)])
  | map {members : List (String × Json)} (h : ∀ member ∈ members, IsWire member.2) :
    IsWire (.obj [("M", .obj members)])

theorem isCanonical_encode (bytes : Bytes) :
    Base64.IsCanonical (Base64.encode bytes).toList :=
  Base64.exists_decode?_iff.1 ⟨bytes, Base64.decode?_eq_some_iff.2 rfl⟩

theorem isWire_of_decode {j : Json} {v : AttributeValue} (h : decode j = .ok v) : IsWire j := by
  refine decode_induction (P := fun j _ => IsWire j) (fun j v h => ?_) h
  cases h with
  | text text => exact .text text
  | number digits => exact .number digits
  | binary bytes => exact .binary (isCanonical_encode bytes)
  | textSet members => exact .textSet members
  | numberSet members => exact .numberSet members
  | binarySet members =>
    rw [show members.map encodeBytes = (members.map Base64.encode).map .str by
      rw [List.map_map]; rfl]
    refine .binarySet fun written hwritten => ?_
    obtain ⟨bytes, -, rfl⟩ := List.mem_map.1 hwritten
    exact isCanonical_encode bytes
  | bool b => exact .bool b
  | null b => exact .null b
  | list h =>
    refine .list fun item hitem => ?_
    obtain ⟨_, hwire⟩ := exists_forall₂_iff.1 ⟨_, h⟩ item hitem
    exact hwire
  | map h =>
    refine .map fun member hmember => ?_
    obtain ⟨_, -, hwire⟩ := exists_forall₂_iff.1 ⟨_, h⟩ member hmember
    exact hwire

theorem exists_decode_of_isWire {j : Json} (h : IsWire j) : ∃ v, decode j = .ok v := by
  induction h with
  | text text => exact ⟨_, decode_of_reads (.text text)⟩
  | number digits => exact ⟨_, decode_of_reads (.number digits)⟩
  | binary h =>
    obtain ⟨bytes, hbytes⟩ := Base64.exists_decode?_iff.2 h
    rw [← Base64.decode?_eq_some_iff.1 hbytes]
    exact ⟨_, decode_of_reads (.binary bytes)⟩
  | textSet members => exact ⟨_, decode_of_reads (.textSet members)⟩
  | numberSet members => exact ⟨_, decode_of_reads (.numberSet members)⟩
  | @binarySet written h =>
    have hbytes : ∀ text ∈ written, ∃ bytes, text = Base64.encode bytes := by
      intro text htext
      obtain ⟨bytes, hbytes⟩ := Base64.exists_decode?_iff.2 (h text htext)
      exact ⟨bytes, (Base64.decode?_eq_some_iff.1 hbytes).symm⟩
    obtain ⟨members, hmembers⟩ := exists_forall₂_iff.2 hbytes
    rw [← List.forall₂_map_right_iff, List.forall₂_eq_eq_eq] at hmembers
    rw [hmembers, List.map_map]
    exact ⟨_, decode_of_reads (.binarySet members)⟩
  | bool b => exact ⟨_, decode_of_reads (.bool b)⟩
  | null b => exact ⟨_, decode_of_reads (.null b)⟩
  | list _ ih =>
    obtain ⟨values, hvalues⟩ := exists_forall₂_iff.2 ih
    exact ⟨_, decode_of_reads (.list hvalues)⟩
  | @map members _ ih =>
    have hentries : ∀ member ∈ members, ∃ entry : String × AttributeValue,
        member.1 = entry.1 ∧ decode member.2 = .ok entry.2 := by
      intro member hmember
      obtain ⟨v, hv⟩ := ih member hmember
      exact ⟨(member.1, v), rfl, hv⟩
    obtain ⟨entries, hentries⟩ := exists_forall₂_iff.2 hentries
    exact ⟨_, decode_of_reads (.map hentries)⟩

/-! ### Writing -/

theorem encodeList_eq_map (values : List AttributeValue) :
    encodeList values = values.map encode := by
  induction values with
  | nil => rfl
  | cons v rest ih => rw [encodeList, ih, List.map_cons]

theorem encodeMap_eq_map (m : KeyMap AttributeValue) :
    encodeMap m = m.toList.map (Prod.map id encode) := by
  obtain ⟨keys, value⟩ := m
  rw [encodeMap, KeyMap.toList, ← List.zip_map_right, List.map_ofFn]
  rfl

/-- A value that is read is written in canonical form. -/
theorem encode_of_decode {j : Json} {v : AttributeValue} (h : decode j = .ok v) :
    encode v = j.canonical := by
  refine decode_induction (P := fun j v => encode v = j.canonical) (fun j v h => ?_) h
  have hsingle (name : String) (value : Json) :
      (Json.obj [(name, value)]).canonical = .obj [(name, value.canonical)] := rfl
  cases h with
  | text text => rfl
  | number digits => rfl
  | binary bytes => rfl
  | textSet members | numberSet members | binarySet members =>
    rw [hsingle, Json.canonical, Json.canonicalItems_eq_map, List.map_map, encode]
    rfl
  | bool b => rfl
  | null b => rfl
  | @list items values h =>
    have hvalues : values.map encode = items.map Json.canonical :=
      map_eq_map_iff_forall₂.2 h.flip
    rw [hsingle, Json.canonical, Json.canonicalItems_eq_map, encode, encodeList_eq_map, hvalues]
  | @map members entries h =>
    -- of several members of one name the map keeps the last, and so does the canonical form
    have hentries :
        entries.map (Prod.map id encode) = members.map (Prod.map id Json.canonical) :=
      map_eq_map_iff_forall₂.2 <|
        h.flip.imp fun entry member hentry => Prod.ext hentry.1.symm hentry.2
    rw [hsingle, Json.canonical, Json.canonicalMembers_eq_map, encode, encodeMap_eq_map,
      KeyMap.toList_ofList, Sorted.map_putAll, hentries, List.map_nil]

mutual
/-- What is written is read as the value it was. -/
theorem decode_encode : ∀ v : AttributeValue, decode (encode v) = .ok v
  | .text s => decode_of_reads (.text s)
  | .number n => decode_of_reads (.number n)
  | .binary bytes => decode_of_reads (.binary bytes)
  | .textSet members => decode_of_reads (.textSet members)
  | .numberSet members => decode_of_reads (.numberSet members)
  | .binarySet members => decode_of_reads (.binarySet members)
  | .bool b => decode_of_reads (.bool b)
  | .null b => decode_of_reads (.null b)
  | .list values => decode_of_reads (.list (decode_encodeList values))
  | .map entries => by
    have h := decode_of_reads (.map (decode_encodeMap entries))
    rwa [KeyMap.ofList_toList] at h

theorem decode_encodeList : ∀ values : List AttributeValue,
    List.Forall₂ (fun item value => decode item = .ok value) (encodeList values) values
  | [] => .nil
  | v :: rest => .cons (decode_encode v) (decode_encodeList rest)

theorem decode_encodeMap : ∀ entries : KeyMap AttributeValue, List.Forall₂
    (fun member entry => member.1 = entry.1 ∧ decode member.2 = .ok entry.2) (encodeMap entries)
    entries.toList
  | ⟨keys, value⟩ => by
    have h : ∀ i, decode (encode (value i)) = .ok (value i) := fun i => decode_encode (value i)
    rw [encodeMap_eq_map, List.forall₂_map_left_iff, List.forall₂_same]
    intro entry hentry
    obtain ⟨i, hi⟩ := List.mem_ofFn.1 (List.of_mem_zip hentry).2
    refine ⟨rfl, ?_⟩
    rw [Prod.map_snd, ← hi]
    exact h i
end

/-- The wire form is exact: what is written is read as the value it was, what is read is what has
the form, and what is read is written as it was, but for the order in which members stand. -/
theorem decode_exact :
    (∀ v, decode (encode v) = .ok v) ∧
    (∀ j, (∃ v, decode j = .ok v) ↔ IsWire j) ∧
    ∀ j v, j.NamesDiffer → decode j = .ok v → (encode v).Reorders j := by
  refine ⟨decode_encode, fun j => ⟨fun ⟨_, h⟩ => isWire_of_decode h, exists_decode_of_isWire⟩, ?_⟩
  intro j v hnames h
  rw [encode_of_decode h]
  exact Json.reorders_canonical hnames

/-- A map whose members do not ascend is written with its members in order. -/
theorem decode_exact_unordered :
    let j : Json := .obj [("M", .obj [
      ("b", .obj [("N", .str "7")]),
      ("a", .obj [("L", .arr [.obj [("B", .str "AA==")]])])])]
    let v : AttributeValue := .map (.ofList [("a", .list [.binary [0]]), ("b", .number "7")])
    decode j = .ok v ∧ j.NamesDiffer ∧ IsWire j ∧ (encode v).Reorders j := by
  intro j v
  have hdecode : decode j = .ok v := rfl
  have hnames : j.NamesDiffer := by
    have hbytes : (Json.obj [("B", .str "AA==")]).NamesDiffer := .single (.str _)
    have hlist : (Json.arr [.obj [("B", .str "AA==")]]).NamesDiffer := .arr (by simpa using hbytes)
    have hb : (Json.obj [("N", .str "7")]).NamesDiffer := .single (.str _)
    exact .single (.obj (by decide) (by simpa using ⟨hb, .single hlist⟩))
  obtain ⟨-, hform, horder⟩ := decode_exact
  exact ⟨hdecode, hnames, (hform j).1 ⟨v, hdecode⟩, horder j v hnames hdecode⟩

end AttributeValue

end TableClient
