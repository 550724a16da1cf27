import TableClient.Proofs.Faults
import TableClient.Proofs.Path.Part

/-! A path and its text determine each other.

A text that is read as a path is displayed part by part as it was, but that list indices are
spelled in plain decimal (`Respells`), and it is then read as the same path. The other way round, a
path that can be rendered is read back from its display if its names hold none of the characters
that delimit them (`parse_display_of_isSound`). -/
namespace TableClient

namespace Path

/-! ### The text of a part -/

/-- A part of a path, and what it is displayed as. -/
inductive Respells : List Char → List Char → Prop where
  /-- The indices behind a name are spelled in plain decimal. -/
  | indexed {part : List Char} {ns : List Nat} (h : IsIndices (behind part) ns) :
    Respells part (stem part ++ brackets ns)
  /-- With anything else behind the name, the part is left as it is. -/
  | verbatim {part : List Char} (h : ∀ ns, ¬IsIndices (behind part) ns) : Respells part part

theorem exists_respells (part : List Char) : ∃ out, Respells part out := by
  by_cases h : ∃ ns, IsIndices (behind part) ns
  · obtain ⟨ns, indices⟩ := h
    exact ⟨_, .indexed indices⟩
  · exact ⟨part, .verbatim (not_exists.1 h)⟩

/-- The text of segments that are not the first. -/
def laterText (segments : List Segment) : List Char :=
  segments.flatMap fun s => (Segment.later s).toList

theorem laterText_append (a b : List Segment) : laterText (a ++ b) = laterText a ++ laterText b :=
  List.flatMap_append

theorem toList_display_cons (first : Segment) (rest : List Segment) :
    (display ⟨first :: rest⟩).toList = (Segment.leading first).toList ++ laterText rest := by
  rw [display, String.toList_append, String.toList_join, List.flatMap_map]
  rfl

theorem toList_later_index (n : Nat) :
    (Segment.later (.index n)).toList = '[' :: ((toString n).toList ++ [']']) := by
  simp only [Segment.later, String.toList_append]
  rfl

theorem laterText_indices (ns : List Nat) : laterText (ns.map .index) = brackets ns := by
  rw [laterText, List.flatMap_map, brackets]
  exact List.flatMap_congr fun n _ => toList_later_index n

theorem point_not_mem_brackets (ns : List Nat) : '.' ∉ brackets ns := by
  intro member
  obtain ⟨n, -, member⟩ := List.mem_flatMap.1 member
  have digit : '.' ∈ (toString n).toList := by simpa using member
  exact absurd ((Number.isDigits_toString n).decimal '.' digit) (by decide)

namespace Respells
variable {part out : List Char}

/-- What a part is displayed as behind others. -/
theorem laterText (h : Respells part out) :
    Path.laterText (partSegments false part) = '.' :: out := by
  cases h with
  | @indexed ns indices =>
    rw [partSegments_of_isIndices indices, if_neg (by simp)]
    show (Segment.later _).toList ++ Path.laterText (ns.map .index) = _
    rw [laterText_indices]
    simp [Segment.later]
  | verbatim other =>
    rw [partSegments_of_not_isIndices other]
    simp [Path.laterText, Segment.later]

/-- What a part is displayed as before others. -/
theorem display (h : Respells part out) (later : List Segment) :
    (Path.display ⟨partSegments true part ++ later⟩).toList = out ++ Path.laterText later := by
  cases h with
  | @indexed ns indices =>
    rw [partSegments_of_isIndices indices]
    split
    · next start =>
      obtain ⟨nameless, -, some⟩ := start
      obtain ⟨n, rest, rfl⟩ := List.exists_cons_of_ne_nil some
      have first : brackets (n :: rest) = (Segment.later (.index n)).toList ++ brackets rest := by
        rw [← laterText_indices, ← laterText_indices]
        rfl
      rw [List.map_cons, List.cons_append, toList_display_cons, laterText_append,
        laterText_indices, nameless, List.nil_append, first, List.append_assoc]
      rfl
    · rw [List.cons_append, toList_display_cons, laterText_append, laterText_indices]
      simp [Segment.leading]
  | verbatim other =>
    rw [partSegments_of_not_isIndices other, List.cons_append, toList_display_cons]
    simp [Segment.leading]

/-- What a part is displayed as is read as the part. -/
theorem partSegments (h : Respells part out) (start : Bool) :
    Path.partSegments start out = Path.partSegments start part := by
  cases h with
  | indexed indices => exact partSegments_append_brackets indices start
  | verbatim _ => rfl

/-- No point is put in a part. -/
theorem point_not_mem (h : Respells part out) (plain : '.' ∉ part) : '.' ∉ out := by
  cases h with
  | verbatim _ => exact plain
  | @indexed ns indices =>
    rw [List.mem_append, not_or]
    refine ⟨fun member => plain ?_, point_not_mem_brackets ns⟩
    rw [← stem_append_behind part]
    exact List.mem_append_left _ member

/-- The empty part, and no other, is displayed as nothing. -/
theorem eq_nil_iff (h : Respells part out) : out = [] ↔ part = [] := by
  cases h with
  | verbatim _ => exact .rfl
  | @indexed ns indices =>
    have brackets_eq_nil : brackets ns = [] ↔ ns = [] := by cases ns <;> simp [brackets]
    rw [List.append_eq_nil_iff, brackets_eq_nil, ← indices.eq_nil_iff, ← List.append_eq_nil_iff,
      stem_append_behind]

end Respells

/-! ### The text of a path -/

/-- Parts joined by points. -/
theorem intercalate_point_cons (first : List Char) (others : List (List Char)) :
    ['.'].intercalate (first :: others) = first ++ others.flatMap ('.' :: ·) := by
  induction others generalizing first with
  | nil => simp
  | cons next others ih =>
    rw [List.intercalate_cons_cons, ih next, List.flatMap_cons, List.append_assoc]
    rfl

section Parts
variable {ps outs : List (List Char)}

theorem laterText_partsSegments (h : List.Forall₂ Respells ps outs) :
    laterText (partsSegments false ps) = outs.flatMap ('.' :: ·) := by
  induction h with
  | nil => rfl
  | cons first _ ih => rw [partsSegments, laterText_append, first.laterText, ih, List.flatMap_cons]

theorem partsSegments_congr (h : List.Forall₂ Respells ps outs) (start : Bool) :
    partsSegments start outs = partsSegments start ps := by
  induction h generalizing start with
  | nil => rfl
  | cons first _ ih => rw [partsSegments, partsSegments, first.partSegments, ih]

theorem toList_display_partsSegments (h : List.Forall₂ Respells ps outs) (some : ps ≠ []) :
    (display ⟨partsSegments true ps⟩).toList = ['.'].intercalate outs := by
  cases h with
  | nil => exact absurd rfl some
  | cons first others =>
    rw [partsSegments, first.display, laterText_partsSegments others, intercalate_point_cons]

theorem singleton_nil_iff (h : List.Forall₂ Respells ps outs) : ps = [[]] ↔ outs = [[]] := by
  cases h with
  | nil => exact ⟨nofun, nofun⟩
  | cons first others =>
    cases others with
    | nil => simp [first.eq_nil_iff]
    | cons second _ => exact ⟨nofun, nofun⟩

theorem point_not_mem_of_forall₂ (h : List.Forall₂ Respells ps outs)
    (plain : ∀ part ∈ ps, '.' ∉ part) : ∀ out ∈ outs, '.' ∉ out := by
  induction h with
  | nil => exact nofun
  | cons first _ ih =>
    obtain ⟨here, there⟩ := List.forall_mem_cons.1 plain
    exact List.forall_mem_cons.2 ⟨first.point_not_mem here, ih there⟩

end Parts

/-- The text without characters is one part without any. -/
theorem parts_eq_singleton_nil_iff {chars : List Char} : parts chars = [[]] ↔ chars = [] := by
  constructor
  · intro h
    rw [← intercalate_parts chars, h, List.intercalate_singleton]
  · rintro rfl
    rfl

theorem parse_eq {text : String} (some : text ≠ "") :
    parse text = ⟨partsSegments true (parts text.toList)⟩ := by
  rw [parse, if_neg (by rwa [String.isEmpty_iff])]

/-- A text is displayed part by part, and its display is read as the text is. -/
theorem exists_display_parse (text : String) :
    ∃ outs, List.Forall₂ Respells (parts text.toList) outs ∧
      (parse text).display.toList = ['.'].intercalate outs ∧
      parse (parse text).display = parse text := by
  obtain ⟨outs, respells⟩ : ∃ outs, List.Forall₂ Respells (parts text.toList) outs :=
    exists_forall₂_iff.2 fun part _ => exists_respells part
  refine ⟨outs, respells, ?_⟩
  have same : text = "" ↔ outs = [[]] := by
    rw [← String.toList_eq_nil_iff, ← parts_eq_singleton_nil_iff]
    exact singleton_nil_iff respells
  by_cases empty : text = ""
  · rw [same.1 empty, empty]
    exact ⟨rfl, rfl⟩
  · have shown : (parse text).display.toList = ['.'].intercalate outs := by
      rw [parse_eq empty]
      exact toList_display_partsSegments respells (parts_ne_nil _)
    have split : parts (parse text).display.toList = outs := by
      rw [shown]
      apply parts_intercalate
      · exact point_not_mem_of_forall₂ respells fun part => point_not_mem_of_mem_parts
      · rintro rfl
        exact parts_ne_nil _ (List.forall₂_nil_right_iff.1 respells)
    have some : (parse text).display ≠ "" := by
      rwa [Ne, ← String.toList_eq_nil_iff, ← parts_eq_singleton_nil_iff, split, ← same]
    refine ⟨shown, ?_⟩
    rw [parse_eq some, split, partsSegments_congr respells, parse_eq empty]

/-! ### Paths that can be rendered -/

/-- The names of segments hold neither points nor opening brackets, and no index is greater than a
position can be. -/
structure IsDelimited (segments : List Segment) : Prop where
  names : ∀ name, .name name ∈ segments → '.' ∉ name.toList ∧ '[' ∉ name.toList
  indices : ∀ n, .index n ∈ segments → n ≤ Number.max64

theorem IsDelimited.of_cons {segment : Segment} {rest : List Segment}
    (h : IsDelimited (segment :: rest)) : IsDelimited rest where
  names name member := h.names name (List.mem_cons_of_mem _ member)
  indices n member := h.indices n (List.mem_cons_of_mem _ member)

theorem partSegments_name {name : String} (some : name ≠ "") (plain : '[' ∉ name.toList)
    {ns : List Nat} (small : ∀ n ∈ ns, n ≤ Number.max64) (start : Bool) :
    partSegments start (name.toList ++ brackets ns) = .name name :: ns.map .index := by
  have indices : IsIndices (behind (name.toList ++ brackets ns)) ns := by
    rw [behind_append_brackets plain]
    exact isIndices_brackets small
  have stem := stem_append_brackets plain ns
  rw [partSegments_of_isIndices indices, stem, String.ofList_toList,
    if_neg fun start => some (String.toList_eq_nil_iff.1 start.1)]

/-- A name is read with the indices behind it, and then what stands behind these. -/
theorem partsSegments_parts {name : String} (some : name ≠ "")
    (plain : '.' ∉ name.toList ∧ '[' ∉ name.toList) {ns : List Nat}
    (small : ∀ n ∈ ns, n ≤ Number.max64) {later : List Segment} (named : .name "" ∉ later)
    (delimited : IsDelimited later) (start : Bool) :
    partsSegments start (parts (name.toList ++ brackets ns ++ laterText later)) =
      .name name :: (ns.map .index ++ later) := by
  induction later generalizing name ns start with
  | nil =>
    have whole : parts (name.toList ++ brackets ns) = [name.toList ++ brackets ns] := by
      have pointless : ∀ part ∈ [name.toList ++ brackets ns], '.' ∉ part := by
        simpa using ⟨plain.1, point_not_mem_brackets ns⟩
      simpa using parts_intercalate pointless
    show partsSegments start (parts (name.toList ++ brackets ns ++ [])) = _
    rw [List.append_nil, whole, partsSegments, partSegments_name some plain.2 small]
    rfl
  | cons segment rest ih =>
    have named' : .name "" ∉ rest := fun member => named (List.mem_cons_of_mem _ member)
    have rest_delimited := delimited.of_cons
    cases segment with
    | index n =>
      have bounded : n ≤ Number.max64 := delimited.indices n List.mem_cons_self
      have more : ∀ m ∈ ns ++ [n], m ≤ Number.max64 := by
        simpa [or_imp, forall_and] using ⟨small, bounded⟩
      have text : brackets ns ++ laterText (.index n :: rest) =
          brackets (ns ++ [n]) ++ laterText rest := by
        rw [← laterText_indices, ← laterText_indices, ← laterText_append, ← laterText_append]
        simp
      rw [List.append_assoc, text, ← List.append_assoc, ih some plain more named' rest_delimited]
      simp
    | name next =>
      have first : '.' ∉ name.toList ++ brackets ns := by
        simpa using ⟨plain.1, point_not_mem_brackets ns⟩
      have some' : next ≠ "" := by
        rintro rfl
        exact named List.mem_cons_self
      have text : laterText (.name next :: rest) =
          '.' :: (next.toList ++ brackets [] ++ laterText rest) := by
        simp [laterText, Segment.later, brackets]
      rw [text, parts_append_point first, partsSegments, partSegments_name some plain.2 small,
        ih some' (delimited.names next List.mem_cons_self) (List.forall_mem_nil _) named'
          rest_delimited]
      rfl

/-- A sound path whose names hold no delimiters is read back from its display. -/
theorem parse_display_of_isSound {p : Path} (sound : p.IsSound)
    (delimited : IsDelimited p.segments) : parse p.display = p := by
  obtain ⟨segments⟩ := p
  obtain ⟨first, later, rfl⟩ := sound.rooted
  have named := sound.named
  have some : first ≠ "" := by
    rintro rfl
    exact named List.mem_cons_self
  have shown : (display ⟨.name first :: later⟩).toList =
      first.toList ++ brackets [] ++ laterText later := by
    rw [toList_display_cons]
    simp [brackets, Segment.leading]
  have shown_some : display ⟨.name first :: later⟩ ≠ "" := by
    rw [Ne, ← String.toList_eq_nil_iff, shown]
    simp [some]
  have plain := delimited.names first List.mem_cons_self
  rw [parse_eq shown_some, shown, partsSegments_parts some plain (List.forall_mem_nil _)
    (fun member => named (List.mem_cons_of_mem _ member)) delimited.of_cons]
  rfl

/-- A path is compiled unless something is wrong with it, and then that is what is reported. -/
theorem error?_compile (p : Path) (s : Scope) : error? (p.compile s).1 = p.fault? :=
  Emit.error?_fragment p.meets_emit s

/-- A path that is compiled is sound. -/
theorem isSound_of_compile {p : Path} {s : Scope} {f : Fragment} (h : (p.compile s).1 = .ok f) :
    p.IsSound := by
  rw [← fault?_eq_none_iff, ← error?_compile p s, error?_eq_none_iff]
  exact ⟨f, h⟩

/-- **A text is displayed as it was but for the spelling of list indices, and reading is the
inverse of displaying.** Of a text that is read as a path, each part is displayed as it was, or
with its indices in plain decimal if nothing but indices stands behind its name; and what is
displayed is read as the same path. A path that can be compiled, and whose names hold neither
points nor opening brackets, is read back from its display; its indices are positions of 64
bits. -/
theorem parse_display_inverse :
    (∀ text : String,
      (∃ outs, List.Forall₂ Respells (text.toList.splitOn '.') outs ∧
        (parse text).display.toList = ['.'].intercalate outs) ∧
      parse (parse text).display = parse text) ∧
    ∀ (p : Path) (s : Scope) (f : Fragment), (p.compile s).1 = .ok f →
      (∀ n, .index n ∈ p.segments → n ≤ Number.max64) →
      (∀ name, .name name ∈ p.segments → '.' ∉ name.toList ∧ '[' ∉ name.toList) →
      parse p.display = p := by
  constructor
  · intro text
    obtain ⟨outs, respells, shown, again⟩ := exists_display_parse text
    rw [← parts_eq_splitOn]
    exact ⟨⟨outs, respells, shown⟩, again⟩
  · intro p s f compiled indices names
    exact parse_display_of_isSound (isSound_of_compile compiled) ⟨names, indices⟩

/-- Two indices are spelled with a sign or zeros before them, and a bracket is part of a name. A
closing bracket that is part of a name delimits nothing. -/
theorem parse_display_inverse_spelled :
    (parse "[+1].a[007].b[x]").display = "[1].a[7].b[x]" ∧
      parse "[1].a[7].b[x]" = parse "[+1].a[007].b[x]" ∧
      (compile ⟨[.name "a]", .index 3, .name "b"]⟩ {}).1 =
        .ok ⟨"#attr0[3].#attr1", ⟨[("#attr0", "a]"), ("#attr1", "b")], []⟩⟩ ∧
      parse "a][3].b" = ⟨[.name "a]", .index 3, .name "b"]⟩ := by
  have shown : (parse "[+1].a[007].b[x]").display = "[1].a[7].b[x]" := by decide +kernel
  have again := (parse_display_inverse.1 "[+1].a[007].b[x]").2
  rw [shown] at again
  have compiled : (compile ⟨[.name "a]", .index 3, .name "b"]⟩ {}).1 =
      .ok ⟨"#attr0[3].#attr1", ⟨[("#attr0", "a]"), ("#attr1", "b")], []⟩⟩ := by
    decide +kernel
  refine ⟨shown, again, compiled, ?_⟩
  exact parse_display_inverse.2 ⟨[.name "a]", .index 3, .name "b"]⟩ {} _ compiled
    (by simp [Number.max64]) (by simp)

end Path

end TableClient
