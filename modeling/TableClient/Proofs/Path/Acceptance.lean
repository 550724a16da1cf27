import TableClient.Proofs.Binding
import TableClient.Proofs.Path.Display

/-! Which texts are paths.

Any text is read as a path, but not every path can be rendered. A part that is empty, or that is
nothing but list indices (`IsBare`), leaves a name empty, or at the start of the path leaves none
(`fault?_parse`). Without such a part, each part is bound as one name, its brackets taken off if
they hold indices (`boundName`). So it can be told from the parts of a text alone whether it is a
path, what it binds, and what is wrong with it if not (`compile_parse`). -/
namespace TableClient

namespace Path

/-! ### Bare indices and names -/

/-- A part that is nothing but list indices, one or more. -/
def IsBare (part : List Char) : Prop := ∃ ns, ns ≠ [] ∧ IsIndices part ns

/-- Whether a text is nothing but indices is decided by reading it. -/
instance (chars : List Char) : Decidable (∃ ns, IsIndices chars ns) :=
  decidable_of_iff ((indices? chars).isSome = true) <| by
    simp only [Option.isSome_iff_exists, indices?_eq_some_iff]

theorem isBare_iff {part : List Char} : IsBare part ↔ part ≠ [] ∧ ∃ ns, IsIndices part ns := by
  constructor
  · rintro ⟨ns, some, indices⟩
    exact ⟨fun empty => some (indices.eq_nil_iff.1 empty), ns, indices⟩
  · rintro ⟨some, ns, indices⟩
    exact ⟨ns, fun none => some (indices.eq_nil_iff.2 none), indices⟩

instance (part : List Char) : Decidable (IsBare part) := decidable_of_iff _ isBare_iff.symm

/-- The name that a part is bound as: what stands before its first bracket if there is nothing but
indices from there on, and else the part. -/
def boundName (part : List Char) : String :=
  String.ofList (if ∃ ns, IsIndices (behind part) ns then stem part else part)

/-- What is nothing but indices has nothing before its first bracket. -/
theorem IsIndices.split {chars : List Char} {ns : List Nat} (h : IsIndices chars ns) :
    stem chars = [] ∧ behind chars = chars := by
  cases h <;> simp [stem, behind]

/-- Nothing stands before the first bracket of a part exactly if it is empty or bare, or something
else than indices stands behind. -/
theorem stem_eq_nil_iff {part : List Char} {ns : List Nat} (h : IsIndices (behind part) ns) :
    stem part = [] ↔ part = [] ∨ IsBare part := by
  constructor
  · intro nameless
    have whole := stem_append_behind part
    rw [nameless, List.nil_append] at whole
    rw [Classical.or_iff_not_imp_left, isBare_iff]
    exact fun some => ⟨some, ns, whole ▸ h⟩
  · rintro (rfl | ⟨ns, -, indices⟩)
    · rfl
    · exact indices.split.1

/-- A part is bound as the empty name exactly if it is empty or bare. -/
theorem boundName_eq_empty_iff {part : List Char} :
    boundName part = "" ↔ part = [] ∨ IsBare part := by
  rw [boundName, ← String.toList_eq_nil_iff, String.toList_ofList]
  split
  · next indexed =>
    obtain ⟨ns, indices⟩ := indexed
    exact stem_eq_nil_iff indices
  · next other =>
    refine ⟨.inl, ?_⟩
    rintro (empty | ⟨ns, -, indices⟩)
    · exact empty
    · exact absurd ⟨ns, indices.split.2.symm ▸ indices⟩ other

/-! ### The names and faults of a text -/

/-- A path that begins with a bare part begins with an index. -/
theorem partSegments_of_isBare {part : List Char} (h : IsBare part) :
    ∃ n ns, partSegments true part = .index n :: List.map .index ns := by
  obtain ⟨ns, some, indices⟩ := h
  obtain ⟨n, rest, rfl⟩ := List.exists_cons_of_ne_nil some
  obtain ⟨nameless, same⟩ := indices.split
  rw [partSegments_of_isIndices (same.symm ▸ indices), if_pos ⟨nameless, rfl, some⟩]
  exact ⟨n, rest, rfl⟩

/-- Any other part begins with its name. -/
theorem partSegments_of_not_isBare {start : Bool} {part : List Char}
    (h : ¬(start = true ∧ IsBare part)) :
    ∃ ns, partSegments start part = .name (boundName part) :: List.map .index ns := by
  by_cases indexed : ∃ ns, IsIndices (behind part) ns
  · obtain ⟨ns, indices⟩ := indexed
    have named : ¬(stem part = [] ∧ start = true ∧ ns ≠ []) := by
      rintro ⟨nameless, first, some⟩
      rcases (stem_eq_nil_iff indices).1 nameless with rfl | bare
      · exact some (indices.eq_nil_iff.1 rfl)
      · exact h ⟨first, bare⟩
    rw [partSegments_of_isIndices indices, if_neg named, boundName, if_pos ⟨ns, indices⟩]
    exact ⟨ns, rfl⟩
  · rw [partSegments_of_not_isIndices (not_exists.1 indexed), boundName, if_neg indexed]
    exact ⟨[], rfl⟩

theorem filterMap_name?_indices (ns : List Nat) :
    (List.map Segment.index ns).filterMap Segment.name? = [] := by
  simp [List.filterMap_map, Function.comp_def, Segment.name?]

/-- Each part is read as one name, unless the first is bare. -/
theorem names_partsSegments {start : Bool} {first : List Char} {others : List (List Char)}
    (h : ¬(start = true ∧ IsBare first)) :
    (partsSegments start (first :: others)).filterMap Segment.name? =
      (first :: others).map boundName := by
  obtain ⟨ns, shape⟩ := partSegments_of_not_isBare h
  rw [partsSegments, List.filterMap_append, shape, List.filterMap_cons, Segment.name?,
    filterMap_name?_indices, List.map_cons]
  cases others with
  | nil => rfl
  | cons next rest => exact congrArg _ (names_partsSegments (by simp))

theorem name_mem_iff {name : String} {segments : List Segment} :
    .name name ∈ segments ↔ name ∈ segments.filterMap Segment.name? := by
  rw [List.mem_filterMap]
  constructor
  · exact fun member => ⟨_, member, rfl⟩
  · rintro ⟨segment, member, named⟩
    cases segment with
    | name text => exact Option.some.inj named ▸ member
    | index n => cases named

/-- What is wrong with a text as a path: that it begins with a bare part, or else has an empty or
a bare one. -/
theorem fault?_parse {text : String} {first : List Char} {others : List (List Char)}
    (written : text ≠ "") (split : parts text.toList = first :: others) :
    (parse text).fault? =
      if IsBare first then some (.invalidPath (parse text) .leadingIndex)
      else if ∃ part ∈ first :: others, part = [] ∨ IsBare part then
        some (.invalidPath (parse text) .emptyName)
      else none := by
  rw [parse_eq written, split]
  split
  · next bare =>
    obtain ⟨n, ns, shape⟩ := partSegments_of_isBare bare
    rw [partsSegments, shape]
    rfl
  · next named =>
    have begins : ¬(true = true ∧ IsBare first) := by simpa using named
    obtain ⟨ns, shape⟩ := partSegments_of_not_isBare begins
    -- every part has its name here, so the empty ones are those of empty and of bare parts
    have empty : .name "" ∈ partsSegments true (first :: others) ↔
        ∃ part ∈ first :: others, part = [] ∨ IsBare part := by
      rw [name_mem_iff, names_partsSegments begins, List.mem_map]
      simp only [boundName_eq_empty_iff]
    rw [← if_congr empty rfl rfl, fault?]
    rw [partsSegments, shape]
    rfl

/-- A text is a path if none of its parts lacks a name. -/
theorem exists_compile_parse_iff (text : String) (s : Scope) :
    (∃ f, ((parse text).compile s).1 = .ok f) ↔
      text ≠ "" ∧ ∀ part ∈ parts text.toList, part ≠ [] ∧ ¬IsBare part := by
  rw [← error?_eq_none_iff, error?_compile]
  by_cases empty : text = ""
  · subst empty
    simp [parse, fault?]
  · obtain ⟨first, others, split⟩ := List.exists_cons_of_ne_nil (parts_ne_nil text.toList)
    rw [fault?_parse empty split, split]
    by_cases bare : IsBare first
    · simp [bare]
    · rw [if_neg bare]
      simp [empty]

/-- A text that is a path binds its parts. -/
theorem bound_of_compile_parse {text : String} {s : Scope} {f : Fragment}
    (h : ((parse text).compile s).1 = .ok f) :
    f.bindings.boundNames = (parts text.toList).map boundName ∧ f.bindings.boundValues = [] := by
  obtain ⟨written, named⟩ := (exists_compile_parse_iff text s).1 ⟨f, h⟩
  obtain ⟨first, others, split⟩ := List.exists_cons_of_ne_nil (parts_ne_nil text.toList)
  have begins : ¬(true = true ∧ IsBare first) := by
    have first_named := (named first (split ▸ List.mem_cons_self)).2
    simpa using first_named
  have read : (parse text).names = (parts text.toList).map boundName := by
    rw [names, parse_eq written, split, names_partsSegments begins]
  rw [← read]
  exact (binds_emit (parse text)).fragment (Prod.ext h rfl)

/-- Any text but the empty one that is not a path has an empty name, unless it begins with a bare
part. -/
theorem fault_of_compile_parse {text : String} {s : Scope} {fault : ExpressionFault}
    (written : text ≠ "") (h : ((parse text).compile s).1 = .error fault) :
    fault = .invalidPath (parse text)
      (if IsBare ((parts text.toList).headD []) then .leadingIndex else .emptyName) := by
  obtain ⟨first, others, split⟩ := List.exists_cons_of_ne_nil (parts_ne_nil text.toList)
  rw [← error?_eq_some_iff, error?_compile, fault?_parse written split] at h
  rw [split, List.headD_cons]
  split at h
  · next bare => rw [if_pos bare, Option.some.inj h]
  · next named =>
    rw [if_neg named]
    split at h
    · exact (Option.some.inj h).symm
    · cases h

/-- **Which texts are paths.** A text is compiled as a path, against whatever scope, exactly if it
is not empty and none of its parts is empty or bare. It then binds one name for each part, in
order, and no value. Otherwise the fault of the empty text is that it is empty, and any other text
is reported as it is displayed: as one that starts with an index if its first part is bare, and
else as one with an empty name. -/
theorem compile_parse (text : String) (s : Scope) :
    ((∃ f, ((parse text).compile s).1 = .ok f) ↔
      text ≠ "" ∧ ∀ part ∈ text.toList.splitOn '.', part ≠ [] ∧ ¬IsBare part) ∧
    (∀ f, ((parse text).compile s).1 = .ok f →
      f.bindings.boundNames = (text.toList.splitOn '.').map boundName ∧
        f.bindings.boundValues = []) ∧
    (text = "" → ((parse text).compile s).1 = .error .emptyPath) ∧
    ∀ fault, ((parse text).compile s).1 = .error fault → text ≠ "" →
      fault = .invalidPath (parse text)
        (if IsBare ((text.toList.splitOn '.').headD []) then .leadingIndex else .emptyName) ∧
      fault.message = "invalid attribute path " ++ Text.quoted (parse text).display ++ ": " ++
        (if IsBare ((text.toList.splitOn '.').headD []) then "path cannot start with a list index"
          else "empty attribute name") := by
  rw [← parts_eq_splitOn]
  refine ⟨exists_compile_parse_iff text s, fun f => bound_of_compile_parse, ?_, ?_⟩
  · rintro rfl
    rw [← error?_eq_some_iff, error?_compile]
    rfl
  · intro fault failed written
    have reason := fault_of_compile_parse written failed
    refine ⟨reason, ?_⟩
    rw [reason]
    split <;> rfl

/-- An index that is no number is part of the name, and one with a sign is an index. Of two texts
with a bare part, each is at fault for its own reason. -/
theorem compile_parse_bracketed :
    (∃ f, ((parse "key[x].b[+07]").compile {}).1 = .ok f ∧
      f.bindings.boundNames = ["key[x]", "b"] ∧ f.bindings.boundValues = []) ∧
    (∃ fault, ((parse "[+0].a").compile {}).1 = .error fault ∧ fault.message =
      "invalid attribute path " ++ Text.quoted "[0].a" ++
        ": path cannot start with a list index") ∧
    ∃ fault, ((parse "a.[0]").compile {}).1 = .error fault ∧ fault.message =
      "invalid attribute path " ++ Text.quoted "a.[0]" ++ ": empty attribute name" := by
  refine ⟨?_, ?_, ?_⟩
  · obtain ⟨f, compiled⟩ := (compile_parse "key[x].b[+07]" {}).1.2
      ⟨by decide, by decide +kernel⟩
    obtain ⟨names, values⟩ := (compile_parse "key[x].b[+07]" {}).2.1 f compiled
    exact ⟨f, compiled, names.trans (by decide +kernel), values⟩
  · have failed : ((parse "[+0].a").compile {}).1 =
        .error (.invalidPath ⟨[.index 0, .name "a"]⟩ .leadingIndex) := by decide +kernel
    have told := ((compile_parse "[+0].a" {}).2.2.2 _ failed (by decide)).2
    exact ⟨_, failed, told.trans (by decide +kernel)⟩
  · have failed : ((parse "a.[0]").compile {}).1 =
        .error (.invalidPath ⟨[.name "a", .name "", .index 0]⟩ .emptyName) := by decide +kernel
    have told := ((compile_parse "a.[0]" {}).2.2.2 _ failed (by decide)).2
    exact ⟨_, failed, told.trans (by decide +kernel)⟩

end Path

end TableClient
