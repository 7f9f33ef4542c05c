import Mathlib.Data.List.Basic
import NameTree.Path

/-!
Paths and the names that they are made of. A path that passes its check is its names, each after a
slash, and perhaps one more slash; names without slashes can be joined to a path and come out of it
again.
-/

namespace NameTree.Path

/-- What a component can be. -/
def IsName (name : String) : Prop := name ≠ "" ∧ '/' ∉ name.toList

def join (names : List String) : String := "/" ++ "/".intercalate names

theorem join_singleton (name : String) : join [name] = "/" ++ name := by
  rw [join, String.intercalate_singleton]

theorem join_cons (name : String) {names : List String} (nonempty : names ≠ []) :
    join (name :: names) = "/" ++ name ++ join names := by
  rw [join, join, String.intercalate_cons_of_ne_nil nonempty]
  simp only [String.append_assoc]

def chars (names : List String) : List Char := names.flatMap fun name => '/' :: name.toList

theorem toList_join {names : List String} (nonempty : names ≠ []) :
    (join names).toList = chars names := by
  induction names with
  | nil => exact absurd rfl nonempty
  | cons name rest ih =>
    cases rest with
    | nil => simp [join_singleton, chars]
    | cons next further =>
      rw [join_cons name (List.cons_ne_nil next further), String.toList_append,
        String.toList_append, ih (List.cons_ne_nil next further)]
      rfl

section Split

theorem splitSlash_append {piece rest first : List Char} {others : List (List Char)}
    (free : '/' ∉ piece) (split : splitSlash rest = first :: others) :
    splitSlash (piece ++ rest) = (piece ++ first) :: others := by
  induction piece with
  | nil => exact split
  | cons c piece ih =>
    rw [List.mem_cons, not_or] at free
    have ne : c ≠ '/' := Ne.symm free.1
    simp [splitSlash, ne, ih free.2]

theorem splitSlash_chars {names : List String} (free : ∀ name ∈ names, '/' ∉ name.toList) :
    splitSlash (chars names) = [] :: names.map String.toList := by
  induction names with
  | nil => rfl
  | cons name rest ih =>
    have tail := ih fun other member => free other (List.mem_cons_of_mem _ member)
    have head := splitSlash_append (free name List.mem_cons_self) tail
    rw [List.append_nil] at head
    have cons : chars (name :: rest) = '/' :: (name.toList ++ chars rest) := rfl
    rw [cons, splitSlash, if_pos rfl, head, List.map_cons]

theorem not_mem_of_mem_splitSlash {chars piece : List Char} (member : piece ∈ splitSlash chars) :
    '/' ∉ piece := by
  induction chars generalizing piece with
  | nil =>
    rw [splitSlash, List.mem_singleton] at member
    simp [member]
  | cons c rest ih =>
    by_cases slash : c = '/'
    · rw [splitSlash, if_pos slash, List.mem_cons] at member
      rcases member with rfl | later
      · exact List.not_mem_nil
      · exact ih later
    · obtain ⟨first, others, split⟩ := List.exists_cons_of_ne_nil (splitSlash_ne_nil rest)
      simp only [splitSlash, slash, if_false, split, List.mem_cons] at member
      rcases member with rfl | later
      · rw [List.mem_cons, not_or]
        exact ⟨Ne.symm slash, ih (split ▸ List.mem_cons_self)⟩
      · exact ih (split ▸ List.mem_cons_of_mem _ later)

theorem flatMap_splitSlash (chars : List Char) :
    (splitSlash chars).flatMap (fun piece => '/' :: piece) = '/' :: chars := by
  induction chars with
  | nil => rfl
  | cons c rest ih =>
    by_cases slash : c = '/'
    · rw [splitSlash, if_pos slash, List.flatMap_cons, ih, slash]
      rfl
    · obtain ⟨first, others, split⟩ := List.exists_cons_of_ne_nil (splitSlash_ne_nil rest)
      rw [split, List.flatMap_cons, List.cons_append, List.cons.injEq] at ih
      simp [splitSlash, slash, split, ih.2]

theorem ne_nil_of_mem_splitSlash {chars piece : List Char} (sound : hasEmptyComponent chars = false)
    (member : piece ∈ (splitSlash chars).tail.dropLast) : piece ≠ [] := by
  -- between two pieces there is a slash, so an inner piece is empty only where two slashes meet
  induction chars with
  | nil => simp [splitSlash] at member
  | cons c rest ih =>
    rw [hasEmptyComponent, Bool.or_eq_false_iff] at sound
    obtain ⟨first, others, split⟩ := List.exists_cons_of_ne_nil (splitSlash_ne_nil rest)
    rw [split, List.tail_cons] at ih
    by_cases slash : c = '/'
    · rw [splitSlash, if_pos slash, List.tail_cons, split] at member
      cases others with
      | nil => simp at member
      | cons second further =>
        rw [List.dropLast_cons_cons, List.mem_cons] at member
        rcases member with rfl | later
        · intro same
          subst same
          -- the rest would start with a slash itself
          cases rest with
          | nil => simp [splitSlash] at split
          | cons d more =>
            by_cases again : d = '/'
            · simp [slash, again] at sound
            · obtain ⟨first', others', split'⟩ :=
                List.exists_cons_of_ne_nil (splitSlash_ne_nil more)
              simp [splitSlash, again, split'] at split
        · exact ih sound.2 later
    · simp only [splitSlash, slash, if_false, split, List.tail_cons] at member
      exact ih sound.2 member

end Split

section Components

variable {path : String} {names : List String}

theorem isName_ofList {chars piece : List Char} (nonempty : piece ≠ [])
    (member : piece ∈ splitSlash chars) :
    IsName (String.ofList piece) := by
  constructor
  · intro empty
    have none : piece = [] := by
      rw [← String.toList_ofList (l := piece), empty]
      rfl
    exact nonempty none
  · rw [String.toList_ofList]
    exact not_mem_of_mem_splitSlash member

theorem isName_of_mem_components {name : String} (member : name ∈ components path) :
    IsName name := by
  obtain ⟨piece, kept, rfl⟩ := List.mem_map.mp member
  obtain ⟨isPiece, nonempty⟩ := List.mem_filter.mp kept
  exact isName_ofList (by simpa using nonempty) isPiece

theorem components_of_toList (free : ∀ name ∈ names, IsName name)
    (same : path.toList = chars names) :
    components path = names := by
  have kept : (names.map String.toList).filter (fun piece => !piece.isEmpty) =
      names.map String.toList := by
    rw [List.filter_eq_self]
    intro piece member
    obtain ⟨name, isName, rfl⟩ := List.mem_map.mp member
    have nonempty : name.toList ≠ [] := by
      rw [Ne, String.toList_eq_nil_iff]
      exact (free name isName).1
    simpa using nonempty
  have dropped : ([] :: names.map String.toList).filter (fun piece => !piece.isEmpty) =
      names.map String.toList := by
    rw [List.filter_cons_of_neg (by simp), kept]
  rw [components, same, splitSlash_chars fun name isName => (free name isName).2, dropped,
    List.map_map]
  simp

theorem components_join (free : ∀ name ∈ names, IsName name) : components (join names) = names := by
  cases names with
  | nil => decide +kernel
  | cons name rest => exact components_of_toList free (toList_join (List.cons_ne_nil name rest))

theorem getLast?_chars (free : ∀ name ∈ names, IsName name) :
    (chars names).getLast? ≠ some '/' := by
  rcases List.eq_nil_or_concat' names with rfl | ⟨front, last, rfl⟩
  · simp [chars]
  · obtain ⟨nonempty, noSlash⟩ := free last (by simp)
    have present : last.toList ≠ [] := by
      rw [Ne, String.toList_eq_nil_iff]
      exact nonempty
    have split : chars (front ++ [last]) = chars front ++ '/' :: last.toList := by simp [chars]
    rw [split, List.getLast?_append_of_ne_nil _ (List.cons_ne_nil _ _),
      List.getLast?_cons_of_ne_nil present]
    intro slash
    exact noSlash (List.mem_of_getLast? slash)

theorem dropFinalSlash_join (free : ∀ name ∈ names, IsName name) :
    dropFinalSlash (join names) = join names := by
  cases names with
  | nil => decide +kernel
  | cons name rest =>
    have open_ : ¬ endsWithSlash (join (name :: rest)) = true := by
      rw [endsWithSlash, toList_join (List.cons_ne_nil name rest), beq_iff_eq]
      exact getLast?_chars free
    rw [dropFinalSlash, if_neg fun both => open_ both.2]

theorem hasEmptyComponent_append {piece : List Char} (free : '/' ∉ piece) (rest : List Char) :
    hasEmptyComponent (piece ++ rest) = hasEmptyComponent rest := by
  induction piece with
  | nil => rfl
  | cons c piece ih =>
    rw [List.mem_cons, not_or] at free
    have ne : (c == '/') = false := by simpa using Ne.symm free.1
    rw [List.cons_append, hasEmptyComponent, ne, ih free.2]
    rfl

theorem hasEmptyComponent_chars_append (free : ∀ name ∈ names, IsName name) (rest : List Char) :
    hasEmptyComponent (chars names ++ rest) = hasEmptyComponent rest := by
  induction names with
  | nil => rfl
  | cons name others ih =>
    obtain ⟨nonempty, noSlash⟩ := free name List.mem_cons_self
    have tail := ih fun other member => free other (List.mem_cons_of_mem _ member)
    have cons : chars (name :: others) ++ rest = '/' ::
        (name.toList ++ (chars others ++ rest)) := by simp [chars]
    rw [cons, hasEmptyComponent, hasEmptyComponent_append noSlash, tail]
    cases split : name.toList with
    | nil => exact absurd (String.toList_eq_nil_iff.mp split) nonempty
    | cons c more =>
      rw [split, List.mem_cons, not_or] at noSlash
      have ne : (c == '/') = false := by simpa using Ne.symm noSlash.1
      simp [ne]

theorem check_of_absolute (limit : Int) (slash : path.toList.head? = some '/')
    (sound : hasEmptyComponent path.toList = false) :
    check limit path =
      if limit < byteLength path then .error (.malformedPath path (.longerThan limit))
        else .ok () := by
  have nonempty : path.toList ≠ [] := by
    intro empty
    rw [empty] at slash
    cases slash
  unfold check flaw?
  rw [if_neg nonempty]
  by_cases long : limit < byteLength path
  · rw [if_pos long, if_pos long]
  · simp [if_neg long, slash, sound]

theorem check_join (limit : Int) (free : ∀ name ∈ names, IsName name) :
    check limit (join names) =
      if limit < byteLength (join names) then
        .error (.malformedPath (join names) (.longerThan limit))
      else .ok () := by
  cases names with
  | nil => exact check_of_absolute limit (by decide +kernel) (by decide +kernel)
  | cons name rest =>
    have whole := toList_join (List.cons_ne_nil name rest)
    refine check_of_absolute limit ?_ ?_
    · rw [whole]
      rfl
    · rw [whole, ← List.append_nil (chars _), hasEmptyComponent_chars_append free]
      rfl

end Components

section Check

variable {limit : Int} {path : String} {names : List String}

theorem check_eq_ok_iff : check limit path = .ok () ↔
    (byteLength path : Int) ≤ limit ∧ path.toList.head? = some '/' ∧
    hasEmptyComponent path.toList = false := by
  unfold check flaw?
  by_cases empty : path.toList = []
  · simp [empty]
  · rw [if_neg empty]
    by_cases long : limit < byteLength path
    · have notShort : ¬ (byteLength path : Int) ≤ limit := by omega
      simp [long, notShort]
    · have short : (byteLength path : Int) ≤ limit := by omega
      by_cases slash : path.toList.head? = some '/'
      · cases doubled : hasEmptyComponent path.toList <;> simp [long, short, slash]
      · simp [long, slash]

theorem exists_flaw_of_check {fault : Fault} (failed : check limit path = .error fault) :
    ∃ flaw, fault = .malformedPath path flaw := by
  unfold check at failed
  split at failed
  · cases failed
    exact ⟨_, rfl⟩
  · cases failed

theorem hasEmptyComponent_concat_slash (chars : List Char) :
    hasEmptyComponent (chars ++ ['/']) =
      (hasEmptyComponent chars || chars.getLast? == some '/') := by
  induction chars with
  | nil => rfl
  | cons c rest ih =>
    cases rest with
    | nil => simp [hasEmptyComponent]
    | cons next further =>
      have unfolded (tail : List Char) : hasEmptyComponent (c :: next :: tail) =
          (c == '/' && some next == some '/' || hasEmptyComponent (next :: tail)) := rfl
      rw [List.cons_append, List.cons_append, unfolded, unfolded, ← List.cons_append, ih,
        List.getLast?_cons_cons, Bool.or_assoc]

theorem splitSlash_concat_slash (chars : List Char) :
    splitSlash (chars ++ ['/']) = splitSlash chars ++ [[]] := by
  induction chars with
  | nil => rfl
  | cons c rest ih =>
    by_cases slash : c = '/'
    · rw [List.cons_append, splitSlash, if_pos slash, splitSlash, if_pos slash, ih]
      rfl
    · obtain ⟨first, others, split⟩ := List.exists_cons_of_ne_nil (splitSlash_ne_nil rest)
      rw [split, List.cons_append] at ih
      simp [splitSlash, slash, split, ih]

theorem dropFinalSlash_eq (path : String) :
    dropFinalSlash path = path ∨ path.toList = (dropFinalSlash path).toList ++ ['/'] := by
  unfold dropFinalSlash
  split
  · rename_i trailing
    have last : path.toList.getLast? = some '/' := by simpa [endsWithSlash] using trailing.2
    rw [String.toList_ofList, List.dropLast_append_getLast? '/' last]
    exact Or.inr rfl
  · exact Or.inl rfl

theorem components_dropFinalSlash (path : String) :
    components (dropFinalSlash path) = components path := by
  rcases dropFinalSlash_eq path with same | trailing
  · rw [same]
  · rw [components, components, trailing, splitSlash_concat_slash, List.filter_append]
    simp

theorem dropFinalSlash_ne_root {front : List String} {leaf : String}
    (split : components path = front ++ [leaf]) :
    dropFinalSlash path ≠ "/" := by
  intro root
  have empty : front ++ [leaf] = [] := by
    rw [← split, ← components_dropFinalSlash, root]
    rfl
  simp at empty

theorem byteLength_dropFinalSlash_le (path : String) :
    byteLength (dropFinalSlash path) ≤ byteLength path := by
  rcases dropFinalSlash_eq path with same | trailing
  · exact Nat.le_of_eq (congrArg byteLength same)
  · have whole : path = dropFinalSlash path ++ "/" := by
      rw [← String.toList_inj, trailing, String.toList_append]
      rfl
    simp only [byteLength]
    conv_rhs => rw [whole, String.utf8ByteSize_append]
    omega

theorem chars_ofList (pieces : List (List Char)) :
    chars (pieces.map String.ofList) = pieces.flatMap fun piece => '/' :: piece := by
  simp [chars, List.flatMap_map]

theorem dropFinalSlash_of_trailing (nonempty : names ≠ [])
    (ends : path.toList = chars names ++ ['/']) :
    dropFinalSlash path = join names := by
  have notRoot : path ≠ "/" := by
    intro root
    obtain ⟨name, rest, rfl⟩ := List.exists_cons_of_ne_nil nonempty
    rw [root] at ends
    simp [chars] at ends
  have slashed : endsWithSlash path = true := by simp [endsWithSlash, ends]
  rw [dropFinalSlash, if_pos ⟨notRoot, slashed⟩, ends, List.dropLast_concat, ← String.toList_inj,
    String.toList_ofList, toList_join nonempty]

theorem exists_pieces (accepted : check limit path = .ok ()) :
    ∃ front last, path.toList = (front ++ [last]).flatMap (fun piece => '/' :: piece) ∧
      (∀ name ∈ front.map String.ofList, IsName name) ∧
      (last = [] ∨ IsName (String.ofList last)) := by
  obtain ⟨-, slash, sound⟩ := check_eq_ok_iff.mp accepted
  obtain ⟨rest, slash⟩ := List.head?_eq_some_iff.mp slash
  obtain ⟨front, last, split⟩ :=
    (List.eq_nil_or_concat' (splitSlash rest)).resolve_left (splitSlash_ne_nil rest)
  refine ⟨front, last, ?_, ?_, ?_⟩
  · rw [slash, ← split, flatMap_splitSlash]
  · intro name member
    obtain ⟨piece, inFront, rfl⟩ := List.mem_map.mp member
    have nonempty : piece ≠ [] := by
      refine ne_nil_of_mem_splitSlash sound ?_
      rw [slash, splitSlash, if_pos rfl, List.tail_cons, split, List.dropLast_concat]
      exact inFront
    exact isName_ofList nonempty (split ▸ List.mem_append_left _ inFront)
  · by_cases trailing : last = []
    · exact Or.inl trailing
    · exact Or.inr (isName_ofList trailing (split ▸ List.mem_append_right _ List.mem_cons_self))

theorem exists_join (accepted : check limit path = .ok ()) :
    ∃ names, (∀ name ∈ names, IsName name) ∧ dropFinalSlash path = join names := by
  obtain ⟨front, last, whole, named, ends⟩ := exists_pieces accepted
  rcases ends with rfl | isLast
  · refine ⟨front.map String.ofList, named, ?_⟩
    rw [List.flatMap_append, ← chars_ofList] at whole
    cases front with
    | nil =>
      have root : path = "/" := by
        rw [← String.toList_inj, whole]
        rfl
      rw [root]
      rfl
    | cons piece others => exact dropFinalSlash_of_trailing (by simp) whole
  · have names : ∀ name ∈ (front ++ [last]).map String.ofList, IsName name := by
      intro name member
      rw [List.map_append, List.mem_append] at member
      rcases member with inFront | here
      · exact named name inFront
      · exact List.mem_singleton.mp here ▸ isLast
    refine ⟨(front ++ [last]).map String.ofList, names, ?_⟩
    have same : path = join ((front ++ [last]).map String.ofList) := by
      rw [← String.toList_inj, toList_join (by simp), chars_ofList, whole]
    rw [same, dropFinalSlash_join names]

theorem join_components (accepted : check limit path = .ok ()) :
    join (components path) = dropFinalSlash path := by
  obtain ⟨names, free, same⟩ := exists_join accepted
  rw [← components_dropFinalSlash, same, components_join free]

end Check

section FinalSlash

variable {limit : Int} {path : String} {names : List String}

theorem toList_append_slash (path : String) : (path ++ "/").toList = path.toList ++ ['/'] := by
  rw [String.toList_append]
  rfl

theorem byteLength_append_slash (path : String) :
    byteLength (path ++ "/") = byteLength path + 1 := by
  rw [byteLength, String.utf8ByteSize_append]
  rfl

theorem endsWithSlash_append_slash (path : String) : endsWithSlash (path ++ "/") = true := by
  simp [endsWithSlash]

theorem components_addFinalSlash (path : String) :
    components (addFinalSlash path) = components path := by
  unfold addFinalSlash
  split
  · rfl
  · rw [components, components, toList_append_slash, splitSlash_concat_slash, List.filter_append]
    simp

theorem endsWithSlash_addFinalSlash (path : String) :
    endsWithSlash (addFinalSlash path) = true := by
  unfold addFinalSlash
  split
  · assumption
  · exact endsWithSlash_append_slash path

theorem toList_of_endsWithSlash (notRoot : path ≠ "/") (ends : endsWithSlash path = true) :
    path.toList = (dropFinalSlash path).toList ++ ['/'] := by
  have last : path.toList.getLast? = some '/' := by simpa [endsWithSlash] using ends
  rw [dropFinalSlash, if_pos ⟨notRoot, ends⟩, String.toList_ofList,
    List.dropLast_append_getLast? '/' last]

theorem dropFinalSlash_of_bare (bare : path = "/" ∨ endsWithSlash path = false) :
    dropFinalSlash path = path := by
  refine if_neg fun both => ?_
  rcases bare with root | noSlash
  · exact both.1 root
  · cases noSlash.symm.trans both.2

theorem dropFinalSlash_append_slash (nonempty : path ≠ "") :
    dropFinalSlash (path ++ "/") = path := by
  have notRoot : path ++ "/" ≠ "/" := by
    intro root
    have none_left : path.toList = [] := by
      simpa using (toList_append_slash path).symm.trans (congrArg String.toList root)
    exact nonempty (String.toList_inj.mp none_left)
  have whole := toList_of_endsWithSlash notRoot (endsWithSlash_append_slash path)
  rw [toList_append_slash] at whole
  exact (String.toList_inj.mp (List.append_cancel_right whole)).symm

theorem dropFinalSlash_ne_empty (nonempty : path ≠ "") : dropFinalSlash path ≠ "" := by
  by_cases root : path = "/"
  · subst root
    decide +kernel
  · intro empty
    rcases dropFinalSlash_eq path with same | trailing
    · exact nonempty (same.symm.trans empty)
    · rw [empty] at trailing
      exact root (String.toList_inj.mp trailing)

theorem dropFinalSlash_addFinalSlash (path : String) :
    dropFinalSlash (addFinalSlash path) = if dropFinalSlash path = "" then "/"
      else dropFinalSlash path := by
  by_cases ends : endsWithSlash path = true
  · have same : addFinalSlash path = path := if_pos ends
    have nonempty : path ≠ "" := by
      rintro rfl
      cases ends
    rw [same, if_neg (dropFinalSlash_ne_empty nonempty)]
  · have untrimmed : dropFinalSlash path = path := if_neg fun both => ends both.2
    have added : addFinalSlash path = path ++ "/" := if_neg ends
    rw [untrimmed, added]
    by_cases empty : path = ""
    · subst empty
      rfl
    · rw [dropFinalSlash_append_slash empty, if_neg empty]

theorem addFinalSlash_join (nonempty : names ≠ []) (free : ∀ name ∈ names, IsName name) :
    addFinalSlash (join names) = join names ++ "/" := by
  have open_ : ¬ endsWithSlash (join names) = true := by
    rw [endsWithSlash, toList_join nonempty, beq_iff_eq]
    exact getLast?_chars free
  exact if_neg open_

theorem check_addFinalSlash_join (limit : Int) (nonempty : names ≠ [])
    (free : ∀ name ∈ names, IsName name) :
    check limit (addFinalSlash (join names)) =
      if limit < byteLength (join names) + 1 then
        .error (.malformedPath (join names ++ "/") (.longerThan limit))
      else .ok () := by
  have whole : (join names ++ "/").toList = chars names ++ ['/'] := by
    rw [toList_append_slash, toList_join nonempty]
  rw [addFinalSlash_join nonempty free, check_of_absolute limit, byteLength_append_slash]
  · rfl
  · rw [whole]
    obtain ⟨name, rest, rfl⟩ := List.exists_cons_of_ne_nil nonempty
    rfl
  · rw [whole, hasEmptyComponent_chars_append free]
    rfl

theorem join_ne_empty (names : List String) : join names ≠ "" := by
  intro empty
  have characters := congrArg String.toList empty
  simp [join] at characters

theorem join_concat (nonempty : names ≠ []) (name : String) :
    join (names ++ [name]) = join names ++ "/" ++ name := by
  rw [← String.toList_inj, toList_join (by simp), String.toList_append, toList_append_slash,
    toList_join nonempty]
  simp [chars]

theorem check_addFinalSlash_front {name : String} (free : ∀ other ∈ names, IsName other)
    (root : check limit "/" = .ok ()) (accepted : check limit (join (names ++ [name])) = .ok ()) :
    check limit (addFinalSlash (join names)) = .ok () := by
  cases names with
  | nil => exact root
  | cons first rest =>
    have fits := (check_eq_ok_iff.mp accepted).1
    rw [join_concat (List.cons_ne_nil first rest), byteLength, String.utf8ByteSize_append] at fits
    have slash := byteLength_append_slash (join (first :: rest))
    rw [byteLength] at slash
    rw [check_addFinalSlash_join limit (List.cons_ne_nil first rest) free, if_neg (by omega)]

theorem addFinalSlash_join_components (accepted : check limit (addFinalSlash path) = .ok ()) :
    addFinalSlash (join (components path)) = addFinalSlash path := by
  have trimmed : join (components path) = dropFinalSlash (addFinalSlash path) := by
    rw [← join_components accepted, components_addFinalSlash]
  by_cases root : addFinalSlash path = "/"
  · rw [trimmed, root]
    rfl
  · have whole := toList_of_endsWithSlash root (endsWithSlash_addFinalSlash path)
    rw [← trimmed] at whole
    by_cases empty : components path = []
    · -- two slashes are an empty component
      rw [empty] at whole
      obtain ⟨-, -, sound⟩ := check_eq_ok_iff.mp accepted
      have doubled : hasEmptyComponent ((join []).toList ++ ['/']) = true := by decide +kernel
      rw [whole, doubled] at sound
      cases sound
    · have free : ∀ name ∈ components path, IsName name := fun name => isName_of_mem_components
      rw [addFinalSlash_join empty free, ← String.toList_inj, String.toList_append, whole]
      rfl

theorem child_join (free : ∀ name ∈ names, IsName name) (name : String) :
    child (join names) name = join (names ++ [name]) := by
  rw [← String.toList_inj, toList_join (by simp), child, String.toList_append, String.toList_append,
    String.toList_ofList]
  have appended : chars (names ++ [name]) = chars names ++ ('/' :: name.toList) := by simp [chars]
  rw [appended]
  by_cases empty : names = []
  · subst empty
    rfl
  · have kept : (chars names).reverse.dropWhile (· == '/') = (chars names).reverse := by
      have last := getLast?_chars free
      rw [← List.head?_reverse] at last
      cases reversed : (chars names).reverse with
      | nil => rfl
      | cons c rest =>
        rw [reversed] at last
        exact List.dropWhile_cons_of_neg (by simpa using last)
    rw [toList_join empty, kept, List.reverse_reverse, List.append_assoc]
    rfl

theorem check_dropFinalSlash (accepted : check limit (addFinalSlash path) = .ok ())
    (notRoot : components path ≠ []) :
    check limit (dropFinalSlash path) = .ok () := by
  have nonempty : dropFinalSlash path ≠ "" := by
    intro empty
    rw [← components_dropFinalSlash, empty] at notRoot
    exact notRoot rfl
  have trimmed : dropFinalSlash (addFinalSlash path) = dropFinalSlash path := by
    rw [dropFinalSlash_addFinalSlash, if_neg nonempty]
  have joined : join (components path) = dropFinalSlash path := by
    rw [← components_addFinalSlash, join_components accepted, trimmed]
  have shorter := byteLength_dropFinalSlash_le (addFinalSlash path)
  have fits := (check_eq_ok_iff.mp accepted).1
  rw [trimmed] at shorter
  rw [← joined, check_join limit fun name => isName_of_mem_components, joined, if_neg (by omega)]

theorem start_eq_join (accepted : check limit (addFinalSlash path) = .ok ()) :
    (if dropFinalSlash path = "" then "/" else dropFinalSlash path) = join (components path) := by
  rw [← dropFinalSlash_addFinalSlash, ← join_components accepted, components_addFinalSlash]

end FinalSlash

end NameTree.Path
