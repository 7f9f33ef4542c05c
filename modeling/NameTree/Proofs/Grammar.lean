import Mathlib.Algebra.GroupWithZero.Nat
import NameTree.Proofs.Routes

/-!
The grammar of paths. The checks of a path are tests on its text; what passes them is the root, or
names each after a slash and perhaps one slash more. The names come out of the path again, and the
path out of its names.
-/

namespace NameTree

namespace Path

/-- How a path is written: the root is a slash, all others are names each after a slash, with or
without one more. -/
inductive Spells : String → List String → Prop where
  | root : Spells "/" []
  | bare {names : List String} (nonempty : names ≠ []) (named : ∀ name ∈ names, IsName name) :
      Spells (join names) names
  | closed {names : List String} (nonempty : names ≠ []) (named : ∀ name ∈ names, IsName name) :
      Spells (join names ++ "/") names

variable {path : String} {names : List String} {limit : Int}

theorem Spells.named (spells : Spells path names) : ∀ name ∈ names, IsName name := by
  cases spells with
  | root => simp
  | bare _ named | closed _ named => exact named

theorem Spells.dropFinalSlash (spells : Spells path names) : dropFinalSlash path = join names := by
  cases spells with
  | root => rfl
  | bare _ named => exact dropFinalSlash_join named
  | closed => exact dropFinalSlash_append_slash (join_ne_empty names)

theorem Spells.components (spells : Spells path names) : components path = names := by
  rw [← components_dropFinalSlash, spells.dropFinalSlash, components_join spells.named]

theorem Spells.root_iff (spells : Spells path names) : path = "/" ↔ names = [] := by
  constructor
  · rintro rfl
    rw [← spells.components]
    decide +kernel
  · rintro rfl
    cases spells with
    | root => rfl
    | bare nonempty | closed nonempty => exact absurd rfl nonempty

theorem Spells.absolute (spells : Spells path names) :
    path.toList.head? = some '/' ∧ hasEmptyComponent path.toList = false := by
  cases spells with
  | root => exact ⟨rfl, rfl⟩
  | bare nonempty named =>
    obtain ⟨first, rest, rfl⟩ := List.exists_cons_of_ne_nil nonempty
    rw [toList_join nonempty]
    refine ⟨rfl, ?_⟩
    rw [← List.append_nil (chars _), hasEmptyComponent_chars_append named]
    rfl
  | closed nonempty named =>
    obtain ⟨first, rest, rfl⟩ := List.exists_cons_of_ne_nil nonempty
    rw [toList_append_slash, toList_join nonempty]
    refine ⟨rfl, ?_⟩
    rw [hasEmptyComponent_chars_append named]
    rfl

theorem exists_spells (accepted : check limit path = .ok ()) : ∃ names, Spells path names := by
  have named : ∀ name ∈ components path, IsName name := fun name => isName_of_mem_components
  have joined := join_components accepted
  refine ⟨components path, ?_⟩
  by_cases bare : components path = []
  · rw [bare] at joined ⊢
    rcases dropFinalSlash_eq path with same | trailing
    · rw [← same, ← joined]
      exact .root
    · -- a slash after the root's would be an empty component
      have doubled : hasEmptyComponent path.toList = true := by
        rw [trailing, ← joined]
        decide +kernel
      cases doubled.symm.trans (check_eq_ok_iff.mp accepted).2.2
  · rcases dropFinalSlash_eq path with same | trailing
    · have whole : path = join (components path) := same.symm.trans joined.symm
      conv => arg 1; rw [whole]
      exact .bare bare named
    · have whole : path = join (components path) ++ "/" := by
        rw [← String.toList_inj, toList_append_slash, joined, trailing]
      conv => arg 1; rw [whole]
      exact .closed bare named

theorem check_eq_ok_iff_spells :
    check limit path = .ok () ↔ (byteLength path : Int) ≤ limit ∧ ∃ names, Spells path names := by
  constructor
  · intro accepted
    exact ⟨(check_eq_ok_iff.mp accepted).1, exists_spells accepted⟩
  · rintro ⟨fits, names, spells⟩
    exact check_eq_ok_iff.mpr ⟨fits, spells.absolute⟩

theorem byteLength_join (nonempty : names ≠ []) :
    byteLength (join names) = (names.map fun name => byteLength name + 1).sum := by
  induction names with
  | nil => exact absurd rfl nonempty
  | cons name rest ih =>
    have slash (text : String) : byteLength ("/" ++ text) = byteLength text + 1 := by
      rw [byteLength, String.utf8ByteSize_append, Nat.add_comm]
      rfl
    rw [List.map_cons, List.sum_cons, ← slash]
    cases rest with
    | nil => rw [join_singleton, List.map_nil, List.sum_nil, Nat.add_zero]
    | cons next further =>
      rw [join_cons name (List.cons_ne_nil next further), byteLength, String.utf8ByteSize_append,
        ← ih (List.cons_ne_nil next further)]
      rfl

end Path

theorem Store.locate_ne_noComponents {path : String}
    (hasNames : Path.dropFinalSlash path = "/" ∨ Path.components path ≠ []) (store : Store)
    (maxLen : Int) (other : String) :
    store.locate maxLen path ≠ .error (.malformedPath other .noComponents) := by
  suffices faults : FailsOnly (· ≠ .malformedPath other .noComponents)
      (store.locate maxLen path) from
    fun failed => faults _ failed rfl
  unfold locate
  by_cases root : Path.dropFinalSlash path = "/"
  · rw [if_pos root]
    exact .error (by simp)
  · have nonempty := hasNames.resolve_left root
    rw [← Path.components_dropFinalSlash] at nonempty
    obtain ⟨front, leaf, split⟩ := (List.eq_nil_or_concat' _).resolve_left nonempty
    simp only [if_neg root, split, List.getLast?_concat]
    have lengths : FailsOnly (· ≠ .malformedPath other .noComponents)
        (Path.checkComponents maxLen (front ++ [leaf])) := by
      refine .forM fun name => ?_
      unfold Path.checkLength
      split
      · exact .error (by simp)
      · exact .ok ()
    refine lengths.bind fun _ _ => FailsOnly.bind (fun fault failed => ?_) fun _ _ => .ok _
    obtain ⟨_ | id, -, rfl⟩ := (descend_eq_error_iff rfl).mp failed <;> simp [astray]

/-- A path is acceptable when it is not too long and is written as paths are. Its components are the
names that it is made of, and they give back the path, but for a final slash. So what is accepted is
the root or has a last name. -/
theorem path_grammar (limit : Int) (path : String) :
    (Path.check limit path = .ok () ↔ (Path.byteLength path : Int) ≤ limit ∧
      ∃ names, Path.Spells path names) ∧
    (∀ names, Path.Spells path names →
      Path.components path = names ∧ Path.join (Path.components path) = Path.dropFinalSlash path ∧
        (path ≠ "/" → Path.byteLength (Path.dropFinalSlash path) =
          ((Path.components path).map fun name => Path.byteLength name + 1).sum)) ∧
    (∀ names, names ≠ [] → (∀ name ∈ names, Path.IsName name) →
      Path.components (Path.join names) = names) ∧
    (Path.check limit path = .ok () → ∀ (store : Store) maxLen other,
      store.locate maxLen path ≠ .error (.malformedPath other .noComponents) ∧
        store.locate maxLen (Path.dropFinalSlash path) ≠
          .error (.malformedPath other .noComponents)) := by
  refine ⟨Path.check_eq_ok_iff_spells, ?_, fun names _ => Path.components_join, ?_⟩
  · intro names spells
    rw [spells.components, spells.dropFinalSlash]
    exact ⟨rfl, rfl, fun notRoot => Path.byteLength_join (mt spells.root_iff.mpr notRoot)⟩
  · intro accepted store maxLen other
    obtain ⟨names, spells⟩ := Path.exists_spells accepted
    have trimmed : Path.dropFinalSlash (Path.dropFinalSlash path) = Path.dropFinalSlash path := by
      rw [spells.dropFinalSlash, Path.dropFinalSlash_join spells.named]
    have hasNames : Path.dropFinalSlash path = "/" ∨ Path.components path ≠ [] := by
      rw [spells.components, spells.dropFinalSlash]
      by_cases bare : names = []
      · subst bare
        exact Or.inl rfl
      · exact Or.inr bare
    refine ⟨store.locate_ne_noComponents hasNames maxLen other,
      store.locate_ne_noComponents ?_ maxLen other⟩
    rwa [trimmed, Path.components_dropFinalSlash]

theorem path_grammar_accented :
    Path.check 6 "/d/é/" = .ok () ∧ Path.check 5 "/d/é/" ≠ .ok () ∧ Path.Spells "/d/é/" ["d", "é"] ∧
      Path.components "/d/é/" = ["d", "é"] ∧
      Path.byteLength (Path.dropFinalSlash "/d/é/") =
        ((["d", "é"].map fun name => Path.byteLength name + 1)).sum ∧
      Path.components (Path.join ["d", "é"]) = ["d", "é"] ∧
      ∀ store maxLen, Store.locate store maxLen "/d/é/" ≠
        .error (.malformedPath "/d/é/" .noComponents) := by
  have accepted : Path.check 6 "/d/é/" = .ok () := by decide +kernel
  have named : ∀ name ∈ ["d", "é"], Path.IsName name := by
    intro name member
    have either : name = "d" ∨ name = "é" := by simpa using member
    rcases either with rfl | rfl <;> exact ⟨by decide +kernel, by decide +kernel⟩
  have spells : Path.Spells "/d/é/" ["d", "é"] := by
    have closed := Path.Spells.closed (List.cons_ne_nil "d" ["é"]) named
    have written : Path.join ["d", "é"] ++ "/" = "/d/é/" := by decide +kernel
    exact written ▸ closed
  obtain ⟨-, read, back, present⟩ := path_grammar 6 "/d/é/"
  obtain ⟨split, -, long⟩ := read _ spells
  rw [split] at long
  exact ⟨accepted, by decide +kernel, spells, split, long (by decide +kernel),
    back _ (List.cons_ne_nil _ _) named, fun store maxLen => (present accepted store maxLen _).1⟩

end NameTree
