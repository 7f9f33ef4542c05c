import NameTree.Proofs.Checks
import NameTree.Proofs.Paths
import NameTree.Proofs.Resolution

/-!
The two routes to a directory: by its whole path, and by the place that its last name is bound at.
The second does not ask for the record of the directory itself. Both are described by the names that
lead on and the first that does not, in any store.
-/

namespace NameTree.Store

/-- Each name is bound where those before it lead to, to an id with a record. -/
inductive Leads (store : Store) : Place → List String → Place → Prop where
  | here (place : Place) : Leads store place [] place
  | on {place reached : Place} {id : Int} {name : String} {rest : List String}
      (bound : store.binding? .dir place name = some id) (present : id ∈ store.ids .dir)
      (led : Leads store (some id) rest reached) : Leads store place (name :: rest) reached

/-- The first name that leads nowhere has this binding; if it is an id, the id has no record. -/
def Strays (store : Store) (place : Place) (names : List String) (binding : Option Int) : Prop :=
  ∃ front name back reached, names = front ++ name :: back ∧ store.Leads place front reached ∧
    store.binding? .dir reached name = binding ∧ ∀ id ∈ binding, id ∉ store.ids .dir

/-- What is reported of the first name that leads nowhere. -/
def astray (path : String) : Option Int → Fault
  | none => .notFound path
  | some id => .mismatch id "dir"

def descendFrom (store : Store) (path : String) (place : Place) (names : List String) :
    Except Fault Place := do
  let dirs ← store.index .dir place
  store.descend path place dirs names

variable {store : Store} {path : String} {place reached : Place} {name : String}
  {names rest : List String}

section Leads

theorem leads_cons_iff : store.Leads place (name :: rest) reached ↔
    ∃ id, store.binding? .dir place name = some id ∧ id ∈ store.ids .dir ∧
      store.Leads (some id) rest reached := by
  constructor
  · intro led
    cases led with
    | on bound present led => exact ⟨_, bound, present, led⟩
  · rintro ⟨id, bound, present, led⟩
    exact .on bound present led

theorem leads_nil_iff : store.Leads place [] reached ↔ reached = place := by
  constructor
  · intro led
    cases led
    rfl
  · rintro rfl
    exact .here reached

theorem hasPlace_root (store : Store) : store.HasPlace none := trivial

theorem leads_iff_follow (start : store.HasPlace place) :
    store.Leads place names reached ↔ store.follow place names = some reached ∧
      store.HasPlace reached := by
  induction names generalizing place with
  | nil =>
    rw [leads_nil_iff, follow, Option.some.injEq]
    constructor
    · rintro rfl
      exact ⟨rfl, start⟩
    · exact fun both => both.1.symm
  | cons name rest ih =>
    rw [leads_cons_iff, follow_cons_eq_some_iff]
    constructor
    · rintro ⟨id, bound, found, led⟩
      have next : store.HasPlace (some id) := found
      obtain ⟨followed, there⟩ := (ih next).mp led
      exact ⟨⟨id, bound, followed⟩, there⟩
    · rintro ⟨⟨id, bound, followed⟩, there⟩
      have found : store.HasPlace (some id) := by
        cases rest with
        | nil =>
          cases followed
          exact there
        | cons next further =>
          obtain ⟨_, on, -⟩ := follow_cons_eq_some_iff.mp followed
          exact hasPlace_of_binding? on
      exact ⟨id, bound, found, (ih found).mpr ⟨followed, there⟩⟩

theorem Leads.exists_indexes (led : store.Leads place names reached)
    (start : store.HasPlace place) :
    ∃ files dirs, store.indexes reached = .ok (files, dirs) := by
  have there := ((leads_iff_follow start).mp led).2
  obtain ⟨files, files_at⟩ : ∃ files, store.index .file reached = .ok files := hasPlace_iff.mp there
  obtain ⟨dirs, dirs_at⟩ : ∃ dirs, store.index .dir reached = .ok dirs := hasPlace_iff.mp there
  exact ⟨files, dirs, indexes_eq_ok_iff.mpr ⟨files_at, dirs_at⟩⟩

theorem Leads.ne_root (led : store.Leads none names reached) (nonempty : names ≠ []) :
    reached ≠ none := by
  rintro rfl
  exact follow_ne_root nonempty ((leads_iff_follow (hasPlace_root store)).mp led).1

theorem leads_concat_iff {leaf : String} : store.Leads place (names ++ [leaf]) reached ↔
    ∃ parent id, store.Leads place names parent ∧ store.binding? .dir parent leaf = some id ∧
      id ∈ store.ids .dir ∧ reached = some id := by
  induction names generalizing place with
  | nil =>
    rw [List.nil_append, leads_cons_iff]
    simp only [leads_nil_iff]
    constructor
    · rintro ⟨id, bound, present, same⟩
      exact ⟨place, id, rfl, bound, present, same⟩
    · rintro ⟨parent, id, rfl, bound, present, same⟩
      exact ⟨id, bound, present, same⟩
  | cons name rest ih =>
    rw [List.cons_append, leads_cons_iff]
    simp only [ih, leads_cons_iff]
    constructor
    · rintro ⟨next, bound, present, parent, id, led, further⟩
      exact ⟨parent, id, ⟨next, bound, present, led⟩, further⟩
    · rintro ⟨parent, id, ⟨next, bound, present, led⟩, further⟩
      exact ⟨next, bound, present, parent, id, led, further⟩

theorem not_strays_nil {binding : Option Int} : ¬ store.Strays place [] binding := by
  rintro ⟨front, name, back, -, split, -⟩
  exact absurd split (by simp)

theorem strays_cons_iff {binding : Option Int} : store.Strays place (name :: rest) binding ↔
    (store.binding? .dir place name = binding ∧ ∀ id ∈ binding, id ∉ store.ids .dir) ∨
      ∃ id, store.binding? .dir place name = some id ∧ id ∈ store.ids .dir ∧
        store.Strays (some id) rest binding := by
  constructor
  · rintro ⟨front, stray, back, reached, split, led, astray⟩
    cases led with
    | here =>
      rw [List.nil_append] at split
      obtain ⟨rfl, -⟩ := List.cons_eq_cons.mp split
      exact Or.inl astray
    | on bound present led =>
      rw [List.cons_append] at split
      obtain ⟨rfl, tail⟩ := List.cons_eq_cons.mp split
      exact Or.inr ⟨_, bound, present, _, stray, back, reached, tail, led, astray⟩
  · rintro (astray | ⟨id, bound, present, front, stray, back, reached, rfl, led, astray⟩)
    · exact ⟨[], name, rest, place, rfl, .here place, astray⟩
    · exact ⟨name :: front, stray, back, reached, rfl, .on bound present led, astray⟩

end Leads

section Descend

variable {dirs : Index} {fault : Fault}

theorem descend_eq_error_iff (present : store.index .dir place = .ok dirs) :
    store.descend path place dirs names = .error fault ↔
      ∃ binding, store.Strays place names binding ∧ fault = astray path binding := by
  induction names generalizing place dirs with
  | nil => simp [descend, not_strays_nil]
  | cons name rest ih =>
    simp only [descend, strays_cons_iff, binding?_of_index present]
    cases bound : dirs.get? name with
    | none => simp [astray, eq_comm]
    | some id =>
      cases found : store.dirs.get? id with
      | none =>
        have absent : id ∉ store.ids .dir := by
          rw [mem_ids_dir, found]
          simp
        simp [Arena.require, found, absent, astray, eq_comm]
      | some record =>
        have listed : id ∈ store.ids .dir := mem_ids_dir.mpr ⟨record, found⟩
        simp only [Arena.require, found]
        rw [ih (index_place found)]
        refine exists_congr fun binding => and_congr_left' ?_
        constructor
        · exact fun strays => Or.inr ⟨id, rfl, listed, strays⟩
        · rintro (⟨rfl, absent⟩ | ⟨other, same, -, strays⟩)
          · exact absurd listed (absent id rfl)
          · cases same
            exact strays

theorem descendFrom_cons (path : String) (place : Place) (name : String) (rest : List String) :
    store.descendFrom path place (name :: rest) = (do
      let dirs ← store.index .dir place
      match dirs.get? name with
      | none => .error (.notFound path)
      | some id => store.descendFrom path (some id) rest) := by
  refine congrArg (store.index .dir place >>= ·) (funext fun dirs => ?_)
  rw [descend]
  cases dirs.get? name with
  | none => rfl
  | some id =>
    simp only [descendFrom, index]
    cases store.dirs.require id <;> rfl

theorem descendFrom_append (path : String) (place : Place) (front back : List String) :
    store.descendFrom path place (front ++ back) = (do
      let reached ← store.descendFrom path place front
      store.descendFrom path reached back) := by
  induction front generalizing place with
  | nil =>
    simp only [List.nil_append, descendFrom, descend]
    cases present : store.index .dir place with
    | error => rfl
    | ok dirs => simp [present, bind, Except.bind]
  | cons name rest ih =>
    rw [List.cons_append, descendFrom_cons, descendFrom_cons]
    cases store.index .dir place with
    | error => rfl
    | ok dirs =>
      cases bound : dirs.get? name with
      | none => simp [bound, bind, Except.bind]
      | some id => simpa [bound, bind, Except.bind] using ih (some id)

end Descend

section Routes

variable {maxLen : Int} (named : ∀ name ∈ names, Path.IsName name)
  (short : Path.checkComponents maxLen names = .ok ())
include named short

theorem place_join : store.place maxLen (Path.join names) =
    store.descendFrom (Path.join names) none names := by
  rw [place, Path.components_join named]
  simp only [short]
  rfl

theorem place_join_eq_ok_iff :
    store.place maxLen (Path.join names) = .ok reached ↔ store.Leads none names reached := by
  rw [place_eq_ok_iff, Path.components_join named, and_iff_right short,
    leads_iff_follow (hasPlace_root store)]

theorem place_join_eq_error_iff {fault : Fault} :
    store.place maxLen (Path.join names) = .error fault ↔
      ∃ binding, store.Strays none names binding ∧ fault = astray (Path.join names) binding := by
  rw [place_join named short]
  exact descend_eq_error_iff rfl

theorem locate_join_eq_ok_iff {leaf : String} (nonempty : names ≠ []) :
    store.locate maxLen (Path.join names) = .ok (place, leaf) ↔
      ∃ front, names = front ++ [leaf] ∧ store.Leads none front place := by
  have notRoot : Path.join names ≠ "/" := by
    intro root
    have bare := Path.components_join named
    rw [root] at bare
    exact nonempty (bare.symm.trans (by decide +kernel))
  rw [locate_eq_ok_iff, Path.dropFinalSlash_join named, Path.components_join named,
    and_iff_right notRoot]
  refine exists_congr fun front => ⟨?_, ?_⟩
  · rintro ⟨split, -, led, there⟩
    exact ⟨split, (leads_iff_follow (hasPlace_root store)).mpr ⟨led, there⟩⟩
  · rintro ⟨split, led⟩
    obtain ⟨led, there⟩ := (leads_iff_follow (hasPlace_root store)).mp led
    exact ⟨split, split ▸ short, led, there⟩

theorem children_join_slash (nonempty : names ≠ []) (led : store.Leads none names reached) :
    ∃ bindings, store.indexes reached = .ok bindings ∧
      store.children maxLen (Path.join names ++ "/") = .ok bindings := by
  obtain ⟨files, dirs, indexed⟩ := led.exists_indexes (hasPlace_root store)
  have split : Path.components (Path.join names ++ "/") = names := by
    rw [← Path.addFinalSlash_join nonempty named, Path.components_addFinalSlash,
      Path.components_join named]
  refine ⟨(files, dirs), indexed, children_eq_ok_iff.mpr ?_⟩
  rw [split]
  exact ⟨Or.inr nonempty, short, reached, ((leads_iff_follow (hasPlace_root store)).mp led).1,
    indexes_eq_ok_iff.mp indexed⟩

theorem place_join_eq_dir_iff {id : Int} (nonempty : names ≠ []) :
    store.place maxLen (Path.join names) = .ok (some id) ↔
      ∃ parent leaf files dirs record, store.locate maxLen (Path.join names) = .ok (parent, leaf) ∧
        names.getLast? = some leaf ∧ store.indexes parent = .ok (files, dirs) ∧
        dirs.get? leaf = some id ∧
        store.dirs.get? id = some record := by
  obtain ⟨front, leaf, split⟩ := (List.eq_nil_or_concat' names).resolve_left nonempty
  rw [place_join_eq_ok_iff named short, split, leads_concat_iff]
  constructor
  · rintro ⟨parent, _, led, bound, present, same⟩
    cases same
    obtain ⟨record, found⟩ := mem_ids_dir.mp present
    obtain ⟨files, dirs, indexed⟩ := led.exists_indexes (hasPlace_root store)
    rw [binding?_of_index (indexes_eq_ok_iff.mp indexed).2] at bound
    have located := (locate_join_eq_ok_iff named short nonempty).mpr ⟨front, split, led⟩
    exact ⟨parent, leaf, files, dirs, record, split ▸ located, List.getLast?_concat, indexed,
      bound, found⟩
  · rintro ⟨parent, last, files, dirs, record, located, -, indexed, bound, found⟩
    obtain ⟨front', split', led⟩ :=
      (locate_join_eq_ok_iff named short nonempty).mp (split.symm ▸ located)
    obtain ⟨rfl, rfl⟩ := List.append_singleton_inj.mp (split.symm.trans split')
    rw [← binding?_of_index (indexes_eq_ok_iff.mp indexed).2] at bound
    exact ⟨parent, id, led, bound, mem_ids_dir.mpr ⟨record, found⟩, rfl⟩

end Routes

section Composed

variable {maxLen : Int} {front back : List String}
  (named : ∀ name ∈ front ++ back, Path.IsName name)
  (short : Path.checkComponents maxLen (front ++ back) = .ok ())
include named short

theorem place_join_append : store.place maxLen (Path.join (front ++ back)) = (do
    let reached ← store.descendFrom (Path.join (front ++ back)) none front
    store.descendFrom (Path.join (front ++ back)) reached back) := by
  rw [place_join named short]
  exact descendFrom_append _ none front back

theorem place_join_of_front (placed : store.place maxLen (Path.join front) = .ok reached) :
    store.place maxLen (Path.join (front ++ back)) =
      store.descendFrom (Path.join (front ++ back)) reached back := by
  have inFront (name : String) (member : name ∈ front) : name ∈ front ++ back :=
    List.mem_append_left back member
  have shortFront : Path.checkComponents maxLen front = .ok () := by
    rw [Path.checkComponents_eq_ok_iff] at short ⊢
    exact fun name member => short name (inFront name member)
  have led :=
    (place_join_eq_ok_iff (fun name member => named name (inFront name member)) shortFront).mp
      placed
  rw [leads_iff_follow (hasPlace_root store)] at led
  have descended : store.descendFrom (Path.join (front ++ back)) none front = .ok reached :=
    (descend_eq_ok_iff rfl).mpr led
  rw [place_join_append named short, descended]
  rfl

end Composed

/-- Both routes to a directory agree, also in a damaged store: the path leads to what the last name
is bound to at the place that the second route finds, if that has a record. A descent composes, and
it fails at the first name that leads nowhere. -/
theorem routes_agree_and_compose (store : Store) (maxLen : Int) (names : List String)
    (nonempty : names ≠ []) (named : ∀ name ∈ names, Path.IsName name)
    (short : Path.checkComponents maxLen names = .ok ()) :
    let path := Path.join names
    (∀ id, store.place maxLen path = .ok (some id) ↔
      ∃ parent leaf files dirs record, store.locate maxLen path = .ok (parent, leaf) ∧
        names.getLast? = some leaf ∧
        store.indexes parent = .ok (files, dirs) ∧ dirs.get? leaf = some id ∧
        store.dirs.get? id = some record) ∧
    (∀ reached, store.place maxLen path = .ok reached →
      reached ≠ none ∧ ∃ bindings, store.indexes reached = .ok bindings ∧
        store.children maxLen (path ++ "/") = .ok bindings) ∧
    (∀ front back, names = front ++ back →
      store.place maxLen path = (do
        let reached ← store.descendFrom path none front
        store.descendFrom path reached back) ∧
      ∀ reached, store.place maxLen (Path.join front) = .ok reached →
        store.place maxLen path = store.descendFrom path reached back) ∧
    (store.place maxLen path = .error (.notFound path) ↔ store.Strays none names none) ∧
    (∀ id, store.place maxLen path = .error (.mismatch id "dir") ↔
      store.Strays none names (some id)) ∧
    ∀ fault, store.place maxLen path = .error fault → fault = .notFound path ∨
      ∃ id, fault = .mismatch id "dir" := by
  intro path
  have fails (fault : Fault) : store.place maxLen path = .error fault ↔
      ∃ binding, store.Strays none names binding ∧ fault = astray path binding :=
    place_join_eq_error_iff named short
  refine ⟨fun id => place_join_eq_dir_iff named short nonempty, fun reached placed => ?_, ?_, ?_,
    fun id => ?_, ?_⟩
  · have led := (place_join_eq_ok_iff named short).mp placed
    exact ⟨led.ne_root nonempty, children_join_slash named short nonempty led⟩
  · rintro front back rfl
    exact ⟨place_join_append named short, fun reached => place_join_of_front named short⟩
  · rw [fails]
    constructor
    · rintro ⟨_ | id, strays, same⟩
      · exact strays
      · cases same
    · exact fun strays => ⟨none, strays, rfl⟩
  · rw [fails]
    constructor
    · rintro ⟨_ | other, strays, same⟩
      · cases same
      · cases same
        exact strays
    · exact fun strays => ⟨some id, strays, rfl⟩
  · intro fault failed
    obtain ⟨_ | id, -, rfl⟩ := (fails fault).mp failed
    · exact Or.inl rfl
    · exact Or.inr ⟨id, rfl⟩

/-- A directory that has a record binds a name to an id without one. -/
def severed : Store where
  capacity := none
  rootFiles := .empty "root_files" none
  rootDirs := ⟨"root_dirs", none, ⟨[("d", 1)], by decide⟩⟩
  files := .empty none
  dirs := ⟨none, ⟨[(1, ⟨7, [], .empty "children_files" none,
    ⟨"children_dirs", none, ⟨[("lost", 2)], by decide⟩⟩⟩)], by decide⟩⟩
  counter := 2
  epoch := 0

theorem routes_agree_and_compose_severed :
    (Path.join ["d"] = "/d" ∧ Path.checkComponents 4 ["d"] = .ok () ∧
      severed.place 4 "/d" = .ok (some 1) ∧
      ∃ bindings, severed.indexes (some 1) = .ok bindings ∧
        severed.children 4 "/d/" = .ok bindings) ∧
    (Path.join ["d", "lost"] = "/d/lost" ∧ severed.locate 4 "/d/lost" = .ok (some 1, "lost") ∧
      severed.place 4 "/d/lost" = .error (.mismatch 2 "dir") ∧
        severed.Strays none ["d", "lost"] (some 2) ∧
      severed.place 4 "/d/lost" = severed.descendFrom "/d/lost" (some 1) ["lost"]) := by
  have named (names : List String) (listed : names ⊆ ["d", "lost"]) :
      ∀ name ∈ names, Path.IsName name := by
    intro name member
    have either : name = "d" ∨ name = "lost" := by simpa using listed member
    rcases either with rfl | rfl <;> exact ⟨by decide, by decide⟩
  have join1 : Path.join ["d"] = "/d" := by decide +kernel
  have join2 : Path.join ["d", "lost"] = "/d/lost" := by decide +kernel
  have checked1 : Path.checkComponents 4 ["d"] = .ok () := by decide +kernel
  have checked2 : Path.checkComponents 4 ["d", "lost"] = .ok () := by decide +kernel
  have placed : severed.place 4 "/d" = .ok (some 1) := by decide +kernel
  have missing : severed.place 4 "/d/lost" = .error (.mismatch 2 "dir") := by decide +kernel
  obtain ⟨-, children, -⟩ :=
    routes_agree_and_compose severed 4 ["d"] (by simp) (named _ (by simp)) checked1
  obtain ⟨-, -, composed, -, mismatch, -⟩ :=
    routes_agree_and_compose severed 4 ["d", "lost"] (by simp) (named _ (by simp)) checked2
  rw [join1] at children
  rw [join2] at composed mismatch
  refine ⟨⟨join1, checked1, placed, (children (some 1) placed).2⟩,
    join2, by decide +kernel, missing, (mismatch 2).mp missing,
    (composed ["d"] ["lost"] rfl).2 (some 1) ?_⟩
  exact join1 ▸ placed

end NameTree.Store
