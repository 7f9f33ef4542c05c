import NameTree.Proofs.Change

/-!
Where lists of names lead after a change. A create adds one list, a deletion adds none, and a rename
of a directory moves all lists that continue its own.
-/

namespace NameTree.Store

variable {before after : Store}

section Bindings

theorem follow_congr {names : List String}
    (agree : ∀ front name, front ++ [name] <+: names →
      ∀ place, before.follow none front = some place →
      after.binding? .dir place name = before.binding? .dir place name) :
    after.follow none names = before.follow none names := by
  induction names using List.reverseRecOn with
  | nil => rfl
  | append_singleton front name ih =>
    have same := ih fun front' name' passed =>
      agree front' name' (passed.trans (List.prefix_append front [name]))
    rw [follow_concat, follow_concat, same]
    cases led : before.follow none front with
    | none => rfl
    | some place => simp [agree front name List.prefix_rfl place led]

theorem resolve?_congr {names : List String} (kind : Kind)
    (agree : ∀ front name, front ++ [name] <+: names →
      ∀ place, before.follow none front = some place → ∀ kind,
      after.binding? kind place name = before.binding? kind place name) :
    after.resolve? kind names = before.resolve? kind names := by
  rcases List.eq_nil_or_concat' names with rfl | ⟨passed, leaf, rfl⟩
  · rfl
  · have same : after.follow none passed = before.follow none passed := by
      refine follow_congr fun front name isPrefix place led => ?_
      exact agree front name (isPrefix.trans (List.prefix_append passed [leaf])) place led .dir
    rw [resolve?_concat, resolve?_concat, same]
    cases led : before.follow none passed with
    | none => rfl
    | some place => exact agree passed leaf List.prefix_rfl place led kind

theorem Linked.hasPlace_of_follow (linked : before.Linked) {names : List String} {place : Place}
    (led : before.follow none names = some place) : before.HasPlace place := by
  cases place with
  | none => trivial
  | some id => exact linked.mem_ids_of_resolve? (follow_eq_some_dir_iff.mp led)

theorem Linked.follow_congr_of_place_ne (linked : before.Linked) {front : List String}
    {place : Place} (led : before.follow none front = some place)
    (agree : ∀ elsewhere, before.HasPlace elsewhere → elsewhere ≠ place → ∀ name,
      after.binding? .dir elsewhere name = before.binding? .dir elsewhere name) :
    after.follow none front = some place := by
  have same : after.follow none front = before.follow none front := by
    refine follow_congr fun passed name isPrefix elsewhere ledThere =>
      agree elsewhere (linked.hasPlace_of_follow ledThere) ?_ name
    intro here
    subst here
    obtain rfl := linked.follow_inj led ledThere
    have bounded := isPrefix.length_le
    rw [List.length_append, List.length_singleton] at bounded
    omega
  rw [same, led]

theorem follow_of_fewer
    (fewer : ∀ {place name id}, after.binding? .dir place name = some id →
      before.binding? .dir place name = some id)
    {place reached : Place} {names : List String} (led : after.follow place names = some reached) :
    before.follow place names = some reached := by
  induction names generalizing place with
  | nil => exact led
  | cons name rest ih =>
    obtain ⟨id, bound, led⟩ := follow_cons_eq_some_iff.mp led
    exact follow_cons_eq_some_iff.mpr ⟨id, fewer bound, ih led⟩

theorem resolve?_of_fewer
    (fewer : ∀ {kind place name id}, after.binding? kind place name = some id →
      before.binding? kind place name = some id) {kind : Kind} {names : List String} {id : Int}
    (found : after.resolve? kind names = some id) : before.resolve? kind names = some id := by
  obtain ⟨front, leaf, place, rfl, led, bound⟩ := exists_concat_of_resolve? found
  exact resolve?_concat_eq_some_iff.mpr ⟨place, follow_of_fewer fewer led, fewer bound⟩

end Bindings

section Binds

variable {kind : Kind} {place : Place} {name : String} {front : List String}

theorem Binds.binding?_new (change : Binds before after kind place name) (sound : before.Sound)
    (other : Kind) (asked : String) :
    after.binding? other (some (after.counter : Int)) asked = none := by
  -- a new directory is empty, and so was the place that its id stood for before
  have fresh : ¬ before.HasPlace (some (after.counter : Int)) :=
    sound.not_issued change.counter .dir
  have apart : some (after.counter : Int) ≠ place := by
    intro same
    exact fresh (same ▸ change.present)
  rw [change.bindings, if_neg fun all => apart all.2.1]
  exact binding?_of_absent fresh asked

theorem Binds.follow_front (change : Binds before after kind place name) (linked : before.Linked)
    (led : before.follow none front = some place) : after.follow none front = some place :=
  linked.follow_congr_of_place_ne led fun _ _ ne asked => by
    rw [change.bindings, if_neg fun all => ne all.2.1]

theorem Binds.resolve?_new (change : Binds before after kind place name) (linked : before.Linked)
    (led : before.follow none front = some place) :
    after.resolve? kind (front ++ [name]) = some (after.counter : Int) := by
  refine resolve?_concat_eq_some_iff.mpr ⟨place, change.follow_front linked led, ?_⟩
  rw [change.bindings, if_pos ⟨rfl, rfl, rfl⟩]

theorem Binds.follow_new_or_old (change : Binds before after kind place name) (sound : before.Sound)
    (led : before.follow none front = some place) {names : List String} {reached : Place}
    (ledAfter : after.follow none names = some reached) :
    before.follow none names = some reached ∨
      (kind = .dir ∧ names = front ++ [name] ∧ reached = some (after.counter : Int)) := by
  induction names using List.reverseRecOn generalizing reached with
  | nil => exact Or.inl ledAfter
  | append_singleton passed last ih =>
    obtain ⟨parent, id, ledParent, bound, rfl⟩ := follow_concat_eq_some_iff.mp ledAfter
    rcases ih ledParent with old | ⟨-, -, rfl⟩
    · rcases change.new_or_old bound with ⟨⟨sameKind, rfl, rfl⟩, rfl⟩ | ⟨-, kept⟩
      · exact Or.inr ⟨sameKind.symm, by rw [sound.follow_inj led old], rfl⟩
      · exact Or.inl (follow_concat_eq_some_iff.mpr ⟨parent, id, old, kept, rfl⟩)
    · rw [change.binding?_new sound] at bound
      cases bound

theorem Binds.resolve?_new_or_old (change : Binds before after kind place name)
    (sound : before.Sound) (led : before.follow none front = some place) {other : Kind}
    {names : List String} {id : Int} (found : after.resolve? other names = some id) :
    before.resolve? other names = some id ∨ (other = kind ∧ names = front ++ [name]) := by
  obtain ⟨passed, last, parent, rfl, ledParent, bound⟩ := exists_concat_of_resolve? found
  rcases change.follow_new_or_old sound led ledParent with old | ⟨-, -, rfl⟩
  · rcases change.new_or_old bound with ⟨⟨rfl, rfl, rfl⟩, -⟩ | ⟨-, kept⟩
    · exact Or.inr ⟨rfl, by rw [sound.follow_inj led old]⟩
    · exact Or.inl (resolve?_concat_eq_some_iff.mpr ⟨parent, old, kept⟩)
  · rw [change.binding?_new sound] at bound
    cases bound

end Binds

section Renames

variable {kind : Kind} {place : Place} {old new : String} {id : Int} {front : List String}

theorem Renames.binding?_of_kind_ne (change : Renames before after kind place old new id)
    {other : Kind} (ne : other ≠ kind) (elsewhere : Place) (asked : String) :
    after.binding? other elsewhere asked = before.binding? other elsewhere asked := by
  rw [change.bindings, if_neg fun all => ne all.1, if_neg fun all => ne all.1]

theorem Renames.binding?_of_place_ne (change : Renames before after kind place old new id)
    {elsewhere : Place} (ne : elsewhere ≠ place) (other : Kind) (asked : String) :
    after.binding? other elsewhere asked = before.binding? other elsewhere asked := by
  rw [change.bindings, if_neg fun all => ne all.2.1, if_neg fun all => ne all.2.1]

theorem Renames.ne (change : Renames before after kind place old new id) : old ≠ new := by
  intro same
  subst same
  have free := change.free
  rw [change.found] at free
  cases free

theorem Renames.follow_other (change : Renames before after kind place old new id)
    (linked : before.Linked) (led : before.follow none front = some place) {names : List String}
    (notOld : ¬ front ++ [old] <+: names) (notNew : ¬ front ++ [new] <+: names) :
    after.follow none names = before.follow none names := by
  refine follow_congr fun passed name isPrefix parent ledParent => ?_
  by_cases here : parent = place
  · subst here
    have same := linked.follow_inj led ledParent
    subst same
    rw [change.bindings, if_neg, if_neg]
    · intro all
      rcases all with ⟨-, -, rfl⟩
      exact notOld isPrefix
    · intro all
      rcases all with ⟨-, -, rfl⟩
      exact notNew isPrefix
  · exact change.binding?_of_place_ne here .dir name

theorem Renames.follow_front (change : Renames before after kind place old new id)
    (linked : before.Linked) (led : before.follow none front = some place) :
    after.follow none front = some place :=
  linked.follow_congr_of_place_ne led fun _ _ ne name => change.binding?_of_place_ne ne .dir name

theorem Renames.follow_below (change : Renames before after kind place old new id)
    {rank : Int → Nat} (ranked : before.Ranked rank) {top : Int}
    (below : ∀ parent ∈ place, rank parent < rank top) (names : List String) :
    after.follow (some top) names = before.follow (some top) names := by
  -- what lies below the renamed directory is not above it, so nothing changes there
  induction names generalizing top with
  | nil => rfl
  | cons name rest ih =>
    have apart : some top ≠ place := by
      intro same
      subst same
      exact absurd (below top rfl) (lt_irrefl (rank top))
    simp only [follow, change.binding?_of_place_ne apart]
    cases bound : before.binding? .dir (some top) name with
    | none => rfl
    | some child =>
      have ascends := ranked bound
      exact ih fun parent here => (below parent here).trans ascends

variable {suffix : List String}

theorem Renames.follow_new (change : Renames before after .dir place old new id)
    (linked : before.Linked) (led : before.follow none front = some place) (suffix : List String) :
    after.follow none (front ++ new :: suffix) = before.follow none (front ++ old :: suffix) := by
  have bound : after.binding? .dir place new = some id := by
    rw [change.bindings, if_pos ⟨rfl, rfl, rfl⟩]
  obtain ⟨rank, ranked⟩ := linked.ranked
  have below : ∀ parent ∈ place, rank parent < rank id := by
    intro parent here
    obtain rfl : place = some parent := here
    exact ranked change.found
  calc
    after.follow none (front ++ new :: suffix) = after.follow place (new :: suffix) := by
      rw [follow_append, change.follow_front linked led, Option.bind_some]
    _ = after.follow (some id) suffix := by
      simp only [follow, bound]
    _ = before.follow (some id) suffix := change.follow_below ranked below suffix
    _ = before.follow place (old :: suffix) := by
      simp only [follow, change.found]
    _ = before.follow none (front ++ old :: suffix) := by
      rw [follow_append, led, Option.bind_some]

theorem Renames.follow_old (change : Renames before after .dir place old new id)
    (linked : before.Linked) (led : before.follow none front = some place) (suffix : List String) :
    after.follow none (front ++ old :: suffix) = none := by
  have unbound : after.binding? .dir place old = none := by
    rw [change.bindings, if_neg fun all => change.ne all.2.2, if_pos ⟨rfl, rfl, rfl⟩]
  rw [follow_append, change.follow_front linked led]
  simp [follow, unbound]

theorem Renames.resolve?_new (change : Renames before after .dir place old new id)
    (linked : before.Linked) (led : before.follow none front = some place) (nonempty : suffix ≠ [])
    (other : Kind) :
    after.resolve? other (front ++ new :: suffix) =
      before.resolve? other (front ++ old :: suffix) := by
  obtain ⟨inner, leaf, rfl⟩ := (List.eq_nil_or_concat' suffix).resolve_left nonempty
  have regroup (name : String) : front ++ name :: (inner ++ [leaf]) =
      (front ++ name :: inner) ++ [leaf] := by
    simp
  have apart : ∀ parent, before.follow none (front ++ old :: inner) = some parent →
      parent ≠ place := by
    intro parent reached here
    subst here
    have same := congrArg List.length (linked.follow_inj led reached)
    simp at same
  calc
    after.resolve? other (front ++ new :: (inner ++ [leaf])) =
        (after.follow none (front ++ new :: inner)).bind (after.binding? other · leaf) := by
      rw [regroup, resolve?_concat]
    _ = (before.follow none (front ++ old :: inner)).bind (after.binding? other · leaf) := by
      rw [change.follow_new linked led]
    _ = (before.follow none (front ++ old :: inner)).bind (before.binding? other · leaf) := by
      refine Option.bind_congr fun parent reached => ?_
      exact change.binding?_of_place_ne (apart parent reached) other leaf
    _ = before.resolve? other (front ++ old :: (inner ++ [leaf])) := by
      rw [regroup, resolve?_concat]

theorem Renames.resolve?_new_or_old (change : Renames before after .dir place old new id)
    (linked : before.Linked) (led : before.follow none front = some place) {other : Kind}
    {names : List String} {held : Int} (found : after.resolve? other names = some held) :
    before.resolve? other names = some held ∨
      ∃ suffix, names = front ++ new :: suffix ∧ (suffix = [] ∨
        before.resolve? other (front ++ old :: suffix) = some held) := by
  by_cases isNew : front ++ [new] <+: names
  · obtain ⟨suffix, rfl⟩ := isNew
    rw [List.append_assoc, List.singleton_append] at found ⊢
    refine Or.inr ⟨suffix, rfl, ?_⟩
    by_cases empty : suffix = []
    · exact Or.inl empty
    · exact Or.inr ((change.resolve?_new linked led empty other).symm.trans found)
  · obtain ⟨passed, leaf, parent, rfl, ledParent, bound⟩ := exists_concat_of_resolve? found
    left
    have notNew : ¬ front ++ [new] <+: passed := fun isPrefix =>
      isNew (isPrefix.trans (List.prefix_append _ _))
    have notOld : ¬ front ++ [old] <+: passed := by
      intro given
      rcases given with ⟨suffix, rfl⟩
      rw [List.append_assoc, List.singleton_append, change.follow_old linked led] at ledParent
      cases ledParent
    rw [change.follow_other linked led notOld notNew] at ledParent
    rcases change.new_or_old bound with ⟨⟨-, rfl, rfl⟩, -⟩ | ⟨-, kept⟩
    · rw [linked.follow_inj led ledParent] at isNew
      exact absurd List.prefix_rfl isNew
    · exact resolve?_concat_eq_some_iff.mpr ⟨parent, ledParent, kept⟩

theorem Renames.resolve?_of_file (change : Renames before after .file place old new id)
    (linked : before.Linked) (led : before.follow none front = some place) {other : Kind}
    {names : List String} {held : Int} (found : after.resolve? other names = some held) :
    before.resolve? other names = some held ∨ names = front ++ [new] := by
  obtain ⟨passed, leaf, parent, rfl, ledParent, bound⟩ := exists_concat_of_resolve? found
  have same : after.follow none passed = before.follow none passed :=
    follow_congr fun _ name _ parent _ => change.binding?_of_kind_ne (by simp) parent name
  rw [same] at ledParent
  rcases change.new_or_old bound with ⟨⟨-, rfl, rfl⟩, -⟩ | ⟨-, kept⟩
  · exact Or.inr (by rw [linked.follow_inj led ledParent])
  · exact Or.inl (resolve?_concat_eq_some_iff.mpr ⟨parent, ledParent, kept⟩)

end Renames

end NameTree.Store
