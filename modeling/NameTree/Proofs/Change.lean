import NameTree.Proofs.Under

/-!
The ways in which a mutation can change a namespace, as seen by its bindings and records: a name is
bound to a new record, moved to a new name, unbound with its record, or unbound with everything
under it. Each of them keeps a store intact, and sound if it was.
-/

namespace NameTree.Store

structure Keeps (before after : Store) : Prop where
  bindings : ∀ kind place name, after.binding? kind place name = before.binding? kind place name
  records : ∀ kind, after.ids kind = before.ids kind
  counter : after.counter = before.counter

/-- The name is bound to a new record, and the record that it was bound to is dropped. -/
structure Binds (before after : Store) (kind : Kind) (place : Place) (name : String) : Prop where
  present : before.HasPlace place
  bindings : ∀ other elsewhere asked, after.binding? other elsewhere asked =
    if other = kind ∧ elsewhere = place ∧ asked = name then some (after.counter : Int)
    else before.binding? other elsewhere asked
  records : ∀ other id, id ∈ after.ids other ↔ (other = kind ∧ id = after.counter) ∨
    (id ∈ before.ids other ∧ ¬ (other = kind ∧ before.binding? kind place name = some id))
  counter : after.counter = before.counter + 1

structure Renames (before after : Store) (kind : Kind) (place : Place) (old new : String)
    (id : Int) : Prop where
  found : before.binding? kind place old = some id
  free : before.binding? kind place new = none
  bindings : ∀ other elsewhere asked, after.binding? other elsewhere asked =
    if other = kind ∧ elsewhere = place ∧ asked = new then some id
    else if other = kind ∧ elsewhere = place ∧ asked = old then none
    else before.binding? other elsewhere asked
  records : ∀ kind, after.ids kind = before.ids kind
  counter : after.counter = before.counter

structure Unbinds (before after : Store) (place : Place) (name : String) (id : Int) : Prop where
  found : before.binding? .file place name = some id
  bindings : ∀ other elsewhere asked, after.binding? other elsewhere asked =
    if other = .file ∧ elsewhere = place ∧ asked = name then none
    else before.binding? other elsewhere asked
  records : ∀ other held, held ∈ after.ids other ↔
    held ∈ before.ids other ∧ ¬ (other = .file ∧ held = id)
  counter : after.counter = before.counter

/-- A directory is unbound, and its record is dropped with all records under it. -/
structure Prunes (before after : Store) (place : Place) (name : String) (top : Int) : Prop where
  found : before.binding? .dir place name = some top
  bindings : ∀ other elsewhere asked id, after.binding? other elsewhere asked = some id ↔
    before.binding? other elsewhere asked = some id ∧
      ¬ (other = .dir ∧ elsewhere = place ∧ asked = name) ∧
        ∀ parent ∈ elsewhere, ¬ before.Under top parent
  files : ∀ id, id ∈ after.ids .file ↔ id ∈ before.ids .file ∧ ¬ before.FileUnder top id
  dirs : ∀ id, id ∈ after.ids .dir ↔ id ∈ before.ids .dir ∧ ¬ before.Under top id
  counter : after.counter = before.counter

inductive Change (before after : Store) : Prop where
  | keeps (change : Keeps before after)
  | binds {kind : Kind} {place : Place} {name : String}
    (change : Binds before after kind place name)
  | renames {kind : Kind} {place : Place} {old new : String} {id : Int}
    (change : Renames before after kind place old new id)
  | unbinds {place : Place} {name : String} {id : Int} (change : Unbinds before after place name id)
  | prunes {place : Place} {name : String} {top : Int} (change : Prunes before after place name top)

variable {before after : Store} {kind : Kind} {place : Place} {name : String}

theorem Linked.of_fewer (linked : before.Linked)
    (fewer : ∀ {kind place name id}, after.binding? kind place name = some id →
      before.binding? kind place name = some id)
    (recorded : ∀ {kind place name id}, after.binding? kind place name = some id →
      id ∈ after.ids kind) :
    after.Linked where
  recorded := recorded
  unique found again := linked.unique (fewer found) (fewer again)
  ranked := by
    obtain ⟨rank, ranked⟩ := linked.ranked
    exact ⟨rank, fun found => ranked (fewer found)⟩

theorem Keeps.intact (change : Keeps before after) (intact : before.Intact) : after.Intact where
  toLinked := by
    have fewer {kind place name id} (found : after.binding? kind place name = some id) :
        before.binding? kind place name = some id := by
      rw [← change.bindings, found]
    refine intact.of_fewer fewer ?_
    intro kind place name id found
    rw [change.records]
    exact intact.recorded (fewer found)
  bound {kind id} member := by
    rw [change.records] at member
    obtain ⟨place, name, found⟩ := intact.bound member
    exact ⟨place, name, (change.bindings kind place name).trans found⟩
  issued {kind id} member := by
    rw [change.records] at member
    rw [change.counter]
    exact intact.issued member

section Binds

theorem Intact.not_issued (intact : before.Intact) (counter : after.counter = before.counter + 1)
    (kind : Kind) :
    (after.counter : Int) ∉ before.ids kind := by
  intro member
  have := intact.issued member
  omega

theorem Intact.not_hasPlace_next (intact : before.Intact) :
    ¬ before.HasPlace (some ((before.counter : Int) + 1)) := by
  intro present
  have isDir : (before.counter : Int) + 1 ∈ before.ids .dir := present
  have low := intact.issued isDir
  omega

theorem Intact.place_ne_next (intact : before.Intact) (present : before.HasPlace place) :
    place ≠ some ((before.counter : Int) + 1) := by
  intro same
  exact intact.not_hasPlace_next (same ▸ present)

theorem Binds.new_or_old (change : Binds before after kind place name) {other : Kind}
    {elsewhere : Place} {asked : String} {id : Int}
    (found : after.binding? other elsewhere asked = some id) :
    ((other = kind ∧ elsewhere = place ∧ asked = name) ∧ id = after.counter) ∨
      (¬ (other = kind ∧ elsewhere = place ∧ asked = name) ∧
        before.binding? other elsewhere asked = some id) := by
  rw [change.bindings] at found
  by_cases here : other = kind ∧ elsewhere = place ∧ asked = name
  · rw [if_pos here] at found
    exact Or.inl ⟨here, (Option.some.inj found).symm⟩
  · rw [if_neg here] at found
    exact Or.inr ⟨here, found⟩

theorem Binds.ranked (change : Binds before after kind place name) (intact : before.Intact) :
    ∃ rank, after.Ranked rank := by
  obtain ⟨rank, ranked⟩ := intact.ranked
  have fresh := intact.not_issued change.counter .dir
  let height : Nat := (place.map rank).getD 0 + 1
  refine ⟨fun id => if id = after.counter then height else rank id, ?_⟩
  intro parent asked id found
  have other {id : Int} (member : id ∈ before.ids .dir) : id ≠ after.counter := by
    intro same
    exact fresh (same ▸ member)
  rcases change.new_or_old found with ⟨⟨-, rfl, -⟩, rfl⟩ | ⟨-, old⟩
  · have isDir : parent ∈ before.ids .dir := change.present
    simp [other isDir, height]
  · have isDir : parent ∈ before.ids .dir := hasPlace_of_binding? old
    simp only [other isDir, other (intact.recorded old), if_false]
    exact ranked old

theorem Binds.linked (change : Binds before after kind place name) (intact : before.Intact) :
    after.Linked where
  recorded {other elsewhere asked id} found := by
    rw [change.records]
    rcases change.new_or_old found with ⟨⟨sameKind, -, -⟩, new⟩ | ⟨elsewhere_ne, old⟩
    · exact Or.inl ⟨sameKind, new⟩
    · refine Or.inr ⟨intact.recorded old, ?_⟩
      intro all
      rcases all with ⟨rfl, dropped⟩
      exact elsewhere_ne ⟨rfl, intact.unique dropped old⟩
  unique {other elsewhere asked far askedFar id} found again := by
    have fresh := intact.not_issued change.counter other
    rcases change.new_or_old found with ⟨⟨-, rfl, rfl⟩, new⟩ | ⟨-, old⟩
    · rcases change.new_or_old again with ⟨⟨-, samePlace, sameName⟩, -⟩ | ⟨-, old⟩
      · exact ⟨samePlace, sameName⟩
      · exact absurd (intact.recorded (new ▸ old)) fresh
    · rcases change.new_or_old again with ⟨-, new⟩ | ⟨-, old'⟩
      · exact absurd (intact.recorded (new ▸ old)) fresh
      · exact intact.unique old old'
  ranked := change.ranked intact

theorem Binds.intact (change : Binds before after kind place name) (intact : before.Intact) :
    after.Intact where
  toLinked := change.linked intact
  bound {other id} member := by
    rcases (change.records other id).mp member with ⟨rfl, rfl⟩ | ⟨old, survives⟩
    · exact ⟨place, name, by simp [change.bindings]⟩
    · obtain ⟨elsewhere, asked, found⟩ := intact.bound old
      have elsewhere_ne : ¬ (other = kind ∧ elsewhere = place ∧ asked = name) := by
        intro all
        rcases all with ⟨rfl, rfl, rfl⟩
        exact survives ⟨rfl, found⟩
      exact ⟨elsewhere, asked, by rw [change.bindings, if_neg elsewhere_ne, found]⟩
  issued {other id} member := by
    have next := change.counter
    rcases (change.records other id).mp member with ⟨-, rfl⟩ | ⟨old, -⟩
    · omega
    · have := intact.issued old
      omega

end Binds

section Renames

variable {old new : String} {id : Int}

theorem Renames.new_or_old (change : Renames before after kind place old new id) {other : Kind}
    {elsewhere : Place} {asked : String} {held : Int}
    (found : after.binding? other elsewhere asked = some held) :
    ((other = kind ∧ elsewhere = place ∧ asked = new) ∧ held = id) ∨
      (¬ (other = kind ∧ elsewhere = place ∧ asked = old) ∧
        before.binding? other elsewhere asked = some held) := by
  rw [change.bindings] at found
  by_cases here : other = kind ∧ elsewhere = place ∧ asked = new
  · rw [if_pos here] at found
    exact Or.inl ⟨here, (Option.some.inj found).symm⟩
  · rw [if_neg here] at found
    by_cases there : other = kind ∧ elsewhere = place ∧ asked = old
    · rw [if_pos there] at found
      cases found
    · rw [if_neg there] at found
      exact Or.inr ⟨there, found⟩

theorem Renames.linked (change : Renames before after kind place old new id)
    (intact : before.Intact) : after.Linked where
  recorded {other elsewhere asked held} found := by
    rw [change.records]
    rcases change.new_or_old found with ⟨⟨rfl, -, -⟩, rfl⟩ | ⟨-, kept⟩
    · exact intact.recorded change.found
    · exact intact.recorded kept
  unique {other elsewhere asked far askedFar held} found again := by
    rcases change.new_or_old found with ⟨⟨rfl, rfl, rfl⟩, rfl⟩ | ⟨elsewhere_ne, kept⟩
    · rcases change.new_or_old again with ⟨⟨-, samePlace, sameName⟩, -⟩ | ⟨elsewhere_ne, kept⟩
      · exact ⟨samePlace, sameName⟩
      · exact absurd ⟨rfl, intact.unique change.found kept⟩ elsewhere_ne
    · rcases change.new_or_old again with ⟨⟨rfl, rfl, rfl⟩, rfl⟩ | ⟨-, kept'⟩
      · exact absurd ⟨rfl, intact.unique change.found kept⟩ elsewhere_ne
      · exact intact.unique kept kept'
  ranked := by
    obtain ⟨rank, ranked⟩ := intact.ranked
    refine ⟨rank, ?_⟩
    intro parent asked held found
    rcases change.new_or_old found with ⟨⟨rfl, rfl, -⟩, rfl⟩ | ⟨-, kept⟩
    · exact ranked change.found
    · exact ranked kept

theorem Renames.intact (change : Renames before after kind place old new id)
    (intact : before.Intact) : after.Intact where
  toLinked := change.linked intact
  bound {other held} member := by
    rw [change.records] at member
    obtain ⟨elsewhere, asked, found⟩ := intact.bound member
    by_cases there : other = kind ∧ elsewhere = place ∧ asked = old
    · refine ⟨place, new, ?_⟩
      obtain ⟨rfl, rfl, rfl⟩ := there
      rw [change.bindings, if_pos ⟨rfl, rfl, rfl⟩, ← change.found, found]
    · refine ⟨elsewhere, asked, ?_⟩
      have not_new : ¬ (other = kind ∧ elsewhere = place ∧ asked = new) := by
        intro all
        rcases all with ⟨rfl, rfl, rfl⟩
        rw [change.free] at found
        cases found
      rw [change.bindings, if_neg not_new, if_neg there, found]
  issued {other held} member := by
    rw [change.records] at member
    rw [change.counter]
    exact intact.issued member

end Renames

section Unbinds

variable {id : Int}

theorem Unbinds.old (change : Unbinds before after place name id) {other : Kind} {elsewhere : Place}
    {asked : String} {held : Int} (found : after.binding? other elsewhere asked = some held) :
    ¬ (other = .file ∧ elsewhere = place ∧ asked = name) ∧
      before.binding? other elsewhere asked = some held := by
  rw [change.bindings] at found
  by_cases here : other = .file ∧ elsewhere = place ∧ asked = name
  · rw [if_pos here] at found
    cases found
  · rw [if_neg here] at found
    exact ⟨here, found⟩

theorem Unbinds.intact (change : Unbinds before after place name id) (intact : before.Intact) :
    after.Intact where
  toLinked := by
    refine intact.of_fewer (fun found => (change.old found).2) ?_
    intro other elsewhere asked held found
    obtain ⟨elsewhere_ne, kept⟩ := change.old found
    rw [change.records]
    refine ⟨intact.recorded kept, ?_⟩
    intro all
    rcases all with ⟨rfl, rfl⟩
    exact elsewhere_ne ⟨rfl, intact.unique change.found kept⟩
  bound {other held} member := by
    obtain ⟨old, survives⟩ := (change.records other held).mp member
    obtain ⟨elsewhere, asked, found⟩ := intact.bound old
    have elsewhere_ne : ¬ (other = .file ∧ elsewhere = place ∧ asked = name) := by
      intro all
      rcases all with ⟨rfl, rfl, rfl⟩
      rw [change.found] at found
      exact survives ⟨rfl, (Option.some.inj found).symm⟩
    exact ⟨elsewhere, asked, by rw [change.bindings, if_neg elsewhere_ne, found]⟩
  issued {other held} member := by
    rw [change.counter]
    exact intact.issued ((change.records other held).mp member).1

end Unbinds

section Prunes

variable {top : Int}

theorem Prunes.not_under (change : Prunes before after place name top) (linked : before.Linked)
    {elsewhere : Place} {asked : String} {id : Int}
    (found : after.binding? .dir elsewhere asked = some id) : ¬ before.Under top id := by
  obtain ⟨kept, elsewhere_ne, outside⟩ := (change.bindings .dir elsewhere asked id).mp found
  intro under
  cases under with
  | refl => exact elsewhere_ne ⟨rfl, linked.unique change.found kept⟩
  | tail above child =>
    obtain ⟨asked', bound⟩ := child
    have samePlace := (linked.unique bound kept).1
    exact outside _ samePlace above

theorem Prunes.not_fileUnder (change : Prunes before after place name top) (linked : before.Linked)
    {elsewhere : Place} {asked : String} {id : Int}
    (found : after.binding? .file elsewhere asked = some id) : ¬ before.FileUnder top id := by
  obtain ⟨kept, -, outside⟩ := (change.bindings .file elsewhere asked id).mp found
  intro given
  rcases given with ⟨parent, asked', under, bound⟩
  have samePlace := (linked.unique bound kept).1
  exact outside parent samePlace under

theorem Prunes.linked (change : Prunes before after place name top) (linked : before.Linked) :
    after.Linked := by
  refine linked.of_fewer (fun found => ((change.bindings _ _ _ _).mp found).1) ?_
  intro kind elsewhere asked id found
  have old := linked.recorded ((change.bindings _ _ _ _).mp found).1
  cases kind with
  | file => exact (change.files id).mpr ⟨old, change.not_fileUnder linked found⟩
  | dir => exact (change.dirs id).mpr ⟨old, change.not_under linked found⟩

theorem Prunes.mem_before (change : Prunes before after place name top) {id : Int}
    (member : id ∈ after.ids kind) : id ∈ before.ids kind := by
  cases kind with
  | file => exact ((change.files id).mp member).1
  | dir => exact ((change.dirs id).mp member).1

theorem Prunes.intact (change : Prunes before after place name top) (intact : before.Intact) :
    after.Intact where
  toLinked := change.linked intact.toLinked
  bound {kind id} member := by
    obtain ⟨elsewhere, asked, found⟩ := intact.bound (change.mem_before member)
    refine ⟨elsewhere, asked, (change.bindings kind elsewhere asked id).mpr ⟨found, ?_, ?_⟩⟩
    · intro all
      rcases all with ⟨rfl, rfl, rfl⟩
      rw [change.found] at found
      cases found
      exact ((change.dirs _).mp member).2 Relation.ReflTransGen.refl
    · intro parent here under
      obtain rfl : elsewhere = some parent := here
      cases kind with
      | file => exact ((change.files id).mp member).2 ⟨parent, asked, under, found⟩
      | dir => exact ((change.dirs id).mp member).2 (under.tail ⟨asked, found⟩)
  issued {kind id} member := by
    rw [change.counter]
    exact intact.issued (change.mem_before member)

end Prunes

theorem Change.intact (change : Change before after) (intact : before.Intact) : after.Intact := by
  cases change with
  | keeps change => exact change.intact intact
  | binds change => exact change.intact intact
  | renames change => exact change.intact intact
  | unbinds change => exact change.intact intact
  | prunes change => exact change.intact intact

theorem Change.old_or_new (change : Change before after) {id : Int} (member : id ∈ after.ids kind) :
    id ∈ before.ids kind ∨ (∃ place name, Binds before after kind place name) ∧
      id = after.counter := by
  cases change with
  | keeps change => exact Or.inl (change.records kind ▸ member)
  | @binds other place name change =>
    rcases (change.records kind id).mp member with ⟨rfl, new⟩ | ⟨old, -⟩
    · exact Or.inr ⟨⟨place, name, change⟩, new⟩
    · exact Or.inl old
  | renames change => exact Or.inl (change.records kind ▸ member)
  | unbinds change => exact Or.inl ((change.records kind id).mp member).1
  | prunes change => exact Or.inl (change.mem_before member)

theorem Change.sound (change : Change before after) (sound : before.Sound) : after.Sound where
  toIntact := change.intact sound.toIntact
  positive {kind id} member := by
    rcases change.old_or_new member with old | ⟨⟨place, name, bound⟩, new⟩
    · exact sound.positive old
    · have next := bound.counter
      omega
  apart {id} isFile isDir := by
    rcases change.old_or_new isFile with oldFile | ⟨⟨place, name, bound⟩, new⟩
    · rcases change.old_or_new isDir with oldDir | ⟨⟨place, name, bound⟩, new⟩
      · exact sound.apart oldFile oldDir
      · exact sound.not_issued bound.counter .file (new ▸ oldFile)
    · rcases (bound.records .dir id).mp isDir with ⟨otherKind, -⟩ | ⟨oldDir, -⟩
      · cases otherKind
      · exact sound.not_issued bound.counter .dir (new ▸ oldDir)

end NameTree.Store
