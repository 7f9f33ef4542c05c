import NameTree.Operation.Create
import NameTree.Proofs.Checked

/-!
What arguments are like that have passed their checks.
-/

namespace NameTree

theorem Path.checkLength_eq_ok_iff {field text : String} {limit : Int} :
    Path.checkLength field limit text = .ok () ↔ (Path.byteLength text : Int) ≤ limit := by
  unfold Path.checkLength
  by_cases long : limit < Path.byteLength text
  · simp [long]
  · simp only [long, if_false, true_iff]
    omega

theorem Path.checkComponents_eq_ok_iff {limit : Int} {names : List String} :
    Path.checkComponents limit names = .ok () ↔
      ∀ name ∈ names, (Path.byteLength name : Int) ≤ limit := by
  induction names with
  | nil => simp [Path.checkComponents, pure, Except.pure]
  | cons name rest ih =>
    have tail : Path.checkComponents limit (name :: rest) =
        (Path.checkLength "path component" limit name >>=
          fun _ => Path.checkComponents limit rest) := rfl
    rw [tail, bind_eq_ok_iff, List.forall_mem_cons, ← ih]
    constructor
    · intro given
      rcases given with ⟨_, here, later⟩
      exact ⟨Path.checkLength_eq_ok_iff.mp here, later⟩
    · intro given
      rcases given with ⟨short, later⟩
      exact ⟨(), Path.checkLength_eq_ok_iff.mpr short, later⟩

theorem checkTag_eq_ok_iff {maxLen : Int} {value : Value} {tag : String} :
    checkTag maxLen value = .ok tag ↔ (Path.byteLength tag : Int) ≤ maxLen ∧ value = .text tag := by
  cases value with
  | text content =>
    simp only [checkTag, bind_eq_ok_iff, pure, Except.pure, Except.ok.injEq, Value.text.injEq]
    constructor
    · intro given
      rcases given with ⟨_, short, rfl⟩
      exact ⟨Path.checkLength_eq_ok_iff.mp short, rfl⟩
    · intro given
      rcases given with ⟨short, rfl⟩
      exact ⟨(), Path.checkLength_eq_ok_iff.mpr short, rfl⟩
  | _ => simp [checkTag]

structure Limits.AdmitsTags (limits : Limits) (tags : List String) : Prop where
  few : (tags.length : Int) ≤ limits.maxTags
  short : ∀ tag ∈ tags, (Path.byteLength tag : Int) ≤ limits.maxStringLen

theorem mapM_checkTag_eq_ok_iff {maxLen : Int} {values : List Value} {tags : List String} :
    values.mapM (checkTag maxLen) = .ok tags ↔
      values = tags.map .text ∧ ∀ tag ∈ tags, (Path.byteLength tag : Int) ≤ maxLen := by
  induction values generalizing tags with
  | nil => cases tags <;> simp [pure, Except.pure]
  | cons value rest ih =>
    simp only [List.mapM_cons, bind_eq_ok_iff, checkTag_eq_ok_iff, ih]
    constructor
    · rintro ⟨tag, ⟨short, rfl⟩, others, ⟨rfl, shortOthers⟩, same⟩
      cases same
      exact ⟨rfl, List.forall_mem_cons.mpr ⟨short, shortOthers⟩⟩
    · rintro ⟨same, short⟩
      obtain ⟨tag, others, rfl, rfl, rfl⟩ := List.map_eq_cons_iff.mp same.symm
      obtain ⟨shortTag, shortOthers⟩ := List.forall_mem_cons.mp short
      exact ⟨tag, ⟨shortTag, rfl⟩, others, ⟨rfl, shortOthers⟩, rfl⟩

theorem Limits.checkTags_eq_ok_iff {limits : Limits} {given : Tags} {tags : List String} :
    limits.checkTags given = .ok tags ↔ given = .items (tags.map .text) ∧
      limits.AdmitsTags tags := by
  cases given with
  | bare content => simp [Limits.checkTags, NameTree.checkTags]
  | items values =>
    have unfolded : limits.checkTags (.items values) = if limits.maxTags < values.length then
        .error (.tooManyTags values.length limits.maxTags)
        else values.mapM (checkTag limits.maxStringLen) := rfl
    rw [unfolded, Tags.items.injEq]
    by_cases many : limits.maxTags < values.length
    · rw [if_pos many]
      refine iff_of_false (by simp) ?_
      rintro ⟨rfl, few, -⟩
      rw [List.length_map] at many
      omega
    · rw [if_neg many, mapM_checkTag_eq_ok_iff]
      refine and_congr_right fun same => ⟨fun short => ⟨?_, short⟩, fun admits => admits.short⟩
      rw [same, List.length_map] at many
      omega

theorem Limits.admitsTags_of_checkTags {limits : Limits} {given : Tags} {tags : List String}
    (checked : limits.checkTags given = .ok tags) : limits.AdmitsTags tags :=
  (checkTags_eq_ok_iff.mp checked).2

def IsWord (number : Int) : Prop := 0 ≤ number ∧ number ≤ maxWord

theorem isWord_zero : IsWord 0 := by
  unfold IsWord maxWord
  omega

example : maxWord = 2 ^ 64 - 1 := by decide

theorem checkWord_eq_ok_iff {field : String} {value : Value} {number : Int} :
    checkWord field value = .ok number ↔ value = .int number ∧ IsWord number := by
  cases value with
  | int given =>
    unfold checkWord IsWord
    simp only
    by_cases outside : given < 0 ∨ maxWord < given
    · rw [if_pos outside]
      refine iff_of_false (by simp) ?_
      intro both
      rcases both with ⟨same, within⟩
      cases same
      omega
    · rw [if_neg outside]
      simp
      omega
  | _ => simp [checkWord]

/-- What the checks of the arguments let into a record. -/
structure Limits.AdmitsFile (limits : Limits) (record : FileRecord) : Prop where
  tags : limits.AdmitsTags record.tags
  contentRef : (Path.byteLength record.contentRef : Int) ≤ limits.maxStringLen
  size : IsWord record.size
  expiry : IsWord record.expiry

theorem Limits.admitsFile_of_check {limits : Limits} {spec : FileSpec} {draft : FileDraft}
    (checked : spec.check limits = .ok draft) (now : Int) :
    limits.AdmitsFile (draft.stamp now) := by
  simp only [FileSpec.check, bind_eq_ok_iff] at checked
  obtain ⟨tags, tagged, _, short, size, sized, expiry, expires, same⟩ := checked
  cases same
  exact ⟨admitsTags_of_checkTags tagged, Path.checkLength_eq_ok_iff.mp short,
    (checkWord_eq_ok_iff.mp sized).2, (checkWord_eq_ok_iff.mp expires).2⟩

theorem FileSpec.eq_of_check {spec : FileSpec} {limits : Limits} {draft : FileDraft}
    (checked : spec.check limits = .ok draft) :
    spec.tags = .items (draft.tags.map .text) ∧ spec.size = .int draft.size ∧
      spec.contentRef = draft.contentRef ∧ spec.expiry = .int draft.expiry := by
  simp only [check, bind_eq_ok_iff] at checked
  obtain ⟨tags, tagged, _, -, size, sized, expiry, expires, same⟩ := checked
  cases same
  exact ⟨(Limits.checkTags_eq_ok_iff.mp tagged).1, (checkWord_eq_ok_iff.mp sized).1, rfl,
    (checkWord_eq_ok_iff.mp expires).1⟩

end NameTree
