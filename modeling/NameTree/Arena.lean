import NameTree.Capacity

/-!
The records of one kind, by id. An id that is looked up on the word of an index must have a record
here; `require` fails with a mismatch when it has none.
-/

namespace NameTree

structure Arena (kind : String) (ρ : Type) where
  capacity : Option Int
  records : OrderedMap Int ρ
  deriving DecidableEq

namespace Arena

variable {kind : String} {ρ : Type}

def empty (capacity : Option Int) : Arena kind ρ := ⟨capacity, .empty⟩

def get? (arena : Arena kind ρ) (id : Int) : Option ρ := arena.records.get? id

def contains (arena : Arena kind ρ) (id : Int) : Bool := arena.records.contains id

def ids (arena : Arena kind ρ) : List Int := arena.records.keys

def toList (arena : Arena kind ρ) : List (Int × ρ) := arena.records.toList

def size (arena : Arena kind ρ) : Nat := arena.records.size

def require (arena : Arena kind ρ) (id : Int) : Except Fault ρ :=
  match arena.get? id with
  | none => .error (.mismatch id kind)
  | some record => .ok record

def insert (arena : Arena kind ρ) (id : Int) (record : ρ) : Except Fault (Arena kind ρ) :=
  match arena.records.insertWithin (kind ++ " arena") arena.capacity id record with
  | .error fault => .error fault
  | .ok records => .ok { arena with records }

def erase (arena : Arena kind ρ) (id : Int) : Arena kind ρ :=
  { arena with records := arena.records.erase id }

def remove (arena : Arena kind ρ) (id : Int) : Except Fault (Arena kind ρ) :=
  match arena.get? id with
  | none => .error (.mismatch id kind)
  | some _ => .ok (arena.erase id)

/-- Removes records in order, up to the first that is missing. -/
def drop (arena : Arena kind ρ) : List Int → Except Fault Unit × Arena kind ρ
  | [] => (.ok (), arena)
  | id :: rest =>
    match arena.remove id with
    | .error fault => (.error fault, arena)
    | .ok left => left.drop rest

def modify (arena : Arena kind ρ) (id : Int) (change : ρ → ρ) : Arena kind ρ :=
  { arena with records := arena.records.modify id change }

theorem mem_ids_iff {arena : Arena kind ρ} {id : Int} :
    id ∈ arena.ids ↔ ∃ record, arena.get? id = some record :=
  OrderedMap.mem_keys_iff

theorem contains_iff {arena : Arena kind ρ} {id : Int} : arena.contains id = true ↔
    id ∈ arena.ids :=
  OrderedMap.contains_iff

theorem require_eq_ok_iff {arena : Arena kind ρ} {id : Int} {record : ρ} :
    arena.require id = .ok record ↔ arena.get? id = some record := by
  cases found : arena.get? id <;> simp [require, found]

theorem require_eq_error_iff {arena : Arena kind ρ} {id : Int} {fault : Fault} :
    arena.require id = .error fault ↔ arena.get? id = none ∧ fault = .mismatch id kind := by
  cases found : arena.get? id <;> simp [require, found, eq_comm]

theorem eq_of_insert {arena after : Arena kind ρ} {id : Int} {record : ρ}
    (done : arena.insert id record = .ok after) :
    after = { arena with records := arena.records.insert id record } := by
  unfold insert at done
  split at done
  · cases done
  · rename_i records inserted
    cases done
    rw [OrderedMap.eq_insert_of_insertWithin inserted]

theorem get?_of_insert {arena after : Arena kind ρ} {id : Int} {record : ρ}
    (done : arena.insert id record = .ok after) (other : Int) :
    after.get? other = if other = id then some record else arena.get? other := by
  rw [eq_of_insert done]
  exact OrderedMap.get?_insert arena.records id other record

theorem size_of_insert {arena after : Arena kind ρ} {id : Int} {record : ρ}
    (done : arena.insert id record = .ok after)
    (within : ∀ limit ∈ arena.capacity, (arena.size : Int) ≤ limit) :
    ∀ limit ∈ arena.capacity, (after.size : Int) ≤ limit := by
  unfold insert at done
  split at done
  · cases done
  · rename_i records inserted
    cases done
    exact OrderedMap.size_of_insertWithin inserted within

theorem get?_erase (arena : Arena kind ρ) (id other : Int) :
    (arena.erase id).get? other = if other = id then none else arena.get? other :=
  OrderedMap.get?_erase arena.records id other

theorem get?_modify (arena : Arena kind ρ) (id other : Int) (change : ρ → ρ) :
    (arena.modify id change).get? other =
      if other = id then (arena.get? id).map change else arena.get? other :=
  OrderedMap.get?_modify arena.records id other change

theorem ids_modify (arena : Arena kind ρ) (id : Int) (change : ρ → ρ) :
    (arena.modify id change).ids = arena.ids :=
  OrderedMap.keys_modify arena.records id change

theorem mem_ids_of_insert {arena after : Arena kind ρ} {id : Int} {record : ρ}
    (done : arena.insert id record = .ok after) {other : Int} :
    other ∈ after.ids ↔ other = id ∨ other ∈ arena.ids := by
  simp only [mem_ids_iff, get?_of_insert done]
  by_cases same : other = id <;> simp [same]

theorem mem_ids_erase {arena : Arena kind ρ} {id other : Int} :
    other ∈ (arena.erase id).ids ↔ other ∈ arena.ids ∧ other ≠ id := by
  simp only [mem_ids_iff, get?_erase]
  by_cases same : other = id <;> simp [same]

theorem remove_of_mem {arena : Arena kind ρ} {id : Int} (member : id ∈ arena.ids) :
    arena.remove id = .ok (arena.erase id) := by
  obtain ⟨record, found⟩ := mem_ids_iff.mp member
  simp only [remove, found]

theorem remove_of_notMem {arena : Arena kind ρ} {id : Int} (absent : id ∉ arena.ids) :
    arena.remove id = .error (.mismatch id kind) := by
  have missing : arena.get? id = none := OrderedMap.get?_eq_none_iff.mpr absent
  simp only [remove, missing]

theorem remove_eq_ok_iff {arena after : Arena kind ρ} {id : Int} :
    arena.remove id = .ok after ↔ id ∈ arena.ids ∧ after = arena.erase id := by
  by_cases member : id ∈ arena.ids
  · simp [remove_of_mem member, member, eq_comm]
  · simp [remove_of_notMem member, member]

theorem size_erase_lt {arena : Arena kind ρ} {id : Int} {record : ρ}
    (present : arena.get? id = some record) : (arena.erase id).size < arena.size :=
  OrderedMap.size_erase_lt (OrderedMap.mem_keys_of_get? present)

end Arena
end NameTree
