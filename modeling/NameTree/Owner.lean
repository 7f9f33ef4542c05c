import NameTree.Fault

/-!
Ownership: only the owner may change a namespace, and everybody may when it has none.
-/

namespace NameTree

def checkCaller (owner caller : Option String) : Except Fault Unit :=
  match owner with
  | none => .ok ()
  | some _ => if caller = owner then .ok () else .error (.unauthorized caller)

theorem checkCaller_eq_ok_iff {owner caller : Option String} :
    checkCaller owner caller = .ok () ↔ owner = none ∨ caller = owner := by
  cases owner with
  | none => simp [checkCaller]
  | some name => simp [checkCaller]

end NameTree
