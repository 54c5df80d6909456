namespace Oil.Data

/-! # Scans that stop at the first failure

A scan tests one item after the other and stops as soon as a test fails.  `scan` is its
verdict, and `scanned` are the items it tests.  A test may have no result. -/

variable {α : Type} {test : α → Option Bool} {x : α} {xs ys : List α}

def scan (test : α → Option Bool) : List α → Option Bool
  | [] => some true
  | x :: xs => do
      let passed ← test x
      if passed then scan test xs else some false

def scanned (test : α → Option Bool) : List α → List α
  | [] => []
  | x :: xs => x :: if test x = some true then scanned test xs else []

theorem scan_append (xs ys : List α) :
    scan test (xs ++ ys) = (scan test xs).bind fun passed => if passed then scan test ys else some false := by
  induction xs with
  | nil => rfl
  | cons x xs ih =>
      rw [List.cons_append, scan, scan, ih]
      cases test x with
      | none => rfl
      | some passed => cases passed <;> rfl

theorem scan_eq_true_iff : scan test xs = some true ↔ ∀ x ∈ xs, test x = some true := by
  induction xs with
  | nil => simp [scan]
  | cons x xs ih =>
      rw [scan, List.forall_mem_cons, ← ih]
      cases test x with
      | none => simp
      | some passed => cases passed <;> simp

theorem scanned_append (xs ys : List α) :
    scanned test (xs ++ ys) = scanned test xs ++ if scan test xs = some true then scanned test ys else [] := by
  induction xs with
  | nil => rfl
  | cons x xs ih =>
      rw [List.cons_append, scanned, scanned, scan, ih]
      cases test x with
      | none => simp
      | some passed => cases passed <;> simp

theorem mem_of_mem_scanned (tested : x ∈ scanned test xs) : x ∈ xs := by
  induction xs with
  | nil => exact tested
  | cons y xs ih =>
      rw [scanned] at tested
      split at tested
      · rcases List.mem_cons.mp tested with rfl | later
        · exact .head _
        · exact .tail _ (ih later)
      · exact List.mem_singleton.mp tested ▸ .head _

theorem scanned_of_scan (passes : scan test xs = some true) : scanned test xs = xs := by
  induction xs with
  | nil => rfl
  | cons x xs ih =>
      have every := scan_eq_true_iff.mp passes
      rw [scanned, if_pos (every x (.head _)),
        ih (scan_eq_true_iff.mpr fun y member => every y (.tail _ member))]

end Oil.Data
