import Mathlib.Tactic

set_option autoImplicit false

/-! # Traces of lock operations

A component records every lock operation it makes. `exec held ops` replays such a trace from the
locks that are held at its start, and fails at the first operation that breaks the discipline:
an acquire of a lock that is held, or a release of one that is not.
-/

namespace LockTrace

variable {L : Type*}

inductive LockOp (L : Type*) where
  | acquire (l : L)
  | release (l : L)
  deriving DecidableEq

section Exec

variable [DecidableEq L]

/-- The locks held after one operation. -/
def LockOp.exec (held : List L) : LockOp L → Option (List L)
  | .acquire l => if l ∈ held then none else some (l :: held)
  | .release l => if l ∈ held then some (held.erase l) else none

/-- The locks held after a trace, the last acquired first; `none` if the discipline is broken. -/
def exec (held : List L) : List (LockOp L) → Option (List L)
  | [] => some held
  | op :: ops => (op.exec held).bind fun held => exec held ops

theorem exec_append (held : List L) (ops ops' : List (LockOp L)) :
    exec held (ops ++ ops') = (exec held ops).bind fun held => exec held ops' := by
  induction ops generalizing held with
  | nil => rfl
  | cons op ops ih =>
      show (op.exec held).bind (fun held => exec held (ops ++ ops')) = _
      cases hop : op.exec held with
      | none => simp [exec, hop]
      | some held' => simp [exec, hop, ih]

/-- The trace keeps the discipline, and these locks are held after it. -/
def Holds (ops : List (LockOp L)) (held : List L) : Prop := exec [] ops = some held

variable {ops : List (LockOp L)} {held : List L} {l : L}

theorem Holds.append_one (h : Holds ops held) (op : LockOp L) :
    exec [] (ops ++ [op]) = op.exec held := by
  rw [exec_append, show exec [] ops = some held from h]
  show (op.exec held).bind (fun held => some held) = _
  exact Option.bind_fun_some _

theorem Holds.acquire (h : Holds ops held) (hl : l ∉ held) :
    Holds (ops ++ [.acquire l]) (l :: held) :=
  (h.append_one _).trans (if_neg hl)

theorem Holds.release (h : Holds ops (l :: held)) : Holds (ops ++ [.release l]) held := by
  refine (h.append_one _).trans ((if_pos List.mem_cons_self).trans ?_)
  rw [List.erase_cons_head]

/-- A release of a lock that is not held. -/
theorem Holds.release_free (h : Holds ops held) (hl : l ∉ held) :
    exec [] (ops ++ [.release l]) = none :=
  (h.append_one _).trans (if_neg hl)

end Exec

end LockTrace
