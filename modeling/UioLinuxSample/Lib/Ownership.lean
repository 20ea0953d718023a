import Mathlib.Data.Finset.Basic
import Mathlib.Data.List.Pairwise
import Mathlib.Tactic

set_option autoImplicit false

/-! # Traces of acquisitions and releases

A program records what it acquires and what it gives back. An object may need others: it is acquired
when they are there, and they are given back only after it. `exec` replays a trace and fails at the
first step that breaks one of these rules; it also fails when an object is acquired twice, or given
back without having been acquired.
-/

namespace Ownership

variable {α : Type*} [DecidableEq α]

inductive Op (α : Type*) where
  | acquire (a : α)
  | release (a : α)
  deriving DecidableEq

/-- What is owned after one step. -/
def Op.exec (needs : α → Finset α) (owned : Finset α) : Op α → Option (Finset α)
  | .acquire a => if a ∉ owned ∧ needs a ⊆ owned then some (insert a owned) else none
  | .release a => if a ∈ owned ∧ ∀ b ∈ owned, a ∉ needs b then some (owned.erase a) else none

/-- What is owned after a trace. -/
def exec (needs : α → Finset α) (owned : Finset α) : List (Op α) → Option (Finset α)
  | [] => some owned
  | op :: ops => (op.exec needs owned).bind fun owned => exec needs owned ops

section Exec

variable {needs : α → Finset α} {owned owned' : Finset α} {ops : List (Op α)} {a : α} {l : List α}

theorem exec_append {ops' : List (Op α)} (h : exec needs owned ops = some owned') :
    exec needs owned (ops ++ ops') = exec needs owned' ops' := by
  induction ops generalizing owned with
  | nil =>
      obtain rfl := Option.some.inj h
      rfl
  | cons op ops ih =>
      obtain ⟨owned'', hop, hrest⟩ := Option.bind_eq_some_iff.mp h
      show (op.exec needs owned).bind (fun owned => exec needs owned (ops ++ ops')) = _
      rw [hop]
      exact ih hrest

theorem exec_acquire (h : exec needs owned ops = some owned') (hnew : a ∉ owned')
    (hneeds : needs a ⊆ owned') :
    exec needs owned (ops ++ [.acquire a]) = some (insert a owned') := by
  have hop : (Op.acquire a).exec needs owned' = some (insert a owned') := if_pos ⟨hnew, hneeds⟩
  rw [exec_append h, exec, hop]
  rfl

theorem exec_release (h : exec needs owned ops = some owned') (hmem : a ∈ owned')
    (hfree : ∀ b ∈ owned', a ∉ needs b) :
    exec needs owned (ops ++ [.release a]) = some (owned'.erase a) := by
  have hop : (Op.release a).exec needs owned' = some (owned'.erase a) := if_pos ⟨hmem, hfree⟩
  rw [exec_append h, exec, hop]
  rfl

/-- **Giving back.** Objects can be given back in this order if each is needed, at most, by earlier
ones. -/
theorem exec_release_list (hmem : ∀ a ∈ l, a ∈ owned) (hnodup : l.Nodup)
    (horder : l.Pairwise fun a b => a ∉ needs b)
    (hfree : ∀ a ∈ l, ∀ b ∈ owned, a ∈ needs b → b ∈ l ∧ b ≠ a) :
    exec needs owned (l.map .release) = some (owned \ l.toFinset) := by
  induction l generalizing owned with
  | nil => simp [exec]
  | cons a l ih =>
      obtain ⟨hnot, hnodup⟩ := List.nodup_cons.mp hnodup
      obtain ⟨hlater, horder⟩ := List.pairwise_cons.mp horder
      have hop : (Op.release a).exec needs owned = some (owned.erase a) := by
        refine if_pos ⟨hmem a List.mem_cons_self, fun b hb hneed => ?_⟩
        obtain ⟨hbl, hne⟩ := hfree a List.mem_cons_self b hb hneed
        exact hlater b ((List.mem_cons.mp hbl).resolve_left hne) hneed
      have hmem' : ∀ b ∈ l, b ∈ owned.erase a := by
        intro b hb
        have hne : b ≠ a := fun h => hnot (h ▸ hb)
        exact Finset.mem_erase.mpr ⟨hne, hmem b (List.mem_cons_of_mem a hb)⟩
      have hfree' : ∀ b ∈ l, ∀ c ∈ owned.erase a, b ∈ needs c → c ∈ l ∧ c ≠ b := by
        intro b hb c hc hneed
        obtain ⟨hca, hc⟩ := Finset.mem_erase.mp hc
        obtain ⟨hcl, hne⟩ := hfree b (List.mem_cons_of_mem a hb) c hc hneed
        exact ⟨(List.mem_cons.mp hcl).resolve_left hca, hne⟩
      have hrest : owned \ (a :: l).toFinset = owned.erase a \ l.toFinset := by
        rw [List.toFinset_cons, Finset.sdiff_insert, Finset.erase_sdiff_comm]
      show ((Op.release a).exec needs owned).bind _ = _
      rw [hop, hrest]
      exact ih hmem' hnodup horder hfree'

end Exec

end Ownership
