import Mathlib.Tactic

set_option autoImplicit false

/-! # Nested blocks and counters

A text of lines with blocks in them, to any depth, read by a program that only counts: each line has
a weight, and the program takes the whole for closed where the sum of the weights is 0 for the first
time. It is right if the text is `Balanced`. That is so if the weights of the two ends of every block
cancel out (`balanced_of_nested`). If it is not, there is a line at which the sum leaves the positive
numbers too early (`exists_first`), or the sum is not 0 at the end.
-/

namespace Nesting

variable {α : Type}

/-- Plain lines and blocks, where `block` says which line can close a block that another one opens. -/
inductive Nested (plain : α → Prop) (block : α → α → Prop) : List α → Prop
  | nil : Nested plain block []
  | line {a : α} {as : List α} :
      plain a → Nested plain block as → Nested plain block (a :: as)
  | block {o c : α} {body as : List α} :
      block o c → Nested plain block body → Nested plain block as →
        Nested plain block (o :: (body ++ c :: as))

/-- The sum of the weights. -/
def depth (weight : α → Int) (as : List α) : Int := (as.map weight).sum

/-- The sum is 0 at the end, and positive before. -/
structure Balanced (weight : α → Int) (as : List α) : Prop where
  positive : ∀ pre post, as = pre ++ post → pre ≠ [] → post ≠ [] → 0 < depth weight pre
  zero : depth weight as = 0

section Depth

variable {weight : α → Int} {as bs : List α} {a : α}

@[simp] theorem depth_nil : depth weight [] = 0 := rfl

@[simp] theorem depth_cons : depth weight (a :: as) = weight a + depth weight as := by
  simp [depth]

@[simp] theorem depth_append : depth weight (as ++ bs) = depth weight as + depth weight bs := by
  simp [depth]

theorem depth_concat : depth weight (as ++ [a]) = depth weight as + weight a := by
  rw [depth_append, depth_cons, depth_nil, Int.add_zero]

/-- Only the weights of the lines that are there count. -/
theorem balanced_congr {weight' : α → Int} (h : ∀ a ∈ as, weight a = weight' a) :
    Balanced weight as ↔ Balanced weight' as := by
  have hdepth : ∀ pre post, as = pre ++ post → depth weight pre = depth weight' pre := by
    rintro pre post rfl
    exact congrArg List.sum (List.map_congr_left fun a ha => h a (List.mem_append_left post ha))
  have hall := hdepth as [] (List.append_nil as).symm
  constructor
  · intro hbal
    refine ⟨fun pre post hsplit hpre hpost => ?_, hall ▸ hbal.zero⟩
    rw [← hdepth pre post hsplit]
    exact hbal.positive pre post hsplit hpre hpost
  · intro hbal
    refine ⟨fun pre post hsplit hpre hpost => ?_, hall ▸ hbal.zero⟩
    rw [hdepth pre post hsplit]
    exact hbal.positive pre post hsplit hpre hpost

end Depth

section Nested

variable {plain : α → Prop} {block : α → α → Prop} {weight : α → Int} {as body : List α} {o c : α}

/-- Where the two ends of a block cancel out, a nested text has depth 0 and is nowhere below it. -/
theorem Nested.depth_nonneg (h : Nested plain block as) (hplain : ∀ a, plain a → weight a = 0)
    (hblock : ∀ o c, block o c → 0 ≤ weight o ∧ weight o + weight c = 0) :
    depth weight as = 0 ∧ ∀ pre post, as = pre ++ post → 0 ≤ depth weight pre := by
  induction h with
  | nil =>
      refine ⟨rfl, fun pre post hsplit => ?_⟩
      rw [(List.append_eq_nil_iff.mp hsplit.symm).1]
      exact le_rfl
  | @line a as ha _ ih =>
      have hweight := hplain a ha
      refine ⟨by rw [depth_cons, hweight, ih.1]; rfl, fun pre post hsplit => ?_⟩
      rcases List.cons_eq_append_iff.mp hsplit with ⟨rfl, -⟩ | ⟨pre, rfl, hrest⟩
      · exact le_rfl
      · have hpre := ih.2 pre post hrest
        rw [depth_cons, hweight]
        omega
  | @block o c body as hoc _ _ ihbody ihas =>
      obtain ⟨ho, hsum⟩ := hblock o c hoc
      have hbody := ihbody.1
      refine ⟨by rw [depth_cons, depth_append, depth_cons, hbody, ihas.1]; omega, ?_⟩
      intro pre post hsplit
      rcases List.cons_eq_append_iff.mp hsplit with ⟨rfl, -⟩ | ⟨pre, rfl, hrest⟩
      · exact le_rfl
      -- the part ends in the body, at its end, or after the block
      rw [depth_cons]
      rcases List.append_eq_append_iff.mp hrest with ⟨more, rfl, hmore⟩ | ⟨more, rfl, -⟩
      · rw [depth_append, hbody]
        rcases List.cons_eq_append_iff.mp hmore with ⟨rfl, -⟩ | ⟨after, rfl, hafter⟩
        · rw [depth_nil]
          omega
        · have hpre := ihas.2 after post hafter
          rw [depth_cons]
          omega
      · have hpre := ihbody.2 pre more rfl
        omega

/-- **A nested text in a block is balanced**, if the two ends of every block cancel out. -/
theorem balanced_of_nested (h : Nested plain block body) (hplain : ∀ a, plain a → weight a = 0)
    (hblock : ∀ o c, block o c → 0 ≤ weight o ∧ weight o + weight c = 0)
    (ho : weight o = 1) (hc : weight c = -1) : Balanced weight (o :: (body ++ [c])) := by
  obtain ⟨hbody, hnonneg⟩ := h.depth_nonneg hplain hblock
  refine ⟨fun pre post hsplit hpre hpost => ?_, ?_⟩
  · rcases List.cons_eq_append_iff.mp hsplit with ⟨rfl, -⟩ | ⟨pre, rfl, hrest⟩
    · exact absurd rfl hpre
    rw [depth_cons, ho]
    rcases List.append_eq_append_iff.mp hrest with ⟨more, rfl, hmore⟩ | ⟨more, rfl, -⟩
    · obtain rfl : more = [] := by
        rcases List.cons_eq_append_iff.mp hmore with ⟨hnil, -⟩ | ⟨after, -, hafter⟩
        · exact hnil
        · exact absurd (List.append_eq_nil_iff.mp hafter.symm).2 hpost
      rw [List.append_nil, hbody]
      decide
    · have := hnonneg pre more rfl
      omega
  · rw [depth_cons, depth_append, depth_cons, depth_nil, hbody, ho, hc]
    rfl

end Nested

/-- The first line at which the sum is not positive any more. -/
theorem exists_first {weight : α → Int} {as : List α} (hne : as ≠ []) (hle : depth weight as ≤ 0) :
    ∃ before a after, as = before ++ a :: after ∧ depth weight (before ++ [a]) ≤ 0
      ∧ ∀ p q, before = p ++ q → p ≠ [] → 0 < depth weight p := by
  induction hn : as.length using Nat.strongRecOn generalizing as with
  | _ n ih =>
      obtain ⟨before, a, rfl⟩ := (List.eq_nil_or_concat' as).resolve_left hne
      by_cases hall : ∀ p q, before = p ++ q → p ≠ [] → 0 < depth weight p
      · exact ⟨before, a, [], rfl, hle, hall⟩
      · -- the sum is not positive after a shorter part, where the first such line is
        simp only [not_forall, not_lt] at hall
        obtain ⟨p, q, rfl, hp, hdepth⟩ := hall
        obtain ⟨before, b, after, rfl, hfirst⟩ := ih p.length (by simp [← hn]) hp hdepth rfl
        exact ⟨before, b, after ++ q ++ [a], by simp, hfirst⟩

end Nesting
