import Mathlib.Tactic

set_option autoImplicit false

/-! # Linear patterns

A pattern without alternatives is a list of items. An item takes one symbol of a class, or any
number of them. The matcher of a scripting language takes as many as it can and gives them back one
by one when the rest does not match; a search takes the first position where there is a match. The
result is the piece of the text that each item has taken. Some items belong to a group, whose text
is what its items have taken.

A match found is one: the pieces stand one after the other in the text (`search_sound`). For the
other direction, an item that takes all it can is right if the rest then matches (`starThen_greedy`),
which is enough for texts whose parts are told apart by their first symbol.
-/

namespace Pattern

inductive Kind where
  | one
  | star
  deriving DecidableEq

/-- An item, with the symbols it accepts and the group it is in, 0 for none. -/
structure Item (α : Type) where
  kind : Kind
  accepts : α → Bool
  group : Nat

variable {α : Type}

/-- One symbol out of a class. -/
def one (accepts : α → Bool) (group : Nat) : Item α := ⟨.one, accepts, group⟩

/-- Any number of symbols out of a class. -/
def star (accepts : α → Bool) (group : Nat) : Item α := ⟨.star, accepts, group⟩

/-- At least one symbol out of a class. -/
def plus (accepts : α → Bool) (group : Nat) : List (Item α) :=
  [one accepts group, star accepts group]

/-- A fixed text. -/
def literal [DecidableEq α] (text : List α) : List (Item α) :=
  text.map fun a => one (fun b => b = a) 0

/-! ## The matcher -/

/-- As many symbols as possible, such that `rest` matches what is left. -/
def starThen (accepts : α → Bool) (rest : List α → Option (List (List α))) :
    List α → Option (List (List α))
  | [] => (rest []).map ([] :: ·)
  | a :: as =>
      if accepts a then
        ((starThen accepts rest as).map (List.modifyHead (a :: ·))).or
          ((rest (a :: as)).map ([] :: ·))
      else (rest (a :: as)).map ([] :: ·)

/-- One symbol, such that `rest` matches what is left. -/
def oneThen (accepts : α → Bool) (rest : List α → Option (List (List α))) :
    List α → Option (List (List α))
  | [] => none
  | a :: as => if accepts a then (rest as).map ([a] :: ·) else none

/-- A match at the start of a text: the piece for each item. -/
def matchAt : List (Item α) → List α → Option (List (List α))
  | [] => fun _ => some []
  | i :: is =>
      match i.kind with
      | .one => oneThen i.accepts (matchAt is)
      | .star => starThen i.accepts (matchAt is)

/-- The match at the first position that has one. -/
def search (is : List (Item α)) : List α → Option (List (List α))
  | [] => matchAt is []
  | a :: as => (matchAt is (a :: as)).or (search is as)

/-- The text of a group. -/
def groupText (is : List (Item α)) (pieces : List (List α)) (g : Nat) : List α :=
  ((is.zip pieces).filter fun x => x.1.group = g).flatMap Prod.snd

/-- The text with `new` for each match, from left to right; `skip` is what is left of a match. The
pattern is one that takes at least one symbol. -/
def substitute (is : List (Item α)) (new : List α) : Nat → List α → List α
  | _, [] => []
  | skip + 1, _ :: as => substitute is new skip as
  | 0, a :: as =>
      match matchAt is (a :: as) with
      | some pieces => new ++ substitute is new (pieces.flatten.length - 1) as
      | none => a :: substitute is new 0 as

/-! ## Matches are matches -/

/-- The piece is one that the item can take. -/
def Item.Takes (i : Item α) (piece : List α) : Prop :=
  match i.kind with
  | .one => ∃ a, piece = [a] ∧ i.accepts a = true
  | .star => ∀ a ∈ piece, i.accepts a = true

theorem Item.Takes.accepts {i : Item α} {piece : List α} {a : α} (h : i.Takes piece)
    (ha : a ∈ piece) : i.accepts a = true := by
  unfold Item.Takes at h
  cases hkind : i.kind with
  | one =>
      rw [hkind] at h
      obtain ⟨b, rfl, hb⟩ := h
      rwa [List.mem_singleton.mp ha]
  | star =>
      rw [hkind] at h
      exact h a ha

/-- The pieces are taken by the items of the pattern. -/
def Fits (is : List (Item α)) (pieces : List (List α)) : Prop := List.Forall₂ Item.Takes is pieces

section Sound

variable {accepts : α → Bool} {rest : List α → Option (List (List α))} {s : List α}
  {is : List (Item α)} {pieces : List (List α)}

theorem starThen_sound (h : starThen accepts rest s = some pieces) :
    ∃ piece more s', pieces = piece :: more ∧ s = piece ++ s'
      ∧ (∀ a ∈ piece, accepts a = true) ∧ rest s' = some more := by
  -- wherever the item stops, it has taken what is behind, and nothing more
  have hstop : ∀ pieces s, (rest s).map ([] :: ·) = some pieces →
      ∃ piece more s', pieces = piece :: more ∧ s = piece ++ s'
        ∧ (∀ a ∈ piece, accepts a = true) ∧ rest s' = some more := by
    intro pieces s hs
    obtain ⟨more, hmore, rfl⟩ := Option.map_eq_some_iff.mp hs
    exact ⟨[], more, s, rfl, rfl, by simp, hmore⟩
  induction s generalizing pieces with
  | nil => exact hstop _ _ h
  | cons a as ih =>
      rw [starThen] at h
      split at h
      · rename_i ha
        rcases Option.or_eq_some_iff.mp h with h | ⟨-, h⟩
        · obtain ⟨longer, hlonger, rfl⟩ := Option.map_eq_some_iff.mp h
          obtain ⟨piece, more, s', rfl, rfl, hall, hmore⟩ := ih hlonger
          exact ⟨a :: piece, more, s', rfl, rfl, List.forall_mem_cons.mpr ⟨ha, hall⟩, hmore⟩
        · exact hstop _ _ h
      · exact hstop _ _ h

theorem matchAt_sound (h : matchAt is s = some pieces) :
    Fits is pieces ∧ ∃ post, s = pieces.flatten ++ post := by
  induction is generalizing s pieces with
  | nil =>
      cases h
      exact ⟨.nil, s, rfl⟩
  | cons i is ih =>
      unfold matchAt at h
      cases hkind : i.kind with
      | one =>
          rw [hkind] at h
          cases s with
          | nil => cases h
          | cons a as =>
              dsimp only [oneThen] at h
              split at h
              · rename_i ha
                obtain ⟨more, hmore, rfl⟩ := Option.map_eq_some_iff.mp h
                obtain ⟨hfits, post, rfl⟩ := ih hmore
                refine ⟨.cons ?_ hfits, post, rfl⟩
                unfold Item.Takes
                rw [hkind]
                exact ⟨a, rfl, ha⟩
              · cases h
      | star =>
          rw [hkind] at h
          obtain ⟨piece, more, s', rfl, rfl, hall, hmore⟩ := starThen_sound h
          obtain ⟨hfits, post, rfl⟩ := ih hmore
          refine ⟨.cons ?_ hfits, post, by simp⟩
          unfold Item.Takes
          rw [hkind]
          exact hall

/-- **What is found is in the text.** -/
theorem search_sound (h : search is s = some pieces) :
    Fits is pieces ∧ ∃ pre post, s = pre ++ pieces.flatten ++ post := by
  induction s with
  | nil =>
      obtain ⟨hfits, post, hpost⟩ := matchAt_sound h
      exact ⟨hfits, [], post, hpost⟩
  | cons a as ih =>
      -- here, or else further on
      rcases Option.or_eq_some_iff.mp h with h | ⟨-, h⟩
      · obtain ⟨hfits, post, hpost⟩ := matchAt_sound h
        exact ⟨hfits, [], post, hpost⟩
      · obtain ⟨hfits, pre, post, rfl⟩ := ih h
        exact ⟨hfits, a :: pre, post, rfl⟩

theorem fits_one {g : Nat} :
    Fits (one accepts g :: is) pieces
      ↔ ∃ a more, pieces = [a] :: more ∧ accepts a = true ∧ Fits is more := by
  constructor
  · rintro (_ | ⟨⟨a, rfl, ha⟩, hmore⟩)
    exact ⟨a, _, rfl, ha, hmore⟩
  · rintro ⟨a, more, rfl, ha, hmore⟩
    exact .cons ⟨a, rfl, ha⟩ hmore

theorem fits_star {g : Nat} :
    Fits (star accepts g :: is) pieces
      ↔ ∃ piece more, pieces = piece :: more ∧ (∀ a ∈ piece, accepts a = true) ∧ Fits is more := by
  constructor
  · rintro (_ | ⟨hpiece, hmore⟩)
    exact ⟨_, _, rfl, hpiece, hmore⟩
  · rintro ⟨piece, more, rfl, hpiece, hmore⟩
    exact .cons hpiece hmore

theorem fits_nil : Fits [] pieces ↔ pieces = [] := List.forall₂_nil_left_iff

theorem fits_literal [DecidableEq α] (text : List α) :
    Fits (literal text ++ is) pieces
      ↔ ∃ more, pieces = text.map (fun a => [a]) ++ more ∧ Fits is more := by
  induction text generalizing pieces with
  | nil => simp [literal]
  | cons a text ih =>
      rw [show literal (a :: text) ++ is = one (fun b => b = a) 0 :: (literal text ++ is) from rfl,
        fits_one]
      constructor
      · rintro ⟨b, more, rfl, hb, hmore⟩
        obtain ⟨more, rfl, hfits⟩ := ih.mp hmore
        exact ⟨more, by simp [of_decide_eq_true hb], hfits⟩
      · rintro ⟨more, rfl, hfits⟩
        exact ⟨a, _, rfl, by simp, ih.mpr ⟨more, rfl, hfits⟩⟩

/-- A symbol that has to be there. -/
theorem Fits.exists_mem {i : Item α} (h : Fits is pieces) (hi : i ∈ is) (hkind : i.kind = .one) :
    ∃ a ∈ pieces.flatten, i.accepts a = true := by
  induction h with
  | nil => cases hi
  | @cons j piece is pieces hj _ ih =>
      rcases List.mem_cons.mp hi with rfl | hi
      · unfold Item.Takes at hj
        rw [hkind] at hj
        obtain ⟨a, rfl, ha⟩ := hj
        exact ⟨a, by simp, ha⟩
      · obtain ⟨a, hmem, ha⟩ := ih hi
        exact ⟨a, by simp [hmem], ha⟩

/-- Without it there is no match. -/
theorem search_eq_none {i : Item α} (hi : i ∈ is) (hkind : i.kind = .one)
    (hs : ∀ a ∈ s, i.accepts a = false) : search is s = none := by
  rw [Option.eq_none_iff_forall_ne_some]
  intro pieces h
  obtain ⟨hfits, pre, post, rfl⟩ := search_sound h
  obtain ⟨a, hmem, ha⟩ := hfits.exists_mem hi hkind
  rw [hs a (by simp [List.mem_flatten.mp hmem])] at ha
  cases ha

end Sound

/-! ## Finding a match -/

section Find

variable {accepts : α → Bool} {rest : List α → Option (List (List α))} {g : Nat}
  {is : List (Item α)} {pieces : List (List α)} {s : List α}

/-- An item that takes all it can, if the rest then matches. -/
theorem starThen_greedy {xs : List α} (hxs : ∀ a ∈ xs, accepts a = true)
    (hs : ∀ a ∈ s.head?, accepts a = false) (hrest : rest s = some pieces) :
    starThen accepts rest (xs ++ s) = some (xs :: pieces) := by
  induction xs with
  | nil =>
      cases s with
      | nil => simp [starThen, hrest]
      | cons a as =>
          have ha : accepts a = false := hs a rfl
          simp [starThen, ha, hrest]
  | cons x xs ih =>
      obtain ⟨hx, hxs⟩ := List.forall_mem_cons.mp hxs
      rw [List.cons_append, starThen, if_pos hx, ih hxs]
      rfl

theorem matchAt_star {xs : List α} (hxs : ∀ a ∈ xs, accepts a = true)
    (hs : ∀ a ∈ s.head?, accepts a = false) (hrest : matchAt is s = some pieces) :
    matchAt (star accepts g :: is) (xs ++ s) = some (xs :: pieces) :=
  starThen_greedy hxs hs hrest

theorem matchAt_one {a : α} (ha : accepts a = true) (hrest : matchAt is s = some pieces) :
    matchAt (one accepts g :: is) (a :: s) = some ([a] :: pieces) := by
  show (if accepts a then (matchAt is s).map ([a] :: ·) else none) = _
  rw [if_pos ha, hrest]
  rfl

theorem matchAt_plus {x : α} {xs : List α} (hx : accepts x = true)
    (hxs : ∀ a ∈ xs, accepts a = true) (hs : ∀ a ∈ s.head?, accepts a = false)
    (hrest : matchAt is s = some pieces) :
    matchAt (plus accepts g ++ is) (x :: xs ++ s) = some ([x] :: xs :: pieces) :=
  matchAt_one hx (matchAt_star hxs hs hrest)

theorem matchAt_literal [DecidableEq α] (text : List α) (hrest : matchAt is s = some pieces) :
    matchAt (literal text ++ is) (text ++ s) = some (text.map (fun a => [a]) ++ pieces) := by
  induction text with
  | nil => exact hrest
  | cons a text ih => exact matchAt_one (by simp) ih

theorem search_of_matchAt (h : matchAt is s = some pieces) : search is s = some pieces := by
  cases s with
  | nil => exact h
  | cons a as =>
      rw [search, h]
      rfl

/-- Symbols that the first item does not accept are passed over. -/
theorem search_skip {lead : List α} (hlead : ∀ a ∈ lead, accepts a = false) :
    search (one accepts g :: is) (lead ++ s) = search (one accepts g :: is) s := by
  induction lead with
  | nil => rfl
  | cons a lead ih =>
      obtain ⟨ha, hlead⟩ := List.forall_mem_cons.mp hlead
      have hnone : matchAt (one accepts g :: is) (a :: (lead ++ s)) = none := by
        show (if accepts a then _ else none) = none
        rw [ha]
        rfl
      rw [List.cons_append, search, hnone, Option.none_or, ih hlead]

end Find

/-! ## Groups -/

section Group

variable {is : List (Item α)} {pieces : List (List α)} {piece : List α} {i : Item α} {g : Nat}

@[simp] theorem groupText_nil : groupText ([] : List (Item α)) pieces g = [] := rfl

@[simp] theorem groupText_cons :
    groupText (i :: is) (piece :: pieces) g
      = (if i.group = g then piece else []) ++ groupText is pieces g := by
  unfold groupText
  by_cases h : i.group = g
  · simp [h]
  · simp [h]

/-- A fixed text is in no group. -/
theorem groupText_literal [DecidableEq α] (text : List α) (hg : 0 ≠ g) :
    groupText (literal text ++ is) (text.map (fun a => [a]) ++ pieces) g = groupText is pieces g := by
  induction text with
  | nil => rfl
  | cons a text ih =>
      refine groupText_cons.trans ?_
      rw [if_neg (show (one (fun b => decide (b = a)) 0).group ≠ g from hg)]
      exact ih

@[simp] theorem group_one {accepts : α → Bool} : (one accepts g).group = g := rfl

@[simp] theorem group_star {accepts : α → Bool} : (star accepts g).group = g := rfl

theorem groupText_plus {accepts : α → Bool} {g' : Nat} {x : α} {xs : List α} :
    groupText (plus accepts g' ++ is) ([x] :: xs :: pieces) g
      = (if g' = g then x :: xs else []) ++ groupText is pieces g := by
  rw [plus, List.cons_append, List.cons_append, List.nil_append, groupText_cons, groupText_cons]
  by_cases h : g' = g
  · simp [h]
  · simp [h]

/-- A group has only symbols that its items accept. -/
theorem not_mem_groupText {a : α} (h : Fits is pieces)
    (hg : ∀ i ∈ is, i.group = g → i.accepts a = false) : a ∉ groupText is pieces g := by
  induction h with
  | nil => simp
  | @cons i piece is pieces hi _ ih =>
      rw [groupText_cons, List.mem_append, not_or]
      refine ⟨?_, ih fun j hj => hg j (List.mem_cons_of_mem i hj)⟩
      by_cases hgroup : i.group = g
      · rw [if_pos hgroup]
        intro hmem
        have hnot := hg i List.mem_cons_self hgroup
        rw [hi.accepts hmem] at hnot
        cases hnot
      · rw [if_neg hgroup]
        exact List.not_mem_nil

end Group

/-! ## Substitution -/

section Substitute

variable {is : List (Item α)} {new s : List α}

theorem substitute_eq_self (h : ∀ pre post, s = pre ++ post → post ≠ [] → matchAt is post = none) :
    substitute is new 0 s = s := by
  induction s with
  | nil => rfl
  | cons a as ih =>
      rw [substitute, h [] (a :: as) rfl (List.cons_ne_nil _ _)]
      exact congrArg (a :: ·) (ih fun pre post hsplit => h (a :: pre) post (by rw [hsplit]; rfl))

theorem mem_substitute {a : α} {skip : Nat} (h : a ∈ substitute is new skip s) :
    a ∈ new ∨ a ∈ s := by
  induction s generalizing skip with
  | nil => cases skip <;> cases h
  | cons b bs ih =>
      cases skip with
      | succ skip => exact (ih h).imp_right (List.mem_cons_of_mem _)
      | zero =>
          rw [substitute] at h
          split at h
          · rcases List.mem_append.mp h with h | h
            · exact .inl h
            · exact (ih h).imp_right (List.mem_cons_of_mem _)
          · rcases List.mem_cons.mp h with rfl | h
            · exact .inr List.mem_cons_self
            · exact (ih h).imp_right (List.mem_cons_of_mem _)

end Substitute

end Pattern
