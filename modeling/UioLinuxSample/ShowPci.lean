import UioLinuxSample.Lib.Chain

set_option autoImplicit false

/-! # `show_pci.c`: the PCI Express capability of a device

For each function on the bus, `main` maps the configuration space and follows the list of
capabilities to the one with the id 0x10. A capability starts with a double word: its id in bits
7..0 and the offset of the next one in bits 15..8, where 0 ends the list and the two low bits do not
count. The offset of the first one is in byte 0x34, with 0 for a device without capabilities.

The walk is a search along a chain (`pciTurn_eq`), and three things are not as they should be. The
first offset is not tested for 0, so without capabilities the walk starts in the header. A list that
is a cycle is followed forever. And the device id is shifted by 8 bits where it is at bit 16.
`walk_right_iff` says for which configuration spaces none of them shows.
-/

namespace UioLinuxSample.ShowPci

open Loop Chain

/-- The page that is mapped, by double words. The configuration space is the first 64 of them. -/
def Page : Type := Nat → UInt32

/-! ## The program -/

/-- The fields of the PCI Express capability that are printed, each as a byte. -/
structure CapFields where
  type : UInt8
  speed : UInt8
  linkSpeed : UInt8
  linkWidth : UInt8
  deriving DecidableEq

def capFields (page : Page) (ptrsearch : Nat) : CapFields where
  type := ((page ptrsearch >>> 20) &&& 0x0f).toUInt8
  speed := ((page (ptrsearch + 0x2c / 4) >>> 1) &&& 0x7f).toUInt8
  linkSpeed := (page (ptrsearch + 0x0c / 4) &&& 0x0f).toUInt8
  linkWidth := ((page (ptrsearch + 0x0c / 4) >>> 4) &&& 0x3f).toUInt8

/-- What is printed for a PCI Express device. -/
structure Report where
  venderId : UInt32
  deviceid : UInt32
  fields : CapFields
  deriving DecidableEq

def report (page : Page) (ptrsearch : Nat) : Report where
  venderId := page 0 &&& 0x0000ffff
  deviceid := (page 0 >>> 8) &&& 0x0000ffff
  fields := capFields page ptrsearch

/-- The capability pointer. -/
def nextpoint (page : Page) : UInt8 := (page (0x34 / 4)).toUInt8

/-- A turn of the search, at the double word `ptrsearch`. -/
def pciTurn (page : Page) (ptrsearch : Nat) : Turn Nat (Option Nat) :=
  if (page ptrsearch).toUInt8 = 0x10 then .done (some ptrsearch)
  else if (page ptrsearch >>> 8).toUInt8 = 0x00 then .done none
  else .next (((page ptrsearch >>> 8) &&& 0x00ff).toUInt8.toNat / 4)

/-- What is printed for a function whose space is mapped, with a bound on the turns of the
search. -/
def showFunction (fuel : Nat) (page : Page) : Option (Option Report) :=
  if page 0 ≠ 0xffffffff then
    (run (pciTurn page) fuel ((nextpoint page).toNat / 4)).map fun found =>
      found.map (report page)
  else some none

/-- The search ends, and this is printed. -/
def Shows (page : Page) (r : Option Report) : Prop := ∃ fuel, showFunction fuel page = some r

/-! ## The list of capabilities -/

/-- The capability has the id of PCI Express. -/
def isExpress (page : Page) (cap : Nat) : Bool := (page cap).toUInt8 = 0x10

/-- The next capability in the list. -/
def nextCap (page : Page) (cap : Nat) : Option Nat :=
  let next := (page cap >>> 8).toUInt8
  if next = 0 then none else some (next.toNat / 4)

/-- The list of capabilities has one of PCI Express. -/
def HasExpress (page : Page) : Prop :=
  nextpoint page ≠ 0 ∧ Contains (nextCap page) (isExpress page) ((nextpoint page).toNat / 4)

/-- The walk is right: it ends, it reports a device exactly if there is a PCI Express capability, and
then with the two ids and the fields of the first such capability. -/
structure WalkRight (page : Page) : Prop where
  ends : ∃ r, Shows page r
  found_iff : ∀ r, Shows page r → (r.isSome = true ↔ HasExpress page)
  printed : ∀ r, Shows page (some r) →
    r.venderId.toNat = (page 0).toNat % 2 ^ 16 ∧ r.deviceid.toNat = (page 0).toNat / 2 ^ 16
      ∧ ∃ cap, IsFirst (nextCap page) (isExpress page) ((nextpoint page).toNat / 4) cap
        ∧ r.fields = capFields page cap

section Walk

variable {page : Page}

/-- The loop is the search along the list. -/
theorem pciTurn_eq (page : Page) :
    pciTurn page = searchTurn (nextCap page) (isExpress page) := by
  funext cap
  have hbyte : ((page cap >>> 8) &&& 0x00ff).toUInt8 = (page cap >>> 8).toUInt8 := by
    apply UInt8.toNat_inj.mp
    simp only [UInt32.toNat_toUInt8, UInt32.toNat_and]
    rw [show (0x00ff : UInt32).toNat = 2 ^ 8 - 1 from rfl, Nat.and_two_pow_sub_one_eq_mod]
    exact Nat.mod_mod _ _
  unfold pciTurn searchTurn isExpress nextCap
  rw [hbyte]
  by_cases hid : (page cap).toUInt8 = 0x10
  · simp [hid]
  · by_cases hnext : (page cap >>> 8).toUInt8 = 0 <;> simp [hid, hnext]

theorem shows_iff (hpage : page 0 ≠ 0xffffffff) (r : Option Report) :
    Shows page r ↔ ∃ found, r = found.map (report page)
      ∧ Returns (searchTurn (nextCap page) (isExpress page)) ((nextpoint page).toNat / 4) found := by
  unfold Shows showFunction Returns
  simp only [if_pos hpage, pciTurn_eq, Option.map_eq_some_iff]
  constructor
  · rintro ⟨fuel, found, hfound, rfl⟩
    exact ⟨found, rfl, fuel, hfound⟩
  · rintro ⟨found, rfl, fuel, hfound⟩
    exact ⟨fuel, found, hfound, rfl⟩

theorem toNat_venderId (page : Page) (cap : Nat) :
    (report page cap).venderId.toNat = (page 0).toNat % 2 ^ 16 := by
  show (page 0 &&& 0x0000ffff).toNat = _
  rw [UInt32.toNat_and, show (0x0000ffff : UInt32).toNat = 2 ^ 16 - 1 from rfl,
    Nat.and_two_pow_sub_one_eq_mod]

theorem toNat_deviceid (page : Page) (cap : Nat) :
    (report page cap).deviceid.toNat = (page 0).toNat / 2 ^ 8 % 2 ^ 16 := by
  show ((page 0 >>> 8) &&& 0x0000ffff).toNat = _
  rw [UInt32.toNat_and, show (0x0000ffff : UInt32).toNat = 2 ^ 16 - 1 from rfl,
    Nat.and_two_pow_sub_one_eq_mod, UInt32.toNat_shiftRight,
    show (8 : UInt32).toNat % 32 = 8 from rfl, Nat.shiftRight_eq_div_pow]

/-- What is shown depends on what the search has found. -/
theorem walkRight_iff_of_returns (hpage : page 0 ≠ 0xffffffff) {found : Option Nat}
    (hret : Returns (searchTurn (nextCap page) (isExpress page)) ((nextpoint page).toNat / 4) found) :
    WalkRight page
      ↔ (found.isSome = true ↔ HasExpress page)
        ∧ (found.isSome = true → (page 0).toNat / 2 ^ 8 % 2 ^ 16 = (page 0).toNat / 2 ^ 16) := by
  have hshows : ∀ r, Shows page r ↔ r = found.map (report page) := by
    intro r
    rw [shows_iff hpage]
    constructor
    · rintro ⟨other, rfl, hother⟩
      rw [hother.unique hret]
    · rintro rfl
      exact ⟨found, rfl, hret⟩
  constructor
  · intro h
    have hfound := h.found_iff _ ((hshows _).mpr rfl)
    rw [Option.isSome_map] at hfound
    refine ⟨hfound, fun hsome => ?_⟩
    obtain ⟨cap, rfl⟩ := Option.isSome_iff_exists.mp hsome
    rw [← toNat_deviceid page cap]
    exact (h.printed _ ((hshows _).mpr rfl)).2.1
  · rintro ⟨hfound, hids⟩
    refine ⟨⟨_, (hshows _).mpr rfl⟩, ?_, ?_⟩
    · intro r hr
      rw [(hshows r).mp hr, Option.isSome_map]
      exact hfound
    · intro r hr
      obtain ⟨cap, rfl, rfl⟩ := Option.map_eq_some_iff.mp ((hshows _).mp hr).symm
      refine ⟨toNat_venderId page cap, ?_, cap, isFirst_of_search hret, rfl⟩
      rw [toNat_deviceid, hids rfl]

/-- **When the walk is right.** If there is a PCI Express capability, bits 23..8 of the first double
word must equal bits 31..16. If there is none, the walk must end without meeting the id of one,
also when it starts in the header. -/
theorem walk_right_iff (hpage : page 0 ≠ 0xffffffff) :
    WalkRight page
      ↔ (HasExpress page → (page 0).toNat / 2 ^ 8 % 2 ^ 16 = (page 0).toNat / 2 ^ 16)
        ∧ (¬ HasExpress page →
          ¬ Contains (nextCap page) (isExpress page) ((nextpoint page).toNat / 4)
            ∧ Ends (nextCap page) ((nextpoint page).toNat / 4)) := by
  by_cases hexpress : HasExpress page
  · obtain ⟨cap, hret, -⟩ := hexpress.2.search
    rw [walkRight_iff_of_returns hpage hret]
    simp [hexpress]
  · constructor
    · intro h
      -- the walk has ended, and what it found cannot have been a capability
      obtain ⟨r, hshows⟩ := h.ends
      obtain ⟨found, -, hret⟩ := (shows_iff hpage r).mp hshows
      have hfound := ((walkRight_iff_of_returns hpage hret).mp h).1
      have hnone : found = none := by
        rwa [iff_false_right hexpress, Bool.not_eq_true, Option.isSome_eq_false_iff,
          Option.isNone_iff_eq_none] at hfound
      rw [hnone] at hret
      exact ⟨fun h => absurd h hexpress, fun _ => search_none_iff.mp hret⟩
    · rintro ⟨-, hwalk⟩
      obtain ⟨hno, hends⟩ := hwalk hexpress
      rw [walkRight_iff_of_returns hpage (hends.search hno)]
      simp [hexpress]

end Walk

/-- A page with these double words, and 0 elsewhere. -/
def pageOf (words : List (Nat × UInt32)) : Page := fun i => (words.lookup i).getD 0

/-- A PCI Express endpoint at 0x40 whose ids look the same at both shifts. -/
theorem walk_right_endpoint :
    ∃ r, Shows (pageOf [(0, 0x10101086), (13, 0x40), (16, 0x10)]) (some r)
      ∧ r.venderId.toNat = 0x1086 ∧ r.deviceid.toNat = 0x1010 := by
  have hexpress : HasExpress (pageOf [(0, 0x10101086), (13, 0x40), (16, 0x10)]) :=
    ⟨by decide, 0, 16, rfl, rfl⟩
  have hright : WalkRight (pageOf [(0, 0x10101086), (13, 0x40), (16, 0x10)]) :=
    (walk_right_iff (by decide)).mpr ⟨fun _ => by decide, fun hno => absurd hexpress hno⟩
  obtain ⟨r, hshows⟩ := hright.ends
  obtain ⟨r, rfl⟩ := Option.isSome_iff_exists.mp ((hright.found_iff r hshows).mpr hexpress)
  exact ⟨r, hshows, (hright.printed r hshows).1, (hright.printed r hshows).2.1⟩

/-- The device id 0x1572 is printed as 0x7280. A capability whose next one is itself is read
forever. And without capabilities, a vendor id 0x1010 is taken for a PCI Express capability. -/
theorem walk_wrong :
    (∃ r, Shows (pageOf [(0, 0x15728086), (13, 0x40), (16, 0x10)]) (some r)
        ∧ r.deviceid = 0x7280)
      ∧ (∀ r, ¬ Shows (pageOf [(0, 0x15728086), (13, 0x40), (16, 0x4001)]) r)
      ∧ (∃ r, Shows (pageOf [(0, 0x12341010)]) (some r))
      ∧ ¬ HasExpress (pageOf [(0, 0x12341010)]) := by
  refine ⟨⟨_, ⟨1, rfl⟩, rfl⟩, ?_, ⟨_, ⟨1, rfl⟩⟩, fun h => h.1 rfl⟩
  intro r hshows
  obtain ⟨found, -, hret⟩ := (shows_iff (by decide) r).mp hshows
  refine not_returns (P := fun cap => cap = 16) rfl ?_ hret
  rintro cap rfl
  exact .inr ⟨16, rfl, rfl⟩

end UioLinuxSample.ShowPci
