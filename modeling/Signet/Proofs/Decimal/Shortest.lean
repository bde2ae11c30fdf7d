import Mathlib.Tactic
import Signet.Decimal.Shortest

/-!
The search for the shortest digits ends with some, and with the shortest.

* `four_mul_power_le`: the lowest power of ten that is tried is at most a
  quarter of the last place, `roundsTo_below`: so that the multiple below a
  number rounds to it.
* `nearest?_search`: the search therefore stops at a power of which a multiple
  rounds to the number, and `roundsTo_digits` says that this is what it gives.
* `count_digits_pos`: no number but zero has zero for its digits.
* `exists_nearest?_of_roundsTo`: no power is passed over of which a multiple rounds to
  the number, and the search begins high enough (`le_tenAbove`), so that the digits
  are the shortest (`le_exponent_digits`).
-/

namespace Signet.Shortest

open Binary (power)

variable {fmt : BinaryFormat} {tie : Tie} {mantissa : ℕ} {two ten : ℤ}

lemma power_pos {base : ℕ} (h : 0 < base) (e : ℤ) : 0 < power base e := Nat.pow_pos h

/-- A power of ten that is low enough, with its denominators cleared. -/
lemma four_mul_power_le (h : ten ≤ tenBelow two) :
    4 * (power 2 (-two) * power 10 ten) ≤ power 2 two * power 10 (-ten) := by
  have hexponents : 2 + (-two).toNat + 4 * ten.toNat ≤ two.toNat + 3 * (-ten).toNat := by
    rw [tenBelow] at h
    split at h <;> omega
  have hupper : 10 ^ ten.toNat ≤ 2 ^ (4 * ten.toNat) := by
    rw [pow_mul]
    exact Nat.pow_le_pow_left (by norm_num) _
  have hlower : 2 ^ (3 * (-ten).toNat) ≤ 10 ^ (-ten).toNat := by
    rw [pow_mul]
    exact Nat.pow_le_pow_left (by norm_num) _
  calc 4 * (2 ^ (-two).toNat * 10 ^ ten.toNat)
      ≤ 4 * (2 ^ (-two).toNat * 2 ^ (4 * ten.toNat)) :=
        Nat.mul_le_mul_left _ (Nat.mul_le_mul_left _ hupper)
    _ = 2 ^ (2 + (-two).toNat + 4 * ten.toNat) := by rw [pow_add, pow_add]; ring
    _ ≤ 2 ^ (two.toNat + 3 * (-ten).toNat) := Nat.pow_le_pow_right (by norm_num) hexponents
    _ = 2 ^ two.toNat * 2 ^ (3 * (-ten).toNat) := pow_add _ _ _
    _ ≤ 2 ^ two.toNat * 10 ^ (-ten).toNat := Nat.mul_le_mul_left _ hlower

lemma gapBelow_mem (fmt : BinaryFormat) (mantissa : ℕ) (two : ℤ) :
    1 ≤ gapBelow fmt mantissa two ∧ gapBelow fmt mantissa two ≤ 2 := by
  rw [gapBelow]
  split <;> omega

/-- What rounds to a number lies between two ends, which belong to an even mantissa. -/
lemma roundsTo_iff {count : ℕ} : roundsTo fmt mantissa two count ten = true ↔
    ((4 * mantissa - gapBelow fmt mantissa two) * (power 2 two * power 10 (-ten))
        ≤ 4 * count * (power 2 (-two) * power 10 ten)
      ∧ 4 * count * (power 2 (-two) * power 10 ten)
        ≤ (4 * mantissa + 2) * (power 2 two * power 10 (-ten)))
    ∧ (mantissa % 2 = 1 →
      (4 * mantissa - gapBelow fmt mantissa two) * (power 2 two * power 10 (-ten))
          < 4 * count * (power 2 (-two) * power 10 ten)
        ∧ 4 * count * (power 2 (-two) * power 10 ten)
          < (4 * mantissa + 2) * (power 2 two * power 10 (-ten))) := by
  rw [roundsTo]
  split
  · rename_i heven
    rw [decide_eq_true_iff]
    exact ⟨fun h => ⟨h, fun hodd => by omega⟩, And.left⟩
  · rename_i hodd
    rw [decide_eq_true_iff]
    exact ⟨fun h => ⟨⟨h.1.le, h.2.le⟩, fun _ => h⟩, fun h => h.2 (by omega)⟩

lemma unit_pos (two ten : ℤ) : 0 < power 2 two * power 10 ten :=
  Nat.mul_pos (power_pos (by norm_num) _) (power_pos (by norm_num) _)

/-- A number lies between the ends of what rounds to it. -/
lemma lt_four_mul_lt (hmantissa : 0 < mantissa) {unit : ℕ} (hunit : 0 < unit) :
    (4 * mantissa - gapBelow fmt mantissa two) * unit < 4 * (mantissa * unit)
      ∧ 4 * (mantissa * unit) < (4 * mantissa + 2) * unit := by
  have hgap := (gapBelow_mem fmt mantissa two).1
  rw [← Nat.mul_assoc]
  exact ⟨Nat.mul_lt_mul_of_pos_right (by omega) hunit,
    Nat.mul_lt_mul_of_pos_right (by omega) hunit⟩

/-- Of a power of ten that is low enough the multiple just below a number rounds to it. -/
lemma roundsTo_below (hmantissa : 0 < mantissa) (h : ten ≤ tenBelow two) :
    roundsTo fmt mantissa two (mantissa * power 2 two * power 10 (-ten)
      / (power 2 (-two) * power 10 ten)) ten = true := by
  rw [Nat.mul_assoc mantissa, roundsTo_iff]
  set unit := power 2 two * power 10 (-ten)
  set den := power 2 (-two) * power 10 ten
  set below := mantissa * unit / den
  have hsmall : 4 * den ≤ unit := four_mul_power_le h
  have hle : below * den ≤ mantissa * unit := Nat.div_mul_le_self _ _
  have hlt : mantissa * unit < (below + 1) * den :=
    Nat.lt_mul_of_div_lt (Nat.lt_succ_self _) (unit_pos _ _)
  have hends := @lt_four_mul_lt fmt _ two hmantissa unit (unit_pos _ _)
  have hlow : (4 * mantissa - gapBelow fmt mantissa two) * unit < 4 * below * den := by
    have hgap := (gapBelow_mem fmt mantissa two).1
    have hlast : (4 * mantissa - gapBelow fmt mantissa two) * unit + unit
        ≤ 4 * (mantissa * unit) := by
      calc (4 * mantissa - gapBelow fmt mantissa two) * unit + unit
          = (4 * mantissa - gapBelow fmt mantissa two + 1) * unit := by ring
        _ ≤ 4 * mantissa * unit := Nat.mul_le_mul_right _ (by omega)
        _ = 4 * (mantissa * unit) := Nat.mul_assoc _ _ _
    rw [Nat.add_mul, Nat.one_mul] at hlt
    rw [Nat.mul_assoc 4 below]
    omega
  have hhigh : 4 * below * den < (4 * mantissa + 2) * unit := by
    rw [Nat.mul_assoc 4 below]
    omega
  exact ⟨⟨hlow.le, hhigh.le⟩, fun _ => ⟨hlow, hhigh⟩⟩

/-- Zero rounds to no positive number. -/
lemma roundsTo_zero (hmantissa : 0 < mantissa) : roundsTo fmt mantissa two 0 ten = false := by
  have hgap := (gapBelow_mem fmt mantissa two).2
  have hlow : 0 < (4 * mantissa - gapBelow fmt mantissa two)
      * (power 2 two * power 10 (-ten)) := Nat.mul_pos (by omega) (unit_pos _ _)
  rw [← Bool.not_eq_true, roundsTo_iff, Nat.mul_zero, Nat.zero_mul]
  exact fun h => Nat.not_le.mpr hlow h.1.1

/-- The multiple that is taken rounds to the number. -/
lemma roundsTo_of_nearest? {count : ℕ} (h : nearest? fmt tie mantissa two ten = some count) :
    roundsTo fmt mantissa two count ten = true := by
  unfold nearest? at h
  dsimp only at h
  set num := mantissa * power 2 two * power 10 (-ten)
  set den := power 2 (-two) * power 10 ten
  cases hbelow : roundsTo fmt mantissa two (num / den) ten <;>
    cases habove : roundsTo fmt mantissa two (num / den + 1) ten <;>
    rw [hbelow, habove] at h
  · cases h
  · cases h
    exact habove
  · cases h
    exact hbelow
  · dsimp only at h
    split at h
    · cases h
      exact hbelow
    split at h
    · cases h
      exact habove
    cases tie with
    | up =>
        cases h
        exact habove
    | even =>
        cases h
        rcases Nat.mod_two_eq_zero_or_one (num / den) with heven | hodd
        · rw [heven]
          exact hbelow
        · rw [hodd]
          exact habove

/-- If one of the two neighbouring multiples rounds to a number, some multiple is taken. -/
lemma exists_nearest?_of_or
    (h : roundsTo fmt mantissa two (mantissa * power 2 two * power 10 (-ten)
        / (power 2 (-two) * power 10 ten)) ten = true
      ∨ roundsTo fmt mantissa two (mantissa * power 2 two * power 10 (-ten)
        / (power 2 (-two) * power 10 ten) + 1) ten = true) :
    ∃ count, nearest? fmt tie mantissa two ten = some count := by
  unfold nearest?
  dsimp only
  split
  · rename_i hbelow habove
    rw [hbelow, habove] at h
    exact absurd h (by simp)
  · exact ⟨_, rfl⟩
  · exact ⟨_, rfl⟩
  · split
    · exact ⟨_, rfl⟩
    split
    · exact ⟨_, rfl⟩
    cases tie <;> exact ⟨_, rfl⟩

/-- Of a power of ten that is low enough some multiple is taken. -/
lemma exists_nearest? (hmantissa : 0 < mantissa) (h : ten ≤ tenBelow two) :
    ∃ count, nearest? fmt tie mantissa two ten = some count :=
  exists_nearest?_of_or (.inl (roundsTo_below hmantissa h))

/-- Of a power of ten of which a multiple rounds to a number, some multiple is taken: between that
one and the number lies a neighbour of the number. -/
lemma exists_nearest?_of_roundsTo {count : ℕ} (hmantissa : 0 < mantissa)
    (h : roundsTo fmt mantissa two count ten = true) :
    ∃ count, nearest? fmt tie mantissa two ten = some count := by
  refine exists_nearest?_of_or ?_
  rw [Nat.mul_assoc mantissa]
  rw [roundsTo_iff] at h
  rw [roundsTo_iff, roundsTo_iff]
  set unit := power 2 two * power 10 (-ten)
  set den := power 2 (-two) * power 10 ten
  set below := mantissa * unit / den
  have hle : below * den ≤ mantissa * unit := Nat.div_mul_le_self _ _
  have hlt : mantissa * unit < (below + 1) * den :=
    Nat.lt_mul_of_div_lt (Nat.lt_succ_self _) (unit_pos _ _)
  obtain ⟨hlow, hhigh⟩ := @lt_four_mul_lt fmt _ two hmantissa unit (unit_pos _ _)
  rw [Nat.mul_assoc 4 count] at h
  rw [Nat.mul_assoc 4 below, Nat.mul_assoc 4 (below + 1)]
  rcases le_or_gt count below with hcount | hcount
  · have hmono : count * den ≤ below * den := Nat.mul_le_mul_right _ hcount
    refine .inl ⟨⟨by omega, by omega⟩, fun hodd => ?_⟩
    have hlow' := (h.2 hodd).1
    exact ⟨by omega, by omega⟩
  · have hmono : (below + 1) * den ≤ count * den := Nat.mul_le_mul_right _ hcount
    refine .inr ⟨⟨by omega, by omega⟩, fun hodd => ?_⟩
    have hhigh' := (h.2 hodd).2
    exact ⟨by omega, by omega⟩

/-- A search that goes down far enough ends at a power of ten of which a multiple is taken. -/
lemma nearest?_search (hmantissa : 0 < mantissa) {fuel : ℕ} (hfuel : 0 < fuel)
    (h : ten < tenBelow two + fuel) :
    nearest? fmt tie mantissa two (search fmt tie mantissa two fuel ten).exponent
      = some (search fmt tie mantissa two fuel ten).count := by
  induction fuel generalizing ten with
  | zero => exact absurd hfuel (Nat.lt_irrefl 0)
  | succ fuel ih =>
      rw [search]
      cases hnearest : nearest? fmt tie mantissa two ten with
      | some count => exact hnearest
      | none =>
          have hten : tenBelow two < ten := by
            by_contra hle
            obtain ⟨count, hcount⟩ := @exists_nearest? fmt tie mantissa two ten hmantissa
              (not_lt.mp hle)
            rw [hcount] at hnearest
            cases hnearest
          exact ih (by omega) (by omega)

/-- A search does not go below a power of ten of which a multiple is taken. -/
lemma le_exponent_search {least : ℤ} {fuel : ℕ}
    (hleast : ∃ count, nearest? fmt tie mantissa two least = some count) (hten : least ≤ ten)
    (hfuel : ten < least + fuel) : least ≤ (search fmt tie mantissa two fuel ten).exponent := by
  induction fuel generalizing ten with
  | zero => omega
  | succ fuel ih =>
      rw [search]
      cases hnearest : nearest? fmt tie mantissa two ten with
      | some count => exact hten
      | none =>
          have hne : least ≠ ten := by
            rintro rfl
            obtain ⟨count, hcount⟩ := hleast
            rw [hcount] at hnearest
            cases hnearest
          exact ih (by omega) (by omega)

/-- **The digits of a number round to it.** -/
theorem roundsTo_digits (hmantissa : 0 < mantissa) :
    roundsTo fmt mantissa two (digits fmt tie mantissa two).count
      (digits fmt tie mantissa two).exponent = true :=
  roundsTo_of_nearest? (nearest?_search hmantissa (Nat.succ_pos _) (by omega))

/-- The digits of a positive number are not zero. -/
lemma count_digits_pos (hmantissa : 0 < mantissa) : 0 < (digits fmt tie mantissa two).count := by
  refine Nat.pos_of_ne_zero fun hzero => ?_
  have hrounds := @roundsTo_digits fmt tie mantissa two hmantissa
  rw [hzero, roundsTo_zero hmantissa] at hrounds
  cases hrounds

/-- The search begins above all powers of ten of which a multiple rounds to a number. -/
lemma le_tenAbove {count : ℕ} (hmantissa : 0 < mantissa)
    (h : roundsTo fmt mantissa two count ten = true) :
    ten ≤ tenAbove (two + Nat.log2 mantissa + 2) := by
  have hcount : 0 < count := Nat.pos_of_ne_zero fun hzero => by
    rw [hzero, roundsTo_zero hmantissa] at h
    cases h
  have hhigh := (roundsTo_iff.mp h).1.2
  set size := Nat.log2 mantissa
  have hsize : mantissa + 1 ≤ 2 ^ (size + 1) := Nat.lt_log2_self
  by_contra hten
  have hbound : two + size + 1 ≤ 3 * ten.toNat - 4 * (-ten).toNat := by
    rw [tenAbove] at hten
    split at hten <;> omega
  have hupper : 2 ^ (3 * ten.toNat) ≤ 10 ^ ten.toNat := by
    rw [pow_mul]
    exact Nat.pow_le_pow_left (by norm_num) _
  have hlower : 10 ^ (-ten).toNat ≤ 2 ^ (4 * (-ten).toNat) := by
    rw [pow_mul]
    exact Nat.pow_le_pow_left (by norm_num) _
  have hunit : power 2 two * power 10 (-ten) ≤ 2 ^ (two.toNat + 4 * (-ten).toNat) := by
    rw [pow_add]
    exact Nat.mul_le_mul_left _ hlower
  have hden : 2 ^ ((-two).toNat + 3 * ten.toNat) ≤ count * (power 2 (-two) * power 10 ten) := by
    rw [pow_add]
    exact (Nat.mul_le_mul_left _ hupper).trans (Nat.le_mul_of_pos_left _ hcount)
  have hlt : 4 * (count * (power 2 (-two) * power 10 ten))
      < 4 * (2 ^ (size + 1) * 2 ^ (two.toNat + 4 * (-ten).toNat)) := by
    rw [← Nat.mul_assoc 4 count]
    calc 4 * count * (power 2 (-two) * power 10 ten)
        ≤ (4 * mantissa + 2) * (power 2 two * power 10 (-ten)) := hhigh
      _ < 4 * 2 ^ (size + 1) * (power 2 two * power 10 (-ten)) :=
        Nat.mul_lt_mul_of_pos_right (by omega) (unit_pos _ _)
      _ ≤ 4 * 2 ^ (size + 1) * 2 ^ (two.toNat + 4 * (-ten).toNat) := Nat.mul_le_mul_left _ hunit
      _ = 4 * (2 ^ (size + 1) * 2 ^ (two.toNat + 4 * (-ten).toNat)) := Nat.mul_assoc _ _ _
  rw [← pow_add] at hlt
  have hexponents := (Nat.pow_lt_pow_iff_right (by norm_num)).mp
    (hden.trans_lt (Nat.lt_of_mul_lt_mul_left hlt))
  omega

/-- **The digits of a number are the shortest**: no multiple of a greater power of ten rounds to the
number. -/
theorem le_exponent_digits {count : ℕ} (hmantissa : 0 < mantissa)
    (h : roundsTo fmt mantissa two count ten = true) :
    ten ≤ (digits fmt tie mantissa two).exponent := by
  rcases le_total ten (tenBelow two) with hlow | hlow
  · have habove := le_tenAbove hmantissa (@roundsTo_below fmt _ two _ hmantissa le_rfl)
    exact hlow.trans
      (le_exponent_search (exists_nearest? hmantissa le_rfl) habove (by omega))
  · exact le_exponent_search (exists_nearest?_of_roundsTo hmantissa h) (le_tenAbove hmantissa h)
      (by omega)

end Signet.Shortest
