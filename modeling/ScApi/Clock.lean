import ScApi.Lib.CheckedArith

/-!
# The clock

`Clock::now` converts the ticks of a clock of some frequency to nanoseconds. There is a branch for each
of two common frequencies, and one for all others. The arithmetic is on 64-bit integers, and must not
overflow.

## Main results

* `now_eq`: all branches compute the ticks in nanoseconds, and overflow only when these do.
* `now_exact`: what the clock says is exact, and does not decrease.
-/

namespace ScApi.Clock

open CheckedArith

/-- `period::den`. -/
def periodDen : ℤ := 1000000000

/-- `freq10MHz`. -/
def freq10MHz : ℤ := 10000000

/-- `freq24MHz`. -/
def freq24MHz : ℤ := 24000000

/-- The branch for 10 MHz: the period is a whole number of nanoseconds. -/
def now10MHz (ticks : ℤ) : Option ℤ :=
  mul 64 ticks (periodDen / freq10MHz)

/-- The branch for 24 MHz. -/
def now24MHz (ticks : ℤ) : Option ℤ :=
  scale 64 periodDen freq24MHz ticks

/-- The branch for the other frequencies. -/
def nowGeneral (freq ticks : ℤ) : Option ℤ :=
  scale 64 periodDen freq ticks

/-- `Clock::now`, for the frequency and the timestamp of the clock source. -/
def now (freq ticks : ℤ) : Option ℤ :=
  if freq = freq10MHz then now10MHz ticks
  else if freq = freq24MHz then now24MHz ticks
  else nowGeneral freq ticks

variable {freq ticks : ℤ}

theorem now10MHz_eq (ticks : ℤ) : now10MHz ticks = checked 64 (ticks * periodDen / freq10MHz) := by
  have hperiod : ticks * periodDen / freq10MHz = ticks * (periodDen / freq10MHz) :=
    Int.mul_ediv_assoc ticks (by decide)
  rw [now10MHz, mul, hperiod]

theorem nowGeneral_eq (h0 : 0 ≤ ticks) (hpos : 0 < freq) (hle : freq ≤ 9200000000) :
    nowGeneral freq ticks = checked 64 (ticks * periodDen / freq) := by
  refine scale_eq h0 (by decide) hpos ?_
  rw [periodDen]
  norm_num
  omega

theorem now24MHz_eq (h0 : 0 ≤ ticks) :
    now24MHz ticks = checked 64 (ticks * periodDen / freq24MHz) :=
  nowGeneral_eq h0 (by decide) (by decide)

/-- **All branches** compute the ticks in nanoseconds, and overflow only when these do. -/
theorem now_eq (h0 : 0 ≤ ticks) (hpos : 0 < freq) (hle : freq ≤ 9200000000) :
    now freq ticks = checked 64 (ticks * periodDen / freq) := by
  rw [now]
  split_ifs with h10 h24
  · rw [h10, now10MHz_eq]
  · rw [h24, now24MHz_eq h0]
  · exact nowGeneral_eq h0 hpos hle

/-- **The clock is exact** and does not decrease: each branch that is for the frequency gives the
nanoseconds, rounded down, and at no earlier timestamp there were more. -/
theorem now_exact (h0 : 0 ≤ ticks) (hpos : 0 < freq) (hle : freq ≤ 9200000000)
    (hfit : ticks * 1000000000 / freq < 9223372036854775808) :
    (freq = freq10MHz → now10MHz ticks = some (ticks * 1000000000 / freq)) ∧
      (freq = freq24MHz → now24MHz ticks = some (ticks * 1000000000 / freq)) ∧
      nowGeneral freq ticks = some (ticks * 1000000000 / freq) ∧
      now freq ticks = some (ticks * 1000000000 / freq) ∧
      ∀ earlier, 0 ≤ earlier → earlier ≤ ticks →
        ∃ t, now freq earlier = some t ∧ t ≤ ticks * 1000000000 / freq := by
  have hfits : ∀ {ticks' : ℤ}, 0 ≤ ticks' → ticks' ≤ ticks → ticks' * 1000000000 / freq
      ≤ ticks * 1000000000 / freq ∧ Fits 64 (ticks' * 1000000000 / freq) := by
    intro ticks' h0' hle'
    have hmono : ticks' * 1000000000 / freq ≤ ticks * 1000000000 / freq :=
      Int.ediv_le_ediv hpos (by omega)
    refine ⟨hmono, (fits_of_nonneg (Int.ediv_nonneg (by omega) hpos.le)).mpr ?_⟩
    norm_num
    omega
  obtain ⟨-, hresult⟩ := hfits h0 le_rfl
  refine ⟨?_, ?_, ?_, ?_, fun earlier h0' hle' => ?_⟩
  · rintro rfl
    exact (now10MHz_eq ticks).trans (checked_of_fits hresult)
  · rintro rfl
    exact (now24MHz_eq h0).trans (checked_of_fits hresult)
  · exact (nowGeneral_eq h0 hpos hle).trans (checked_of_fits hresult)
  · exact (now_eq h0 hpos hle).trans (checked_of_fits hresult)
  · obtain ⟨hmono, hearlier⟩ := hfits h0' hle'
    exact ⟨_, (now_eq h0' hpos hle).trans (checked_of_fits hearlier), hmono⟩

/-- A processor's clock of 24 MHz, one tick behind a second. -/
theorem now_exact_24MHz :
    (freq24MHz = freq10MHz → now10MHz 24000001 = some (24000001 * 1000000000 / freq24MHz)) ∧
      (freq24MHz = freq24MHz → now24MHz 24000001 = some (24000001 * 1000000000 / freq24MHz)) ∧
      nowGeneral freq24MHz 24000001 = some (24000001 * 1000000000 / freq24MHz) ∧
      now freq24MHz 24000001 = some (24000001 * 1000000000 / freq24MHz) ∧
      ∀ earlier, 0 ≤ earlier → earlier ≤ 24000001 →
        ∃ t, now freq24MHz earlier = some t ∧ t ≤ 24000001 * 1000000000 / freq24MHz :=
  now_exact (by decide) (by decide) (by decide) (by decide)

end ScApi.Clock
