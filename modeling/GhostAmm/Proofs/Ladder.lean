/-
Why one ladder does not cross itself.

A bid is rounded down to a multiple of the tick and an ask up, each after a nudge of a
billionth of a tick the other way.  Where the unrounded prices are more than a tick apart
the multiple below the bid is still smaller than the one above the ask, and the levels only
move bids down and asks up.

The multiples are then rounded to the decimals of the tick.  That does nothing to the ticks
a pair spec gives, which are powers of ten, but the fallback tick can be any number, and the
multiples of 0.5, for one, are rounded to integers.
-/
import GhostAmm.Lib.Rounding
import GhostAmm.Model.Projector

namespace Py

/-- The decimals of a power of ten. -/
theorem negLog10_pow (d : ℤ) : negLog10 (10 ^ (-d)) = d := by
  have hpow : (10 : ℚ) / (10 ^ (-d)) ^ 2 = 10 ^ (2 * d + 1) := by
    rw [← zpow_natCast, ← zpow_mul, div_eq_mul_inv, ← zpow_neg, ← zpow_one_add₀ (by norm_num)]
    congr 1
    push_cast
    ring
  unfold negLog10
  rw [hpow]
  have hlog : Int.log 10 ((10 : ℚ) ^ (2 * d + 1)) = 2 * d + 1 := by
    exact_mod_cast Int.log_zpow (R := ℚ) (b := 10) (by norm_num) (2 * d + 1)
  rw [hlog]
  omega

end Py

namespace GhostAmm

/-! ### The tick -/

/-- The multiples of the tick are still in order once they are rounded to its decimals. -/
def RoundsApart (tick : ℚ) : Prop :=
  ∀ m n : ℤ, 0 < tick → m < n → roundToDecimals m tick < roundToDecimals n tick

/-- The multiples of a step without more decimals than it is given are not rounded. -/
theorem roundToDecimals_of_exact {step : ℚ} {n : ℤ} (h : step * 10 ^ decimalsOf step = n) (m : ℤ) :
    roundToDecimals m step = m * step := by
  exact Py.round_eq_self_iff.mpr (Py.HasDecimals.mul_int ⟨n, h⟩ m)

/-- A power of ten has no more decimals than it is given. -/
theorem exact_of_pow (d : ℤ) :
    ∃ n : ℤ, (10 : ℚ) ^ (-d) * 10 ^ decimalsOf ((10 : ℚ) ^ (-d)) = n := by
  by_cases hd : 0 < d
  · have hsmall : (10 : ℚ) ^ (-d) < 1 := zpow_lt_one_of_neg₀ (by norm_num) (by omega)
    refine ⟨1, ?_⟩
    unfold decimalsOf
    rw [if_pos hsmall, Py.negLog10_pow, ← zpow_natCast, Int.toNat_of_nonneg hd.le, zpow_neg]
    field_simp
    norm_num
  · have hlarge : ¬ (10 : ℚ) ^ (-d) < 1 := not_lt.mpr (one_le_zpow₀ (by norm_num) (by omega))
    refine ⟨10 ^ (-d).toNat, ?_⟩
    unfold decimalsOf
    rw [if_neg hlarge, pow_zero, mul_one]
    push_cast
    rw [← zpow_natCast, Int.toNat_of_nonneg (by omega)]

/-- A tick whose multiples have no more decimals than it is given keeps them apart. -/
theorem roundsApart_of_exact {tick : ℚ} {n : ℤ} (h : tick * 10 ^ decimalsOf tick = n) :
    RoundsApart tick := by
  intro i j htick hij
  rw [roundToDecimals_of_exact h, roundToDecimals_of_exact h]
  have hcast : (i : ℚ) < j := by exact_mod_cast hij
  exact mul_lt_mul_of_pos_right hcast htick

/-- **The tick a pair spec gives keeps its multiples apart.** -/
theorem roundsApart_tickSize (spec : BitbankPairSpec) : RoundsApart spec.tickSize := by
  obtain ⟨n, hexact⟩ := exact_of_pow spec.priceDigits
  exact roundsApart_of_exact hexact

/-- Two prices more than a tick apart are rounded apart. -/
theorem floorToStep_lt_ceilToStep {tick bid ask : ℚ} (htick : RoundsApart tick)
    (hlt : bid < ask) (hgap : tick < ask - bid) :
    quoteFloorToStep bid tick < ceilToStep ask tick := by
  unfold quoteFloorToStep floorToStep ceilToStep
  by_cases hpos : tick ≤ 0
  · rw [if_pos hpos, if_pos hpos]
    exact hlt
  · rw [if_neg hpos, if_neg hpos]
    have hpos : 0 < tick := not_le.mp hpos
    refine htick _ _ hpos (Int.floor_lt_ceil_of_lt ?_)
    -- the nudges take two billionths of the tick from a gap of more than the tick
    have hnudged : bid + tick * (1 / 10 ^ 9) < ask - tick * (1 / 10 ^ 9) := by linarith
    exact div_lt_div_of_pos_right hnudged hpos

/-! ### The levels -/

namespace QuoteSurface

variable {rt : Runtime} {self : QuoteSurface} {request : Request}

/-- The bid of a level before it is rounded. -/
def rawBid (rt : Runtime) (self : QuoteSurface) (request : Request) (level : ℕ) : ℚ :=
  request.fair * rt.exp (-(self.halfSpreadBps / 10000 + level * (self.stepBps / 10000) +
    self.skewStrengthBps * request.inventorySkew / 10000))

/-- The ask of a level before it is rounded. -/
def rawAsk (rt : Runtime) (self : QuoteSurface) (request : Request) (level : ℕ) : ℚ :=
  request.fair * rt.exp (self.halfSpreadBps / 10000 + level * (self.stepBps / 10000) -
    self.skewStrengthBps * request.inventorySkew / 10000)

/-- The gap of the ladder: between the bid and the ask of the first level, unrounded. -/
def gap (rt : Runtime) (self : QuoteSurface) (request : Request) : ℚ :=
  self.rawAsk rt request 0 - self.rawBid rt request 0

theorem rawBid_le (hexp : Monotone rt.exp) (hstep : 0 ≤ self.stepBps) (hfair : 0 < request.fair)
    (level : ℕ) : self.rawBid rt request level ≤ self.rawBid rt request 0 := by
  unfold rawBid
  refine mul_le_mul_of_nonneg_left (hexp ?_) hfair.le
  have hlevel : 0 ≤ (level : ℚ) * (self.stepBps / 10000) := by positivity
  push_cast
  linarith

theorem le_rawAsk (hexp : Monotone rt.exp) (hstep : 0 ≤ self.stepBps) (hfair : 0 < request.fair)
    (level : ℕ) : self.rawAsk rt request 0 ≤ self.rawAsk rt request level := by
  unfold rawAsk
  refine mul_le_mul_of_nonneg_left (hexp ?_) hfair.le
  have hlevel : 0 ≤ (level : ℚ) * (self.stepBps / 10000) := by positivity
  push_cast
  linarith

theorem rawBid_lt_rawAsk (hexp : StrictMono rt.exp) (hhalf : 0 < self.halfSpreadBps)
    (hfair : 0 < request.fair) : self.rawBid rt request 0 < self.rawAsk rt request 0 := by
  unfold rawBid rawAsk
  refine mul_lt_mul_of_pos_left (hexp ?_) hfair
  have hdistance : 0 < self.halfSpreadBps / 10000 := by positivity
  push_cast
  linarith

/-- What a quote of a level is. -/
theorem mem_generateLevel {level : ℕ} {quote : Quote}
    (h : quote ∈ self.generateLevel rt request level) :
    quote.level = level ∧
      (quote.side = .buy →
        quote.price = quoteFloorToStep (self.rawBid rt request level) self.tickSize) ∧
      (quote.side = .sell →
        quote.price = ceilToStep (self.rawAsk rt request level) self.tickSize) := by
  unfold generateLevel at h
  dsimp only at h
  rcases List.mem_append.mp h with h | h
  · split at h
    · rw [List.mem_singleton.mp h]
      exact ⟨rfl, fun _ => rfl, fun hside => absurd hside (by simp)⟩
    · simp at h
  · split at h
    · rw [List.mem_singleton.mp h]
      exact ⟨rfl, fun hside => absurd hside (by simp), fun _ => rfl⟩
    · simp at h

/-- The quotes of a ladder are those of its levels, at a positive fair price and activation. -/
theorem mem_generate_iff {quote : Quote} :
    quote ∈ self.generate rt request ↔
      (0 < request.fair ∧ (0 < request.bidActivation ∨ 0 < request.askActivation)) ∧
        ∃ level < self.levels.toNat, quote ∈ self.generateLevel rt request level := by
  have hguard : (request.fair ≤ 0 ∨ (request.bidActivation ≤ 0 ∧ request.askActivation ≤ 0)) ↔
      ¬ (0 < request.fair ∧ (0 < request.bidActivation ∨ 0 < request.askActivation)) := by
    rw [not_and_or, not_or, not_lt, not_lt, not_lt]
  unfold generate
  rw [if_congr hguard rfl rfl]
  by_cases hquotes : 0 < request.fair ∧ (0 < request.bidActivation ∨ 0 < request.askActivation)
  · rw [if_neg (not_not.mpr hquotes)]
    simp [hquotes]
  · rw [if_pos hquotes]
    simp [hquotes]

/-- There are quotes at a positive fair price only. -/
theorem mem_generate {quote : Quote} (h : quote ∈ self.generate rt request) :
    0 < request.fair ∧ ∃ level, quote ∈ self.generateLevel rt request level := by
  obtain ⟨⟨hfair, -⟩, level, -, hquote⟩ := mem_generate_iff.mp h
  exact ⟨hfair, level, hquote⟩

/-- A level has one quote on a side at most. -/
theorem nodup_keys_generateLevel (level : ℕ) :
    ((self.generateLevel rt request level).map Quote.key).Nodup := by
  unfold generateLevel
  dsimp only
  split <;> split <;> simp [Quote.key]

/-- **No two quotes of a ladder are filed under one key.** -/
theorem nodup_keys_generate : ((self.generate rt request).map Quote.key).Nodup := by
  unfold generate
  by_cases hquotes : request.fair ≤ 0 ∨ (request.bidActivation ≤ 0 ∧ request.askActivation ≤ 0)
  · rw [if_pos hquotes]
    exact List.nodup_nil
  · rw [if_neg hquotes, List.map_flatMap, List.nodup_flatMap]
    refine ⟨fun level _ => nodup_keys_generateLevel level, ?_⟩
    refine List.nodup_range.imp fun {i j} hij => ?_
    intro key hi hj
    obtain ⟨a, ha, rfl⟩ := List.mem_map.mp hi
    obtain ⟨b, hb, hkey⟩ := List.mem_map.mp hj
    have hlevel : b.level = a.level := congrArg Prod.snd hkey
    rw [(mem_generateLevel ha).1, (mem_generateLevel hb).1] at hlevel
    exact hij hlevel.symm

/--
**One ladder does not cross itself**, where its gap is larger than the tick and the tick
keeps its multiples apart.
-/
theorem generate_apart (hexp : StrictMono rt.exp) (hhalf : 0 < self.halfSpreadBps)
    (hstep : 0 ≤ self.stepBps) (hgap : self.tickSize < self.gap rt request)
    (htick : RoundsApart self.tickSize) {bid ask : Quote}
    (hbid : bid ∈ self.generate rt request) (hask : ask ∈ self.generate rt request)
    (hbuy : bid.side = .buy) (hsell : ask.side = .sell) : bid.price < ask.price := by
  obtain ⟨hfair, i, hbid⟩ := mem_generate hbid
  obtain ⟨-, j, hask⟩ := mem_generate hask
  rw [(mem_generateLevel hbid).2.1 hbuy, (mem_generateLevel hask).2.2 hsell]
  have hdown := rawBid_le hexp.monotone hstep hfair i
  have hup := le_rawAsk hexp.monotone hstep hfair j
  have hfirst := rawBid_lt_rawAsk hexp hhalf hfair
  unfold gap at hgap
  refine floorToStep_lt_ceilToStep htick ?_ ?_
  · linarith
  · linarith

end QuoteSurface

end GhostAmm
