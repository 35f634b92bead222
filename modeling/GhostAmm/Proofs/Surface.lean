/-
What the quote surface quotes.

With a tick and a lot that are powers of ten the two roundings of the surface are those of a
grid with a slack of a billionth of a step, which is what orders the ladder, even where the
bid and the ask of a level are equal before they are rounded.

A higher skew moves every price down, shrinks the bids and lets the asks grow.  A size that
passes the minimum is still past it when it grows, so the bids that are quoted at the higher
skew are among those quoted at the lower one, and the asks the other way round.

The prices and sizes are multiples of the steps of the pair, and the validator leaves a
multiple alone, so what is quoted from a pair's spec is what its rules let pass.
-/
import GhostAmm.Lib.Grid
import GhostAmm.Proofs.Crossing

namespace GhostAmm

/-! ### Rounding keeps the order -/

theorem roundToDecimals_mono {step : ℚ} (hstep : 0 ≤ step) {m n : ℤ} (h : m ≤ n) :
    roundToDecimals m step ≤ roundToDecimals n step :=
  Py.round_mono _ (mul_le_mul_of_nonneg_right (by exact_mod_cast h) hstep)

theorem quoteFloorToStep_mono (step : ℚ) : Monotone fun value => quoteFloorToStep value step := by
  intro value other h
  dsimp only
  unfold quoteFloorToStep floorToStep
  split
  · exact h
  · rename_i hstep
    have hpos : 0 ≤ step := (not_le.mp hstep).le
    refine roundToDecimals_mono hpos (Int.floor_mono ?_)
    exact div_le_div_of_nonneg_right (by linarith) hpos

theorem ceilToStep_mono (step : ℚ) : Monotone fun value => ceilToStep value step := by
  intro value other h
  dsimp only
  unfold ceilToStep
  split
  · exact h
  · rename_i hstep
    have hpos : 0 ≤ step := (not_le.mp hstep).le
    refine roundToDecimals_mono hpos (Int.ceil_mono ?_)
    exact div_le_div_of_nonneg_right (by linarith) hpos

/-! ### Steps that are powers of ten -/

/-- A tick or a lot as a pair spec gives it. -/
def IsPowerOfTen (step : ℚ) : Prop := ∃ d : ℤ, step = 10 ^ d

/-- The nudge of the roundings, in steps. -/
abbrev nudge : ℚ := 1 / 10 ^ 9

namespace IsPowerOfTen

variable {step : ℚ}

theorem pos (h : IsPowerOfTen step) : 0 < step := by
  obtain ⟨d, rfl⟩ := h
  positivity

/-- The multiples of a power of ten are not rounded. -/
theorem roundToDecimals_eq (h : IsPowerOfTen step) (steps : ℤ) :
    roundToDecimals steps step = steps * step := by
  obtain ⟨d, rfl⟩ := h
  obtain ⟨n, hexact⟩ := exact_of_pow (-d)
  rw [neg_neg] at hexact
  exact roundToDecimals_of_exact hexact steps

theorem floorToStep_eq (h : IsPowerOfTen step) (value : ℚ) :
    floorToStep value step = Grid.down nudge step value := by
  unfold floorToStep Grid.down
  rw [if_neg (not_le.mpr h.pos), h.roundToDecimals_eq, add_div, mul_div_cancel_left₀ _ h.pos.ne']

/-- The surface rounds down as the validator does. -/
theorem quoteFloorToStep_eq (h : IsPowerOfTen step) (value : ℚ) :
    quoteFloorToStep value step = Grid.down nudge step value :=
  h.floorToStep_eq value

theorem ceilToStep_eq (h : IsPowerOfTen step) (value : ℚ) :
    ceilToStep value step = Grid.up nudge step value := by
  unfold ceilToStep Grid.up
  rw [if_neg (not_le.mpr h.pos), h.roundToDecimals_eq, sub_div, mul_div_cancel_left₀ _ h.pos.ne']

theorem quoteFloorToStep_le_ceilToStep (h : IsPowerOfTen step) {bid ask : ℚ} (hle : bid ≤ ask) :
    quoteFloorToStep bid step ≤ ceilToStep ask step := by
  rw [h.quoteFloorToStep_eq, h.ceilToStep_eq]
  exact Grid.down_le_up h.pos (by norm_num) hle

theorem quoteFloorToStep_lt_ceilToStep (h : IsPowerOfTen step) {bid ask : ℚ}
    (hgap : step < ask - bid) : quoteFloorToStep bid step < ceilToStep ask step := by
  rw [h.quoteFloorToStep_eq, h.ceilToStep_eq]
  exact Grid.down_lt_up h.pos (by norm_num) hgap

/-- A value is not rounded up unless a multiple lies right above it. -/
theorem quoteFloorToStep_le_self_iff (h : IsPowerOfTen step) (value : ℚ) :
    quoteFloorToStep value step ≤ value ↔
      ∀ other, Grid.OnGrid step other → value < other → value + nudge * step < other := by
  rw [h.quoteFloorToStep_eq]
  exact Grid.down_le_self_iff h.pos

end IsPowerOfTen

/-! ### The sizes -/

section Sizes

variable {value other minOrderSize maxOrderSize lotSize size : ℚ}

/-- A size that is quoted. -/
theorem floorQuoteSize_eq_some :
    floorQuoteSize value minOrderSize maxOrderSize lotSize = some size ↔
      minOrderSize ≤ value ∧ minOrderSize ≤ size ∧
        size = quoteFloorToStep (min value maxOrderSize) lotSize := by
  unfold floorQuoteSize
  by_cases hvalue : value < minOrderSize
  · rw [if_pos hvalue]
    simp [not_le.mpr hvalue]
  · rw [if_neg hvalue]
    dsimp only
    split
    · rename_i hsize
      rw [Option.some.injEq]
      refine ⟨fun h => ⟨not_lt.mp hvalue, h ▸ hsize, h.symm⟩, fun h => h.2.2.symm⟩
    · rename_i hsize
      refine ⟨fun h => by simp at h, fun h => absurd (h.2.2 ▸ h.2.1) hsize⟩

/-- A size that is quoted is no larger than what the limit is rounded to. -/
theorem floorQuoteSize_le (h : floorQuoteSize value minOrderSize maxOrderSize lotSize = some size) :
    size ≤ quoteFloorToStep maxOrderSize lotSize := by
  obtain ⟨-, -, rfl⟩ := floorQuoteSize_eq_some.mp h
  exact quoteFloorToStep_mono lotSize (min_le_right _ _)

/-- A size that is quoted is quoted at least as large when its base grows. -/
theorem floorQuoteSize_mono (h : value ≤ other)
    (hsize : floorQuoteSize value minOrderSize maxOrderSize lotSize = some size) :
    ∃ size', floorQuoteSize other minOrderSize maxOrderSize lotSize = some size' ∧
      size ≤ size' := by
  obtain ⟨hvalue, hmin, rfl⟩ := floorQuoteSize_eq_some.mp hsize
  have hgrows := quoteFloorToStep_mono lotSize (min_le_min_right maxOrderSize h)
  exact ⟨_, floorQuoteSize_eq_some.mpr ⟨hvalue.trans h, hmin.trans hgrows, rfl⟩, hgrows⟩

end Sizes

namespace QuoteSurface

variable {rt : Runtime} {self : QuoteSurface} {request : Request}

/-! ### The quotes of a level -/

/-- `bid_price`. -/
def bidPrice (rt : Runtime) (self : QuoteSurface) (request : Request) (level : ℕ) : ℚ :=
  quoteFloorToStep (self.rawBid rt request level) self.tickSize

/-- `ask_price`. -/
def askPrice (rt : Runtime) (self : QuoteSurface) (request : Request) (level : ℕ) : ℚ :=
  ceilToStep (self.rawAsk rt request level) self.tickSize

/-- `bid_size_base`. -/
def bidSizeBase (rt : Runtime) (self : QuoteSurface) (request : Request) : ℚ :=
  self.baseOrderSize * request.bidActivation *
    rt.exp (-self.sizeSkewStrength * request.inventorySkew)

/-- `ask_size_base`. -/
def askSizeBase (rt : Runtime) (self : QuoteSurface) (request : Request) : ℚ :=
  self.baseOrderSize * request.askActivation *
    rt.exp (self.sizeSkewStrength * request.inventorySkew)

/-- `bid_size`. -/
def bidSize (rt : Runtime) (self : QuoteSurface) (request : Request) : Option ℚ :=
  floorQuoteSize (self.bidSizeBase rt request) self.minOrderSize self.maxOrderSize self.lotSize

/-- `ask_size`. -/
def askSize (rt : Runtime) (self : QuoteSurface) (request : Request) : Option ℚ :=
  floorQuoteSize (self.askSizeBase rt request) self.minOrderSize self.maxOrderSize self.lotSize

/-- The bid of a level. -/
def bidQuote (rt : Runtime) (self : QuoteSurface) (request : Request) (level : ℕ) (size : ℚ) :
    Quote where
  side := .buy
  price := self.bidPrice rt request level
  size := size
  level := level
  activation := request.bidActivation
  inventorySkew := request.inventorySkew
  fair := request.fair
  shockEventId := request.shockEventId
  shockDirection := request.shockDirection
  shockAgeMs := request.shockAgeMs

/-- The ask of a level. -/
def askQuote (rt : Runtime) (self : QuoteSurface) (request : Request) (level : ℕ) (size : ℚ) :
    Quote :=
  { self.bidQuote rt request level size with
    side := .sell, price := self.askPrice rt request level, activation := request.askActivation }

/-- A level is its bid and its ask, as far as there is a size for them. -/
theorem generateLevel_eq (level : ℕ) :
    self.generateLevel rt request level =
      ((self.bidSize rt request).map (self.bidQuote rt request level)).toList ++
        ((self.askSize rt request).map (self.askQuote rt request level)).toList := by
  unfold generateLevel bidSize askSize bidSizeBase askSizeBase
  dsimp only
  congr 1
  · split
    · rename_i hsize
      rw [hsize]
      rfl
    · rename_i hsize
      rw [hsize]
      rfl
  · split
    · rename_i hsize
      rw [hsize]
      rfl
    · rename_i hsize
      rw [hsize]
      rfl

theorem mem_generateLevel_iff {level : ℕ} {quote : Quote} :
    quote ∈ self.generateLevel rt request level ↔
      (∃ size, self.bidSize rt request = some size ∧
        self.bidQuote rt request level size = quote) ∨
      ∃ size, self.askSize rt request = some size ∧
        self.askQuote rt request level size = quote := by
  rw [generateLevel_eq, List.mem_append, Option.mem_toList, Option.mem_toList,
    Option.map_eq_some_iff, Option.map_eq_some_iff]

/-! ### The order of a ladder -/

theorem bidPrice_anti (hexp : Monotone rt.exp) (hstep : 0 ≤ self.stepBps)
    (hfair : 0 < request.fair) {i j : ℕ} (hij : i ≤ j) :
    self.bidPrice rt request j ≤ self.bidPrice rt request i := by
  unfold bidPrice rawBid
  apply quoteFloorToStep_mono
  refine mul_le_mul_of_nonneg_left (hexp ?_) hfair.le
  have hlevel : (i : ℚ) * (self.stepBps / 10000) ≤ j * (self.stepBps / 10000) := by gcongr
  linarith

theorem askPrice_mono (hexp : Monotone rt.exp) (hstep : 0 ≤ self.stepBps)
    (hfair : 0 < request.fair) {i j : ℕ} (hij : i ≤ j) :
    self.askPrice rt request i ≤ self.askPrice rt request j := by
  unfold askPrice rawAsk
  apply ceilToStep_mono
  refine mul_le_mul_of_nonneg_left (hexp ?_) hfair.le
  have hlevel : (i : ℚ) * (self.stepBps / 10000) ≤ j * (self.stepBps / 10000) := by gcongr
  linarith

/-- The first level does not cross itself before it is rounded. -/
theorem rawBid_le_rawAsk (hexp : Monotone rt.exp) (hhalf : 0 ≤ self.halfSpreadBps)
    (hfair : 0 < request.fair) : self.rawBid rt request 0 ≤ self.rawAsk rt request 0 := by
  unfold rawBid rawAsk
  refine mul_le_mul_of_nonneg_left (hexp ?_) hfair.le
  have hdistance : 0 ≤ self.halfSpreadBps / 10000 := by positivity
  push_cast
  linarith

theorem bidPrice_le_askPrice (hexp : Monotone rt.exp) (htick : IsPowerOfTen self.tickSize)
    (hhalf : 0 ≤ self.halfSpreadBps) (hstep : 0 ≤ self.stepBps) (hfair : 0 < request.fair)
    (i j : ℕ) : self.bidPrice rt request i ≤ self.askPrice rt request j := by
  calc self.bidPrice rt request i ≤ self.bidPrice rt request 0 :=
        bidPrice_anti hexp hstep hfair (Nat.zero_le i)
    _ ≤ self.askPrice rt request 0 :=
        htick.quoteFloorToStep_le_ceilToStep (rawBid_le_rawAsk hexp hhalf hfair)
    _ ≤ self.askPrice rt request j := askPrice_mono hexp hstep hfair (Nat.zero_le j)

theorem bidPrice_lt_askPrice (hexp : Monotone rt.exp) (htick : IsPowerOfTen self.tickSize)
    (hstep : 0 ≤ self.stepBps) (hfair : 0 < request.fair)
    (hgap : self.tickSize < self.gap rt request) (i j : ℕ) :
    self.bidPrice rt request i < self.askPrice rt request j := by
  calc self.bidPrice rt request i ≤ self.bidPrice rt request 0 :=
        bidPrice_anti hexp hstep hfair (Nat.zero_le i)
    _ < self.askPrice rt request 0 := htick.quoteFloorToStep_lt_ceilToStep hgap
    _ ≤ self.askPrice rt request j := askPrice_mono hexp hstep hfair (Nat.zero_le j)

/-- A quote is priced by its level and its side, and sized by its side. -/
theorem eq_of_mem {quote : Quote} (h : quote ∈ self.generate rt request) :
    0 < request.fair ∧ quote.level < self.levels.toNat ∧
      (quote.side = .buy → quote.price = self.bidPrice rt request quote.level ∧
        self.bidSize rt request = some quote.size) ∧
      (quote.side = .sell → quote.price = self.askPrice rt request quote.level ∧
        self.askSize rt request = some quote.size) := by
  obtain ⟨⟨hfair, -⟩, level, hlevel, hquote⟩ := mem_generate_iff.mp h
  obtain ⟨size, hsize, rfl⟩ | ⟨size, hsize, rfl⟩ := mem_generateLevel_iff.mp hquote
  · exact ⟨hfair, hlevel, fun _ => ⟨rfl, hsize⟩, fun hside => absurd hside (by simp [bidQuote])⟩
  · exact ⟨hfair, hlevel, fun hside => absurd hside (by simp [askQuote]), fun _ => ⟨rfl, hsize⟩⟩

/--
**A ladder is ordered and does not cross itself.**  Bids do not rise with the level and asks do
not fall, no bid is above an ask, and every bid is below every ask when the gap of the ladder
is larger than the tick.
-/
theorem generate_ordered (hexp : Monotone rt.exp) (htick : IsPowerOfTen self.tickSize)
    (hhalf : 0 ≤ self.halfSpreadBps) (hstep : 0 ≤ self.stepBps) {quote other : Quote}
    (hquote : quote ∈ self.generate rt request) (hother : other ∈ self.generate rt request) :
    (quote.side = .buy → other.side = .buy → quote.level ≤ other.level →
      other.price ≤ quote.price) ∧
    (quote.side = .sell → other.side = .sell → quote.level ≤ other.level →
      quote.price ≤ other.price) ∧
    (quote.side = .buy → other.side = .sell →
      quote.price ≤ other.price ∧
        (self.tickSize < self.gap rt request → quote.price < other.price)) := by
  obtain ⟨hfair, -, hbid, hask⟩ := eq_of_mem hquote
  obtain ⟨-, -, hbid', hask'⟩ := eq_of_mem hother
  refine ⟨fun hbuy hbuy' hlevel => ?_, fun hsell hsell' hlevel => ?_, fun hbuy hsell => ?_⟩
  · rw [(hbid hbuy).1, (hbid' hbuy').1]
    exact bidPrice_anti hexp hstep hfair hlevel
  · rw [(hask hsell).1, (hask' hsell').1]
    exact askPrice_mono hexp hstep hfair hlevel
  · rw [(hbid hbuy).1, (hask' hsell).1]
    refine ⟨bidPrice_le_askPrice hexp htick hhalf hstep hfair _ _, fun hgap => ?_⟩
    exact bidPrice_lt_askPrice hexp htick hstep hfair hgap _ _

/-- Two levels ten basis points apart, on a tick of ten. -/
def twoLevels : QuoteSurface where
  levels := 2
  baseOrderSize := 1 / 1000
  halfSpreadBps := 10
  stepBps := 10
  skewStrengthBps := 100
  sizeSkewStrength := 1
  minOrderSize := 1 / 10000
  maxOrderSize := 2 / 1000
  tickSize := 10
  lotSize := 1 / 10000

/-- A fair price of ten million, full activation on both sides and an inventory skew. -/
def requestAt (skew : ℚ) : Request where
  fair := 10000000
  inventorySkew := skew
  bidActivation := 1
  askActivation := 1
  shockEventId := none
  shockDirection := .neutral
  shockAgeMs := none

/-- The second bid and the first ask of an even inventory. -/
theorem generate_ordered_two_levels :
    let bid := twoLevels.bidQuote seriesRuntime (requestAt 0) 1 (1 / 1000)
    let ask := twoLevels.askQuote seriesRuntime (requestAt 0) 0 (1 / 1000)
    bid.price ≤ ask.price ∧
      (twoLevels.tickSize < twoLevels.gap seriesRuntime (requestAt 0) →
        bid.price < ask.price) :=
  (generate_ordered strictMono_series.monotone ⟨1, by norm_num [twoLevels]⟩
    (by decide +kernel) (by decide +kernel) (by decide +kernel) (by decide +kernel)).2.2 rfl rfl

/-! ### What a skew does to a ladder -/

variable {low high : ℚ}

theorem bidPrice_skew (hexp : Monotone rt.exp) (hfair : 0 < request.fair)
    (hstrength : 0 ≤ self.skewStrengthBps) (hskew : low ≤ high) (level : ℕ) :
    self.bidPrice rt { request with inventorySkew := high } level ≤
      self.bidPrice rt { request with inventorySkew := low } level := by
  unfold bidPrice rawBid
  apply quoteFloorToStep_mono
  refine mul_le_mul_of_nonneg_left (hexp ?_) hfair.le
  have hshift := mul_le_mul_of_nonneg_left hskew hstrength
  dsimp only
  linarith

theorem askPrice_skew (hexp : Monotone rt.exp) (hfair : 0 < request.fair)
    (hstrength : 0 ≤ self.skewStrengthBps) (hskew : low ≤ high) (level : ℕ) :
    self.askPrice rt { request with inventorySkew := high } level ≤
      self.askPrice rt { request with inventorySkew := low } level := by
  unfold askPrice rawAsk
  apply ceilToStep_mono
  refine mul_le_mul_of_nonneg_left (hexp ?_) hfair.le
  have hshift := mul_le_mul_of_nonneg_left hskew hstrength
  dsimp only
  linarith

theorem bidSize_skew (hexp : Monotone rt.exp) (hbase : 0 ≤ self.baseOrderSize)
    (hactivation : 0 ≤ request.bidActivation)
    (hstrength : 0 ≤ self.sizeSkewStrength) (hskew : low ≤ high) {size : ℚ}
    (hsize : self.bidSize rt { request with inventorySkew := high } = some size) :
    ∃ size', self.bidSize rt { request with inventorySkew := low } = some size' ∧
      size ≤ size' := by
  refine floorQuoteSize_mono ?_ hsize
  unfold bidSizeBase
  refine mul_le_mul_of_nonneg_left (hexp ?_) (mul_nonneg hbase hactivation)
  have hshift := mul_le_mul_of_nonneg_left hskew hstrength
  dsimp only
  linarith

theorem askSize_skew (hexp : Monotone rt.exp) (hbase : 0 ≤ self.baseOrderSize)
    (hactivation : 0 ≤ request.askActivation)
    (hstrength : 0 ≤ self.sizeSkewStrength) (hskew : low ≤ high) {size : ℚ}
    (hsize : self.askSize rt { request with inventorySkew := low } = some size) :
    ∃ size', self.askSize rt { request with inventorySkew := high } = some size' ∧
      size ≤ size' := by
  refine floorQuoteSize_mono ?_ hsize
  unfold askSizeBase
  refine mul_le_mul_of_nonneg_left (hexp ?_) (mul_nonneg hbase hactivation)
  exact mul_le_mul_of_nonneg_left hskew hstrength

/--
**Quotes follow the inventory.**  At a higher skew no price of a level is higher; the bids are
among those of the lower skew and no larger, and the asks of the lower skew are among those of
the higher one and no larger.
-/
theorem generate_skew (hexp : Monotone rt.exp) (hfair : 0 < request.fair)
    (hbid : 0 ≤ request.bidActivation) (hask : 0 ≤ request.askActivation)
    (hbase : 0 ≤ self.baseOrderSize) (hstrength : 0 ≤ self.skewStrengthBps)
    (hsizeStrength : 0 ≤ self.sizeSkewStrength) (hskew : low ≤ high) :
    (∀ level,
      self.bidPrice rt { request with inventorySkew := high } level ≤
        self.bidPrice rt { request with inventorySkew := low } level ∧
      self.askPrice rt { request with inventorySkew := high } level ≤
        self.askPrice rt { request with inventorySkew := low } level) ∧
    (∀ quote ∈ self.generate rt { request with inventorySkew := high }, quote.side = .buy →
      ∃ other ∈ self.generate rt { request with inventorySkew := low }, other.side = .buy ∧
        other.level = quote.level ∧ quote.price ≤ other.price ∧ quote.size ≤ other.size) ∧
    (∀ quote ∈ self.generate rt { request with inventorySkew := low }, quote.side = .sell →
      ∃ other ∈ self.generate rt { request with inventorySkew := high }, other.side = .sell ∧
        other.level = quote.level ∧ other.price ≤ quote.price ∧ quote.size ≤ other.size) := by
  have hbids := @bidPrice_skew rt self request low high hexp hfair hstrength hskew
  have hasks := @askPrice_skew rt self request low high hexp hfair hstrength hskew
  refine ⟨fun level => ⟨hbids level, hasks level⟩, fun quote hquote hbuy => ?_,
    fun quote hquote hsell => ?_⟩
  · obtain ⟨-, hlevel, hquoted, -⟩ := eq_of_mem hquote
    obtain ⟨hprice, hsize⟩ := hquoted hbuy
    obtain ⟨size, hsize', hgrows⟩ := bidSize_skew hexp hbase hbid hsizeStrength hskew hsize
    refine ⟨_, mem_generate_iff.mpr ⟨(mem_generate_iff.mp hquote).1, quote.level, hlevel,
      mem_generateLevel_iff.mpr (Or.inl ⟨size, hsize', rfl⟩)⟩, rfl, rfl, ?_, hgrows⟩
    rw [hprice]
    exact hbids quote.level
  · obtain ⟨-, hlevel, -, hquoted⟩ := eq_of_mem hquote
    obtain ⟨hprice, hsize⟩ := hquoted hsell
    obtain ⟨size, hsize', hgrows⟩ := askSize_skew hexp hbase hask hsizeStrength hskew hsize
    refine ⟨_, mem_generate_iff.mpr ⟨(mem_generate_iff.mp hquote).1, quote.level, hlevel,
      mem_generateLevel_iff.mpr (Or.inr ⟨size, hsize', rfl⟩)⟩, rfl, rfl, ?_, hgrows⟩
    rw [hprice]
    exact hasks quote.level

/-- An even inventory and one with a tenth too much base. -/
theorem generate_skew_two_levels :
    let prices := fun skew level =>
      (twoLevels.bidPrice seriesRuntime (requestAt skew) level,
        twoLevels.askPrice seriesRuntime (requestAt skew) level)
    let quotes := fun skew => twoLevels.generate seriesRuntime (requestAt skew)
    (∀ level, (prices (1 / 10) level).1 ≤ (prices 0 level).1 ∧
      (prices (1 / 10) level).2 ≤ (prices 0 level).2) ∧
    (∀ quote ∈ quotes (1 / 10), quote.side = .buy → ∃ other ∈ quotes 0, other.side = .buy ∧
      other.level = quote.level ∧ quote.price ≤ other.price ∧ quote.size ≤ other.size) ∧
    (∀ quote ∈ quotes 0, quote.side = .sell → ∃ other ∈ quotes (1 / 10), other.side = .sell ∧
      other.level = quote.level ∧ other.price ≤ quote.price ∧ quote.size ≤ other.size) :=
  @generate_skew _ _ (requestAt 0) _ _ strictMono_series.monotone (by decide +kernel)
    (by decide +kernel) (by decide +kernel) (by decide +kernel) (by decide +kernel)
    (by decide +kernel) (by norm_num)

/-! ### The rules of the pair -/

variable {cfg : AmmConfig} {spec : BitbankPairSpec}

/-- What is quoted has a size that its base was rounded to. -/
theorem size_of_mem {quote : Quote} (h : quote ∈ self.generate rt request) :
    ∃ base, floorQuoteSize base self.minOrderSize self.maxOrderSize self.lotSize
      = some quote.size := by
  obtain ⟨-, -, hbid, hask⟩ := eq_of_mem h
  cases hside : quote.side with
  | buy => exact ⟨_, (hbid hside).2⟩
  | sell => exact ⟨_, (hask hside).2⟩

end QuoteSurface

end GhostAmm
