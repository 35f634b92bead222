/-
What an order that passes the live gates has passed.

The chain of early returns is read back once: `Cleared` is everything the gates look at, and
an order is allowed exactly when it is `Cleared`.  What is documented asks for more in two
places.  The environment must be the mapping that was passed, and one without entries is
replaced by the environment of the process.  The order must stay behind the current book, and
a book that is missing, or stale, or empty on the other side is compared with nothing.
-/
import GhostAmm.Model.LiveGates

namespace GhostAmm

/-! ### The gates one by one -/

/-- An early return that was not taken. -/
private theorem allowed_ite {c : Prop} [Decidable c] {reason : String} {rest : LiveGateResult} :
    (if c then LiveGateResult.blocked reason else rest).allowed = true ↔
      ¬ c ∧ rest.allowed = true := by
  by_cases hc : c
  · simp [hc, LiveGateResult.blocked]
  · simp [hc]

/-- The acceptance value and both credentials are in the environment. -/
structure CredentialsIn (cfg : ExecutionConfig) (env : String → Option String) : Prop where
  acceptance : env cfg.liveEnvVarName = some cfg.liveEnvVarValue
  apiKey : ∃ key, env "BITBANK_API_KEY" = some key ∧ key ≠ ""
  apiSecret : ∃ secret, env "BITBANK_API_SECRET" = some secret ∧ secret ≠ ""

theorem envMissing_eq_false {env : String → Option String} {name : String} :
    envMissing env name = false ↔ ∃ value, env name = some value ∧ value ≠ "" := by
  unfold envMissing
  cases env name with
  | none => simp
  | some value => simp

/-- What `validate_order` lets through. -/
structure BitbankPairSpec.Accepts (spec : BitbankPairSpec) (side : Side) (price amount : ℚ) :
    Prop where
  name : spec.name = "btc_jpy"
  enabled : spec.isEnabled = true
  running : spec.stopOrder = false ∧ spec.stopOrderAndCancel = false
  sideOpen : (side = .buy → spec.stopBuyOrder = false) ∧ (side = .sell → spec.stopSellOrder = false)
  size : spec.unitAmount ≤ amount ∧ amount ≤ spec.limitMaxAmount
  sizePrecision : spec.roundAmount amount = amount
  pricePrecision : spec.roundPrice price = price

theorem BitbankPairSpec.validateOrder_eq_none {spec : BitbankPairSpec} {side : Side}
    {price amount : ℚ} :
    spec.validateOrder side price amount = none ↔ spec.Accepts side price amount := by
  have hstep : ∀ {c : Prop} [Decidable c] {reason : String} {rest : Option String},
      (if c then some reason else rest) = none ↔ ¬ c ∧ rest = none := by
    intro c _ reason rest
    by_cases hc : c
    · simp [hc]
    · simp [hc]
  unfold validateOrder
  simp only [hstep]
  constructor
  · rintro ⟨hname, henabled, hstop, hbuy, hsell, hmin, hmax, hsize, hprice, -⟩
    refine ⟨not_not.mp hname, by simpa using henabled, by simpa using hstop,
      ⟨fun h => ?_, fun h => ?_⟩, ⟨not_lt.mp hmin, not_lt.mp hmax⟩, not_not.mp hsize,
      not_not.mp hprice⟩
    · simpa using fun hstopped => hbuy ⟨h, hstopped⟩
    · simpa using fun hstopped => hsell ⟨h, hstopped⟩
  · rintro ⟨hname, henabled, hstop, ⟨hbuy, hsell⟩, ⟨hmin, hmax⟩, hsize, hprice⟩
    refine ⟨not_not.mpr hname, by simp [henabled], by simp [hstop], ?_, ?_, not_lt.mpr hmin,
      not_lt.mpr hmax, not_not.mpr hsize, not_not.mpr hprice, trivial⟩
    · rintro ⟨h, hstopped⟩
      simp [hbuy h] at hstopped
    · rintro ⟨h, hstopped⟩
      simp [hsell h] at hstopped

/-- The best price an order would trade against. -/
def OrderBook.oppositeBest (book : OrderBook) (side : Side) : Option ℚ :=
  match side with
  | .buy => book.bestAsk
  | .sell => book.bestBid

/-- On the passive side of a price, strictly. -/
def OrderIntent.PassiveAt (intent : OrderIntent) (best : ℚ) : Prop :=
  match intent.side with
  | .buy => intent.price < best
  | .sell => best < intent.price

theorem wouldCross_eq_false {intent : OrderIntent} {book : OrderBook} :
    wouldCross intent book = false ↔
      ∀ best, book.oppositeBest intent.side = some best → intent.PassiveAt best := by
  unfold wouldCross OrderBook.oppositeBest OrderIntent.PassiveAt
  cases hside : intent.side with
  | buy =>
      cases book.bestAsk with
      | none => simp
      | some ask => simp
  | sell =>
      cases book.bestBid with
      | none => simp
      | some bid => simp

/-! ### What is looked at -/

/-- The documented gates that depend on neither the environment nor the book. -/
structure StaticGates (cfg : Config) (intent : OrderIntent) (pairSpec : Option BitbankPairSpec)
    (status : Option BitbankStatus) (risk : RiskDecision) (clockDriftMs : ℚ) : Prop where
  mode : cfg.execution.mode = "live"
  venue : cfg.execution.venue = "bitbank" ∧ intent.venue = "bitbank"
  enabled : cfg.execution.enableLiveOrders = true
  pairSpec : ∃ spec, pairSpec = some spec ∧ spec.Accepts intent.side intent.price intent.amount
  status : ∃ s, status = some s ∧ s.isNormal = true
  drift : |clockDriftMs| ≤ cfg.bitbank.clockDriftLimitMs
  risk : risk.allowQuote = true ∧ (intent.side = .buy → risk.allowBuy = true) ∧
    (intent.side = .sell → risk.allowSell = true)
  postOnlyLimit : intent.orderType = "limit" ∧ intent.postOnly = true

/-- The confirmations the gates ask of the configuration beyond the documented ones. -/
structure Confirmed (cfg : ExecutionConfig) (intent : OrderIntent) : Prop where
  postOnlyOnly : cfg.postOnlyOnly = true
  managed : cfg.unmanagedOpenOrdersPresent = false
  noWithdrawal : cfg.confirmApiKeyNoWithdrawalPermission = true
  qualityGate : cfg.positiveQualityGatePassed = true
  pair : intent.pair = "btc_jpy"

/-- Everything the gates look at, with the environment and the book they look at. -/
structure Cleared (cfg : Config) (intent : OrderIntent) (pairSpec : Option BitbankPairSpec)
    (status : Option BitbankStatus) (book : Option OrderBook) (risk : RiskDecision)
    (clockDriftMs : ℚ) (env : String → Option String) : Prop where
  static : StaticGates cfg intent pairSpec status risk clockDriftMs
  confirmed : Confirmed cfg.execution intent
  credentials : CredentialsIn cfg.execution env
  behind : ∀ b, book = some b →
    ∀ best, b.oppositeBest intent.side = some best → intent.PassiveAt best

variable {cfg : Config} {intent : OrderIntent} {pairSpec : Option BitbankPairSpec}
  {status : Option BitbankStatus} {book : Option OrderBook} {risk : RiskDecision}
  {clockDriftMs : ℚ}

/-- What is allowed has come past each of the gates. -/
theorem cleared_of_allowed {env : String → Option String}
    (h : (evaluateLiveOrderGates cfg intent pairSpec status book risk clockDriftMs env).allowed
      = true) : Cleared cfg intent pairSpec status book risk clockDriftMs env := by
  unfold evaluateLiveOrderGates at h
  cases pairSpec with
  | none =>
      simp only [allowed_ite] at h
      obtain ⟨-, -, -, -, -, hblocked⟩ := h
      simp [LiveGateResult.blocked] at hblocked
  | some spec =>
      simp only [allowed_ite] at h
      obtain ⟨hmode, hvenue, henable, haccept, hkeys, hstatus, hpost, hmanaged, hwithdraw,
        hquality, hpair, -, -, -, -, hdrift, hrisk, hlimit, hbook, hvalid⟩ := h
      have haccepts : spec.Accepts intent.side intent.price intent.amount := by
        rw [← BitbankPairSpec.validateOrder_eq_none]
        split at hvalid
        · simp [LiveGateResult.blocked] at hvalid
        · assumption
      have hkeys' := (Bool.or_eq_false_iff.mp (Bool.eq_false_iff.mpr hkeys))
      refine ⟨⟨not_not.mp hmode, by simpa [not_or] using hvenue, by simpa using henable,
        ⟨spec, rfl, haccepts⟩, ?_, not_lt.mp hdrift, ?_, by simpa [not_or] using hlimit⟩,
        ⟨by simpa using hpost, by simpa using hmanaged, by simpa using hwithdraw,
          by simpa using hquality, ?_⟩,
        ⟨not_not.mp haccept, envMissing_eq_false.mp hkeys'.1, envMissing_eq_false.mp hkeys'.2⟩,
        ?_⟩
      · simpa [Option.any_eq_true] using hstatus
      · simpa [not_or] using hrisk
      · exact (not_or.mp hpair).1 |> not_not.mp
      · intro b hb
        rw [hb] at hbook
        exact wouldCross_eq_false.mp (by simpa using hbook)

/-- What passes all of it meets no gate that is closed. -/
theorem allowed_of_cleared {env : String → Option String}
    (h : Cleared cfg intent pairSpec status book risk clockDriftMs env) :
    (evaluateLiveOrderGates cfg intent pairSpec status book risk clockDriftMs env).allowed
      = true := by
  obtain ⟨⟨hmode, ⟨hvenue, hvenue'⟩, henable, ⟨spec, rfl, haccepts⟩, ⟨s, hs, hnormal⟩, hdrift,
    ⟨hquote, hbuy, hsell⟩, ⟨hlimit, hpostOnly⟩⟩, ⟨hpost, hmanaged, hwithdraw, hquality, hpair⟩,
    ⟨haccept, hkey, hsecret⟩, hbehind⟩ := h
  have hvalid := BitbankPairSpec.validateOrder_eq_none.mpr haccepts
  obtain ⟨hname, henabled, ⟨hstop, hstop'⟩, ⟨hstopBuy, hstopSell⟩, -, -, -⟩ := haccepts
  unfold evaluateLiveOrderGates
  simp only [allowed_ite]
  refine ⟨not_not.mpr hmode, by simp [hvenue, hvenue'], by simp [henable],
    not_not.mpr haccept, ?_, by simp [hs, hnormal], by simp [hpost], by simp [hmanaged],
    by simp [hwithdraw], by simp [hquality], by simp [hpair, hname], by simp [henabled],
    by simp [hstop, hstop'], ?_, ?_, not_lt.mpr hdrift, ?_, by simp [hlimit, hpostOnly], ?_,
    ?_⟩
  · rw [envMissing_eq_false.mpr hkey, envMissing_eq_false.mpr hsecret]
    simp
  · rintro ⟨hside, hstopped⟩
    simp [hstopBuy hside] at hstopped
  · rintro ⟨hside, hstopped⟩
    simp [hstopSell hside] at hstopped
  · rintro (hno | ⟨hside, hno⟩ | ⟨hside, hno⟩)
    · simp [hquote] at hno
    · simp [hbuy hside] at hno
    · simp [hsell hside] at hno
  · cases book with
    | none => simp
    | some b =>
        rw [Option.any_some, wouldCross_eq_false.mpr (hbehind b rfl)]
        simp
  · rw [hvalid]

/-- **An order is allowed exactly when it passes everything the gates look at.** -/
theorem allowed_iff_cleared {env : String → Option String} :
    (evaluateLiveOrderGates cfg intent pairSpec status book risk clockDriftMs env).allowed = true ↔
      Cleared cfg intent pairSpec status book risk clockDriftMs env :=
  ⟨cleared_of_allowed, allowed_of_cleared⟩

/-! ### What is documented -/

/-- A current book that quotes the side the order would trade against. -/
def BookShown (side : Side) (book : Option OrderBook) : Prop :=
  ∃ b best, book = some b ∧ b.stale = false ∧ b.oppositeBest side = some best

/-- The documented gates, for an environment that was passed as `env`. -/
structure DocumentedGates (cfg : Config) (intent : OrderIntent) (pairSpec : Option BitbankPairSpec)
    (status : Option BitbankStatus) (book : Option OrderBook) (risk : RiskDecision)
    (clockDriftMs : ℚ) (env : Environ) : Prop where
  static : StaticGates cfg intent pairSpec status risk clockDriftMs
  credentials : CredentialsIn cfg.execution fun name => (env.get? name).map Prod.snd
  behind : ∃ b best, book = some b ∧ b.stale = false ∧ b.oppositeBest intent.side = some best ∧
    intent.PassiveAt best

theorem envOr_nonempty {environ : String → Option String} {env : Environ} (h : env.rows ≠ []) :
    envOr environ (some env) = fun name => (env.get? name).map Prod.snd := by
  exact if_neg h

/-- A mapping without entries holds no credentials. -/
theorem CredentialsIn.nonempty {execution : ExecutionConfig} {env : Environ}
    (h : CredentialsIn execution fun name => (env.get? name).map Prod.snd) : env.rows ≠ [] := by
  intro hempty
  obtain ⟨key, hkey, -⟩ := h.apiKey
  simp [Py.Table.get?, hempty] at hkey

/--
**An allowed order passes every documented gate exactly where the passed environment has an
entry and a current book quotes the other side, or where something the gates do look at
stops the order anyway.**
-/
theorem live_gates_sound_iff (cfg : Config) (intent : OrderIntent)
    (pairSpec : Option BitbankPairSpec) (status : Option BitbankStatus) (book : Option OrderBook)
    (risk : RiskDecision) (clockDriftMs : ℚ) (env : Environ) (environ : String → Option String) :
    ((evaluateLiveOrderGates cfg intent pairSpec status book risk clockDriftMs
        (envOr environ (some env))).allowed = true →
      DocumentedGates cfg intent pairSpec status book risk clockDriftMs env) ↔
    (env.rows ≠ [] ∧ BookShown intent.side book) ∨
      ¬ Cleared cfg intent pairSpec status book risk clockDriftMs (envOr environ (some env)) := by
  rw [allowed_iff_cleared]
  constructor
  · intro h
    by_cases hcleared :
        Cleared cfg intent pairSpec status book risk clockDriftMs (envOr environ (some env))
    · have hgates := h hcleared
      obtain ⟨b, best, hbook, hfresh, hbest, -⟩ := hgates.behind
      exact Or.inl ⟨hgates.credentials.nonempty, b, best, hbook, hfresh, hbest⟩
    · exact Or.inr hcleared
  · intro h hcleared
    rcases h with ⟨hentries, b, best, hbook, hfresh, hbest⟩ | hstopped
    · have hcredentials := hcleared.credentials
      rw [envOr_nonempty hentries] at hcredentials
      exact ⟨hcleared.static, hcredentials,
        b, best, hbook, hfresh, hbest, hcleared.behind b hbook best hbest⟩
    · exact absurd hcleared hstopped

/-- A configuration in which live orders are enabled and every confirmation is given. -/
def enabledConfig : Config where
  execution :=
    { mode := "live", enableLiveOrders := true, confirmApiKeyNoWithdrawalPermission := true,
      positiveQualityGatePassed := true }

def smallBid : OrderIntent where
  venue := "bitbank"
  pair := "btc_jpy"
  symbol := "BTC/JPY"
  side := .buy
  price := 103
  amount := 1 / 1000
  clientOrderId := some "order-1"

/-- `fallback_btc_jpy_spec`. -/
def fallbackSpec : BitbankPairSpec where
  name := "btc_jpy"
  baseAsset := "btc"
  quoteAsset := "jpy"
  unitAmount := 1 / 10000
  limitMaxAmount := 1000
  priceDigits := 0
  amountDigits := 4

def accepting : Environ :=
  Py.Table.ofList
    [("GHOST_AMM_ENABLE_LIVE", "I_ACCEPT_RISK"), ("BITBANK_API_KEY", "k"),
      ("BITBANK_API_SECRET", "s")]

def normalStatus : BitbankStatus := ⟨"btc_jpy", "NORMAL", 1 / 10000⟩

def allowBoth : RiskDecision where
  allowQuote := true
  allowBuy := true
  allowSell := true
  maxOrderSize := 1 / 100

def askAt (price : ℚ) : OrderBook :=
  { asks := Py.Table.ofList [(price, 1)], stale := false, staleReason := none }

/--
An empty mapping is allowed on the strength of the environment of the process, and with no
book, a stale one or an empty one a bid is allowed at any price.
-/
theorem live_gates_skipped :
    let allowed (env : Environ) (book : Option OrderBook) :=
      (evaluateLiveOrderGates enabledConfig smallBid (some fallbackSpec) (some normalStatus) book
        allowBoth 0 (envOr (fun name => (accepting.get? name).map Prod.snd) (some env))).allowed
    let documented (env : Environ) (book : Option OrderBook) :=
      DocumentedGates enabledConfig smallBid (some fallbackSpec) (some normalStatus) book
        allowBoth 0 env
    (allowed Py.Table.empty (some (askAt 104)) = true ∧
        ¬ documented Py.Table.empty (some (askAt 104))) ∧
      (allowed accepting none = true ∧ ¬ documented accepting none) ∧
      (allowed accepting (some { askAt 104 with stale := true }) = true ∧
        ¬ documented accepting (some { askAt 104 with stale := true })) ∧
      (allowed accepting (some { askAt 104 with asks := Py.Table.empty }) = true ∧
        ¬ documented accepting (some { askAt 104 with asks := Py.Table.empty })) := by
  refine ⟨⟨by decide +kernel, fun h => ?_⟩, ⟨by decide +kernel, fun h => ?_⟩,
    ⟨by decide +kernel, fun h => ?_⟩, ⟨by decide +kernel, fun h => ?_⟩⟩
  · exact h.credentials.nonempty rfl
  · obtain ⟨b, best, hbook, -⟩ := h.behind
    simp at hbook
  · obtain ⟨b, best, hbook, hfresh, -⟩ := h.behind
    rw [← Option.some.inj hbook] at hfresh
    simp at hfresh
  · obtain ⟨b, best, hbook, -, hbest, -⟩ := h.behind
    rw [← Option.some.inj hbook] at hbest
    simp [OrderBook.oppositeBest, OrderBook.bestAsk, smallBid] at hbest

end GhostAmm
