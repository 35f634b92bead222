/-
The shock activator (`market/shock.py`).
-/
import GhostAmm.Model.Config
import GhostAmm.Model.OrderBook

namespace GhostAmm

/-- `ShockActivator`, less the settings its configuration section holds. -/
structure ShockActivator where
  /-- Time, taker side and notional of the trades in the window, oldest first. -/
  trades : List (ℚ × Option Side × ℚ) := []
  lastShockTs : Option ℚ := none
  lastShockEventId : Option String := none
  lastShockDirection : ShockDirection := .neutral

/-- `_pressure_direction`. -/
def pressureDirection (buy sell : ℚ) : ShockDirection :=
  if buy < sell then .sellShock else if sell < buy then .buyShock else .neutral

/-- `_side_activations`. -/
def sideActivations (activation : ℚ) (direction : ShockDirection) (oppositeRatio : ℚ) : ℚ × ℚ :=
  let opposite := max 0 (min 1 oppositeRatio) * activation
  match direction with
  | .sellShock => (activation, opposite)
  | .buyShock => (opposite, activation)
  | .neutral => (0, 0)

namespace ShockActivator

/-- Append the trade an event carries, then `_expire`. -/
def windowTrades (self : ShockActivator) (cfg : ShockConfig) (event : Event) :
    List (ℚ × Option Side × ℚ) :=
  let trades := match event.body with
    | .trade payload =>
        self.trades ++ [(event.tsExchange, payload.side, payload.price * payload.amount)]
    | _ => self.trades
  trades.dropWhile fun t => decide (cfg.forcedFlowWindowMs < event.tsExchange - t.1)

/-- The notional of the recorded trades of one taker side. -/
def notionalOf (trades : List (ℚ × Option Side × ℚ)) (side : Side) : ℚ :=
  ((trades.filter fun t => decide (t.2.1 = some side)).map fun t => t.2.2).sum

/-- Whether a new shock may be announced at `now`. -/
def mayAnnounce (self : ShockActivator) (cfg : ShockConfig) (now : ℚ) : Bool :=
  match self.lastShockTs with
  | none => true
  | some ts => decide (cfg.forcedFlowWindowMs < now - ts)

/-- `update`: the state, the shock state it reports and the `forced_flow` it announces. -/
def update (rt : Runtime) (cfg : ShockConfig) (self : ShockActivator) (event : Event)
    (book : OrderBook) (fairState : FairPriceState) :
    ShockActivator × ShockState × Option Event :=
  let now := event.tsExchange
  let trades := self.windowTrades cfg event
  let buy := notionalOf trades .buy
  let sell := notionalOf trades .sell
  let depth := book.depthAroundMid cfg.depthBps
  let pressure := max buy sell
  let forceRatio := pressure / max depth 1
  let observed := pressureDirection buy sell
  let shockEvent : Option Event :=
    if cfg.threshold ≤ forceRatio ∧ self.mayAnnounce cfg now = true then
      some (makeEvent rt (.forcedFlow ⟨forceRatio, buy, sell, depth, observed, true⟩)
        now event.venue event.symbol event.sequence)
    else none
  let self : ShockActivator := match shockEvent with
    | some shock =>
        { trades := trades, lastShockTs := some now, lastShockEventId := some shock.eventId,
          lastShockDirection := observed }
    | none => { self with trades := trades }
  let age := self.lastShockTs.map fun ts => now - ts
  let (activation, direction, reason) : ℚ × ShockDirection × String :=
    match age with
    | none => (0, .neutral, "no_recent_shock")
    | some age =>
        if age < cfg.minimumWaitAfterShockMs then
          (0, self.lastShockDirection, "waiting_after_shock")
        else
          let raw := 1 / (1 + rt.exp (-cfg.temperature * (forceRatio - cfg.threshold)))
          let decay := rt.exp (-age / max cfg.activationDecayMs 1)
          (max 0 (min 1 (raw * decay)), self.lastShockDirection, "aftershock_rebuild")
  let (activation, direction, reason) : ℚ × ShockDirection × String :=
    if fairState.isValid then (activation, direction, reason)
    else (0, .neutral, Py.textOr fairState.reason "invalid_fair")
  let sides := sideActivations activation direction cfg.oppositeSideActivationRatio
  (self,
   { activation := activation, forceRatio := forceRatio, recentTakerBuyNotional := buy,
     recentTakerSellNotional := sell, depth20bps := depth, lastShockTs := self.lastShockTs,
     reason := some reason, direction := direction, bidActivation := sides.1,
     askActivation := sides.2, lastShockEventId := self.lastShockEventId, shockAgeMs := age },
   shockEvent)

end ShockActivator

end GhostAmm
