/-
The private client (`exchange/bitbank_private.py`).

It never reaches the exchange: what comes back for an order is the event that says what the
gates made of it.
-/
import GhostAmm.Model.LiveGates

namespace GhostAmm

structure BitbankPrivateClient where
  config : Config

/--
`create_spot_limit_order`.  No mapping is passed for the environment, and `nowMs` is the clock,
`now_ms()`.
-/
def BitbankPrivateClient.createSpotLimitOrder (rt : Runtime) (self : BitbankPrivateClient)
    (intent : OrderIntent) (pairSpec : Option BitbankPairSpec) (status : Option BitbankStatus)
    (book : Option OrderBook) (risk : RiskDecision) (clockDriftMs nowMs : ℚ) : Event :=
  let result := evaluateLiveOrderGates self.config intent pairSpec status book risk clockDriftMs
    (envOr rt.environ none)
  liveOrderBlockedEvent rt intent result nowMs

end GhostAmm
