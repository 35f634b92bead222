/-
The configuration as it is read (`config.py`).

A configuration is a tree of dictionaries: the defaults with the user's tree merged into it key
by key.  Two dictionaries under one key are merged in turn, and anything else of the user's takes
the place of what is there, whatever either of them is.
-/
import GhostAmm.Lib.Tree

namespace GhostAmm

open Py (Json)

/-- `DEFAULT_CONFIG`. -/
def defaultConfig : List (String × Json) := [
  ("symbol", .str "BTC/JPY"),
  ("venue", .str "synthetic_bitbank"),
  ("market_type", .str "spot"),
  ("pair", .str "btc_jpy"),
  ("replay", .obj [
    ("order", .str "arrival_order"),
    ("strict_sequence", .bool true),
    ("allow_exchange_time_sort", .bool false)]),
  ("bitbank", .obj [
    ("public_ws_url", .str "wss://stream.bitbank.cc/socket.io/?EIO=4&transport=websocket"),
    ("public_rest_url", .str "https://public.bitbank.cc"),
    ("private_rest_url", .str "https://api.bitbank.cc/v1"),
    ("pair", .str "btc_jpy"),
    ("channels", .arr [.str "ticker_btc_jpy", .str "transactions_btc_jpy",
      .str "depth_whole_btc_jpy", .str "depth_diff_btc_jpy"]),
    ("require_status_normal", .bool true),
    ("require_post_only", .bool true),
    ("sequence_policy", .str "monotonic_not_consecutive"),
    ("block_on_crossed_book", .bool true),
    ("clock_drift_limit_ms", .int 1000)]),
  ("ccxt", .obj [
    ("enabled", .bool true),
    ("exchange_id", .str "bitbank"),
    ("public_rest_only_in_mvp", .bool true),
    ("allow_private_calls", .bool false),
    ("allow_order_submission", .bool false),
    ("forbid_withdrawal_methods", .bool true)]),
  ("execution", .obj [
    ("mode", .str "replay"),
    ("venue", .str "bitbank"),
    ("enable_live_orders", .bool false),
    ("post_only_only", .bool true),
    ("unmanaged_open_orders_present", .bool false),
    ("confirm_api_key_no_withdrawal_permission", .bool false),
    ("positive_quality_gate_passed", .bool false),
    ("live_env_var_name", .str "GHOST_AMM_ENABLE_LIVE"),
    ("live_env_var_value", .str "I_ACCEPT_RISK"),
    ("max_active_orders_per_pair", .int 20),
    ("quote_ttl_ms", .int 3000),
    ("min_quote_replace_interval_ms", .int 0),
    ("quote_replace_threshold_bps", .int 0),
    ("size_replace_threshold_ratio", .int 0)]),
  ("market", .obj [
    ("stale_after_ms", .int 3000),
    ("max_spread_bps", .int 50),
    ("min_depth_20bps_jpy", .int 5000000),
    ("reject_circuit_break_book", .bool true)]),
  ("fair", .obj [
    ("min_source_count", .int 1),
    ("max_source_age_ms", .int 3000),
    ("max_source_deviation_bps", .int 80),
    ("use_median", .bool true)]),
  ("inventory", .obj [
    ("initial_base_qty", .float (1 / 100)),
    ("initial_quote_qty", .int 150000),
    ("target_base_ratio", .float (1 / 2)),
    ("max_abs_skew", .float (7 / 20)),
    ("negative_balances_allowed", .bool false)]),
  ("amm", .obj [
    ("levels", .int 6),
    ("base_order_size", .float (1 / 1000)),
    ("half_spread_bps", .int 8),
    ("step_bps", .int 10),
    ("skew_strength_bps", .int 80),
    ("size_skew_strength", .float 3),
    ("min_order_size_fallback", .float (1 / 10000)),
    ("max_order_size", .float (1 / 500)),
    ("tick_size_fallback_jpy", .int 1),
    ("lot_size_fallback_btc", .float (1 / 10000)),
    ("use_bitbank_pair_spec_rounding", .bool true)]),
  ("shock", .obj [
    ("forced_flow_window_ms", .int 5000),
    ("depth_bps", .int 20),
    ("threshold", .float 1),
    ("temperature", .float (3 / 2)),
    ("minimum_wait_after_shock_ms", .int 2000),
    ("activation_decay_ms", .int 30000),
    ("min_activation_to_quote", .float (3 / 20)),
    ("opposite_side_activation_ratio", .float 0)]),
  ("fill_model", .obj [
    ("queue_ahead_multiplier", .float (3 / 2)),
    ("maker_fee_bps_fallback", .int 0),
    ("taker_fee_bps_fallback", .int 10),
    ("latency_ms", .int 150),
    ("cancel_latency_ms", .int 150),
    ("min_resting_time_ms", .int 500)]),
  ("fee", .obj [
    ("maker_fee_source", .str "bitbank_pair_spec"),
    ("negative_maker_fee_policy", .str "clamp_to_zero")]),
  ("risk", .obj [
    ("max_drawdown_pct", .int 5),
    ("max_daily_loss_pct", .int 3),
    ("max_virtual_fills_per_minute", .int 20),
    ("max_same_side_fills_per_window", .int 3),
    ("fill_burst_window_ms", .int 10000),
    ("fill_burst_cooldown_ms", .int 60000),
    ("max_base_qty", .int 0),
    ("max_quote_usage_jpy", .int 0),
    ("max_inventory_notional_jpy", .int 0),
    ("max_one_side_inventory_change_jpy_per_minute", .int 0),
    ("max_fair_drop_bps_1s_for_bid", .int 0),
    ("max_fair_rise_bps_1s_for_ask", .int 0),
    ("max_fair_drop_bps_5s_for_bid", .int 0),
    ("max_fair_rise_bps_5s_for_ask", .int 0),
    ("max_last_trade_fair_deviation_bps", .int 0),
    ("last_trade_fair_deviation_max_age_ms", .int 3000),
    ("block_on_sequence_ordering_violation", .bool true),
    ("block_on_bitbank_status_not_normal", .bool true),
    ("block_on_pair_stop_flags", .bool true),
    ("block_on_unfetched_pair_spec", .bool true)])]

/-- A user's tree: its dictionaries have each key once. -/
structure UserTree where
  fields : List (String × Json)
  distinct : (Json.obj fields).all Json.distinctKeys = true

mutual

/-- `deep_merge`: the loop over the items of the override. -/
def deepMerge (base : List (String × Json)) : List (String × Json) → List (String × Json)
  | [] => base
  | (key, value) :: rest =>
      deepMerge (Py.upsert Prod.fst (key, mergeValue (Json.lookup base key) value) base) rest

/-- What is put under a key, where the base may have something already. -/
def mergeValue (old : Option Json) : Json → Json
  | .obj override =>
      match old with
      | some (.obj base) => .obj (deepMerge base override)
      | _ => .obj override
  | value => value

end

/-- `Config`. -/
structure ConfigData where
  data : List (String × Json)

namespace ConfigData

/-- `Config(data)`. -/
def ofUser (data : Option (List (String × Json))) : ConfigData where
  data := deepMerge defaultConfig (data.getD [])

/-- `path.split(".")`. -/
def keysOf (path : String) : List String := (path.toList.splitOn '.').map String.ofList

/-- `get`. -/
def get (self : ConfigData) (path : String) (default : Json := .null) : Json :=
  ((Json.obj self.data).at? (keysOf path)).getD default

end ConfigData

end GhostAmm
