/-
What `sync` leaves behind.

The first loop takes off what is not wanted any more, and the second goes through the desired
quotes one by one.  Key by key that is simple: under the key of a desired quote stands the
order that was there, if it may stay, and otherwise a new order of the quote (`get?_syncOn`);
under any other key stands nothing (`mem_syncOn`).  So everything that stands is wanted,
passive and alive, and a second call on the same input finds nothing to do.
-/
import GhostAmm.Proofs.Orders

namespace GhostAmm

namespace OrderProjector

/-! ### What stands after `sync` -/

/-- What `sync` is called on, the settings apart. -/
structure SyncInput where
  quotes : List Quote
  book : OrderBook
  risk : RiskDecision
  nowMs : ℚ

/-- The active order that stays for a quote, if one does. -/
def kept (cfg : ExecutionConfig) (self : OrderProjector) (input : SyncInput) (quote : Quote) :
    Option ActiveVirtualOrder :=
  (self.active.get? quote.key).filter fun order =>
    activePostOnlySafe order input.book input.risk &&
      shouldKeepExisting cfg order quote input.nowMs

/-- The order under the key of a quote, given the order that stays for it: that one, or a new one
of the quote. -/
def StandsFor (cfg : ExecutionConfig) (nowMs : ℚ) (quote : Quote)
    (stays : Option ActiveVirtualOrder) (order : ActiveVirtualOrder) : Prop :=
  match stays with
  | some existing => order = existing
  | none => ∃ n, order = orderOf cfg quote nowMs n

section Sync

variable {rt : Runtime} {cfg : ExecutionConfig} {market : Market} {nowMs : ℚ}

/-- An order the first loop cancels. -/
def IsStale (desiredKeys : List (Side × ℕ)) (book : OrderBook) (risk : RiskDecision) (nowMs : ℚ)
    (order : ActiveVirtualOrder) : Prop :=
  order.key ∉ desiredKeys ∨ order.expiresAt ≤ nowMs ∨ activePostOnlySafe order book risk = false

/-- The first loop takes off what is stale. -/
theorem mem_cancelLoop {desiredKeys : List (Side × ℕ)} {book : OrderBook} {risk : RiskDecision}
    {o : ActiveVirtualOrder} : ∀ (rows : List ActiveVirtualOrder)
    (acc : OrderProjector × List Event),
    o ∈ (rows.foldl (cancelUnlessWanted rt market desiredKeys book risk nowMs) acc).1.active.rows ↔
      o ∈ acc.1.active.rows ∧
        ∀ r ∈ rows, IsStale desiredKeys book risk nowMs r → o.key ≠ r.key := by
  intro rows
  induction rows with
  | nil => intro acc; simp
  | cons order rest ih =>
      intro acc
      rw [List.foldl_cons, ih, List.forall_mem_cons, ← and_assoc]
      refine and_congr_left fun _ => ?_
      unfold cancelUnlessWanted
      by_cases hstale : IsStale desiredKeys book risk nowMs order
      · simp only [if_pos (show _ ∨ _ from hstale), hstale, true_implies]
        exact Py.Table.mem_erase
      · simp only [if_neg (show ¬ (_ ∨ _) from hstale), hstale, false_implies, and_true]

/-- What the first loop leaves under a key. -/
theorem get?_cancelLoop {desiredKeys : List (Side × ℕ)} {book : OrderBook} {risk : RiskDecision}
    {self : OrderProjector} {key : Side × ℕ} {o : ActiveVirtualOrder} :
    (self.active.rows.foldl (cancelUnlessWanted rt market desiredKeys book risk nowMs)
      (self, [])).1.active.get? key = some o ↔
      self.active.get? key = some o ∧ ¬ IsStale desiredKeys book risk nowMs o := by
  rw [Py.Table.get?_eq_some, Py.Table.get?_eq_some, mem_cancelLoop]
  constructor
  · rintro ⟨⟨hmem, hstays⟩, hkey⟩
    exact ⟨⟨hmem, hkey⟩, fun hstale => hstays o hmem hstale rfl⟩
  · rintro ⟨⟨hmem, hkey⟩, hfresh⟩
    refine ⟨⟨hmem, fun r hr hstale hrow => hfresh ?_⟩, hkey⟩
    rw [Py.Table.eq_of_key_eq hmem hr hrow]
    exact hstale

/-- The second loop leaves the other keys alone. -/
theorem get?_keepOrPlace_ne {quote : Quote} {key : Side × ℕ} (hkey : key ≠ quote.key)
    (acc : OrderProjector × List Event) :
    (keepOrPlace rt cfg market nowMs acc quote).1.active.get? key = acc.1.active.get? key := by
  have hput : ∀ (t : Py.Table ActiveVirtualOrder.key) (n : ℕ),
      (t.put (orderOf cfg quote nowMs n)).get? key = t.get? key := by
    intro t n
    exact Py.Table.get?_put_ne _ hkey
  unfold keepOrPlace
  dsimp only
  split
  · split
    · rfl
    · exact (hput _ _).trans (Py.Table.get?_erase_ne _ hkey)
  · exact hput _ _

/-- The second loop at the key of its quote. -/
theorem get?_keepOrPlace_self (quote : Quote) (acc : OrderProjector × List Event) :
    ∃ order, (keepOrPlace rt cfg market nowMs acc quote).1.active.get? quote.key = some order ∧
      StandsFor cfg nowMs quote
        ((acc.1.active.get? quote.key).filter fun o => shouldKeepExisting cfg o quote nowMs)
        order := by
  have hput : ∀ (t : Py.Table ActiveVirtualOrder.key) (n : ℕ),
      (t.put (orderOf cfg quote nowMs n)).get? quote.key = some (orderOf cfg quote nowMs n) := by
    intro t n
    exact Py.Table.get?_put_self _ _
  unfold keepOrPlace
  dsimp only
  cases hget : acc.1.active.get? quote.key with
  | none => exact ⟨_, hput _ _, _, rfl⟩
  | some existing =>
      dsimp only
      by_cases hkeep : shouldKeepExisting cfg existing quote nowMs = true
      · rw [if_pos hkeep]
        refine ⟨existing, hget, ?_⟩
        rw [Option.filter_some, if_pos hkeep]
        rfl
      · rw [if_neg hkeep]
        refine ⟨_, hput _ _, ?_⟩
        rw [Option.filter_some, if_neg hkeep]
        exact ⟨_, rfl⟩

theorem get?_keepLoop_of_notMem {key : Side × ℕ} : ∀ (quotes : List Quote)
    (acc : OrderProjector × List Event), key ∉ quotes.map Quote.key →
    (quotes.foldl (keepOrPlace rt cfg market nowMs) acc).1.active.get? key
      = acc.1.active.get? key := by
  intro quotes
  induction quotes with
  | nil => intro acc _; rfl
  | cons quote rest ih =>
      intro acc hkey
      rw [List.map_cons, List.mem_cons, not_or] at hkey
      rw [List.foldl_cons, ih _ hkey.2, get?_keepOrPlace_ne hkey.1]

/-- After the second loop each quote has an order, the one that stayed or a new one. -/
theorem get?_keepLoop : ∀ (quotes : List Quote) (acc : OrderProjector × List Event),
    (quotes.map Quote.key).Nodup → ∀ quote ∈ quotes,
    ∃ order, (quotes.foldl (keepOrPlace rt cfg market nowMs) acc).1.active.get? quote.key
        = some order ∧
      StandsFor cfg nowMs quote
        ((acc.1.active.get? quote.key).filter fun o => shouldKeepExisting cfg o quote nowMs)
        order := by
  intro quotes
  induction quotes with
  | nil => intro acc _ quote hquote; simp at hquote
  | cons first rest ih =>
      intro acc hnodup quote hquote
      rw [List.map_cons, List.nodup_cons] at hnodup
      rw [List.foldl_cons]
      rcases List.mem_cons.mp hquote with rfl | hquote
      · rw [get?_keepLoop_of_notMem rest _ hnodup.1]
        exact get?_keepOrPlace_self quote acc
      · have hne : quote.key ≠ first.key :=
          fun heq => hnodup.1 (heq ▸ List.mem_map_of_mem hquote)
        rw [← get?_keepOrPlace_ne hne acc]
        exact ih _ hnodup.2 quote hquote

variable {self : OrderProjector} {input : SyncInput}

/-- The quotes of a call that become orders. -/
def SyncInput.desired (cfg : ExecutionConfig) (input : SyncInput) : List Quote :=
  OrderProjector.desired cfg input.quotes input.book input.risk

/-- The call. -/
def syncOn (rt : Runtime) (cfg : ExecutionConfig) (market : Market) (self : OrderProjector)
    (input : SyncInput) : OrderProjector :=
  (self.sync rt cfg market input.quotes input.book input.risk input.nowMs).1

/-- The loops of the call. -/
theorem syncOn_allowed (hallow : input.risk.allowQuote = true) :
    syncOn rt cfg market self input
      = ((input.desired cfg).foldl (keepOrPlace rt cfg market input.nowMs)
          (self.active.rows.foldl (cancelUnlessWanted rt market
            ((input.desired cfg).map Quote.key) input.book input.risk input.nowMs)
            (self, []))).1 :=
  congrArg Prod.fst (sync_allowed self input.quotes input.book hallow)

theorem syncOn_refused (hallow : input.risk.allowQuote = false) :
    (syncOn rt cfg market self input).active = Py.Table.empty :=
  congrArg (fun result => result.1.active)
    (@sync_refused rt cfg market input.nowMs self input.quotes input.book _ hallow)

theorem nodup_desired (h : (input.quotes.map Quote.key).Nodup) :
    ((input.desired cfg).map Quote.key).Nodup := by
  refine h.sublist (List.Sublist.map _ ?_)
  unfold SyncInput.desired OrderProjector.desired Py.sliceTo
  split
  · exact (List.take_sublist _ _).trans List.filter_sublist
  · exact (List.take_sublist _ _).trans List.filter_sublist

/-- **Every quote has an order: the one that stayed for it, or a new one of its own.** -/
theorem get?_syncOn (hallow : input.risk.allowQuote = true)
    (hnodup : (input.quotes.map Quote.key).Nodup) {quote : Quote}
    (hquote : quote ∈ input.desired cfg) :
    ∃ order, (syncOn rt cfg market self input).active.get? quote.key = some order ∧
      StandsFor cfg input.nowMs quote (self.kept cfg input quote) order := by
  have hwanted : quote.key ∈ (input.desired cfg).map Quote.key := List.mem_map_of_mem hquote
  have hstays : (((self.active.rows.foldl (cancelUnlessWanted rt market
      ((input.desired cfg).map Quote.key) input.book input.risk input.nowMs)
      (self, [])).1.active.get? quote.key).filter fun o =>
        shouldKeepExisting cfg o quote input.nowMs) = self.kept cfg input quote := by
    refine Option.ext fun o => ?_
    unfold kept
    rw [Option.filter_eq_some_iff, Option.filter_eq_some_iff, get?_cancelLoop, Bool.and_eq_true]
    constructor
    · rintro ⟨⟨hget, hfresh⟩, hkeep⟩
      refine ⟨hget, ?_, hkeep⟩
      by_contra hcrosses
      exact hfresh (Or.inr (Or.inr (by simpa using hcrosses)))
    · rintro ⟨hget, hsafe, hkeep⟩
      refine ⟨⟨hget, ?_⟩, hkeep⟩
      rintro (hkey | hexpired | hcrosses)
      · rw [(Py.Table.get?_eq_some.mp hget).2] at hkey
        exact hkey hwanted
      · -- an expired order is not one to keep
        unfold shouldKeepExisting at hkeep
        rw [if_pos hexpired] at hkeep
        simp at hkeep
      · rw [hcrosses] at hsafe
        simp at hsafe
  rw [syncOn_allowed hallow, ← hstays]
  exact get?_keepLoop _ _ (nodup_desired hnodup) quote hquote

/-- Every order stands under the key of a quote. -/
theorem mem_syncOn (hallow : input.risk.allowQuote = true) {order : ActiveVirtualOrder}
    (h : order ∈ (syncOn rt cfg market self input).active.rows) :
    ∃ quote ∈ input.desired cfg, quote.key = order.key := by
  by_contra hnone
  have hkey : order.key ∉ (input.desired cfg).map Quote.key := by
    intro hmem
    obtain ⟨quote, hquote, heq⟩ := List.mem_map.mp hmem
    exact hnone ⟨quote, hquote, heq⟩
  have hget : (syncOn rt cfg market self input).active.get? order.key = some order :=
    Py.Table.get?_eq_some.mpr ⟨h, rfl⟩
  rw [syncOn_allowed hallow, get?_keepLoop_of_notMem _ _ hkey, get?_cancelLoop] at hget
  exact hget.2 (Or.inl hkey)

/-! ### What an order that stands is like -/

/-- An order at this price may rest: its side is allowed and it is strictly inside the best price
of the other side. -/
def Passive (side : Side) (price : ℚ) (book : OrderBook) (risk : RiskDecision) : Prop :=
  match side with
  | .buy => risk.allowBuy = true ∧ ∃ ask, book.bestAsk = some ask ∧ price < ask
  | .sell => risk.allowSell = true ∧ ∃ bid, book.bestBid = some bid ∧ bid < price

theorem restsPassively_iff {side : Side} {price : ℚ} {book : OrderBook} {risk : RiskDecision} :
    restsPassively side price book risk = true ↔ Passive side price book risk := by
  unfold restsPassively Passive
  cases side with
  | buy => simp [Option.any_eq_true]
  | sell => simp [Option.any_eq_true]

instance (side : Side) (price : ℚ) (book : OrderBook) (risk : RiskDecision) :
    Decidable (Passive side price book risk) :=
  decidable_of_iff _ restsPassively_iff

/-- An order is as its quote wants it, or too young or too close to it to be replaced. -/
def CloseTo (cfg : ExecutionConfig) (nowMs : ℚ) (order : ActiveVirtualOrder) (quote : Quote) :
    Prop :=
  (order.price = quote.price ∧ order.size = quote.size) ∨
  nowMs - order.createdAt < cfg.minQuoteReplaceIntervalMs ∨
  (|quote.price - order.price| / max order.price (1 / 10 ^ 12) * 10000
      ≤ cfg.quoteReplaceThresholdBps ∧
    |quote.size - order.size| / max order.size (1 / 10 ^ 12) ≤ cfg.sizeReplaceThresholdRatio)

theorem shouldKeepExisting_iff {order : ActiveVirtualOrder} {quote : Quote} :
    shouldKeepExisting cfg order quote nowMs = true ↔
      nowMs < order.expiresAt ∧ CloseTo cfg nowMs order quote := by
  unfold shouldKeepExisting CloseTo
  by_cases hexpired : order.expiresAt ≤ nowMs
  · simp [hexpired, not_lt.mpr hexpired]
  · rw [if_neg hexpired]
    by_cases hsame : order.price = quote.price ∧ order.size = quote.size
    · simp [hsame, not_le.mp hexpired]
    · rw [if_neg hsame]
      by_cases hyoung : nowMs - order.createdAt < cfg.minQuoteReplaceIntervalMs
      · simp [hyoung, not_le.mp hexpired]
      · simp [hsame, hyoung, not_le.mp hexpired]

/-- Under the key of a quote stands a passive order that a second look would keep. -/
theorem settled (httl : 0 < cfg.quoteTtlMs) (hallow : input.risk.allowQuote = true)
    (hnodup : (input.quotes.map Quote.key).Nodup) {quote : Quote}
    (hquote : quote ∈ input.desired cfg) :
    ∃ order, (syncOn rt cfg market self input).active.get? quote.key = some order ∧
      activePostOnlySafe order input.book input.risk = true ∧
      shouldKeepExisting cfg order quote input.nowMs = true := by
  obtain ⟨order, hget, hstands⟩ := get?_syncOn hallow hnodup hquote
  refine ⟨order, hget, ?_⟩
  cases hkept : self.kept cfg input quote with
  | some existing =>
      rw [hkept] at hstands
      obtain rfl := hstands
      exact Bool.and_eq_true_iff.mp (Option.filter_eq_some_iff.mp hkept).2
  | none =>
      rw [hkept] at hstands
      obtain ⟨n, rfl⟩ := hstands
      refine ⟨(mem_desired hquote).2, shouldKeepExisting_iff.mpr ⟨?_, Or.inl ⟨rfl, rfl⟩⟩⟩
      exact lt_add_of_pos_right _ httl

/-- The order that stands is the one under the key of its quote. -/
theorem settled_of_mem (httl : 0 < cfg.quoteTtlMs) (hallow : input.risk.allowQuote = true)
    (hnodup : (input.quotes.map Quote.key).Nodup) {order : ActiveVirtualOrder}
    (h : order ∈ (syncOn rt cfg market self input).active.rows) :
    ∃ quote ∈ input.desired cfg, quote.key = order.key ∧
      activePostOnlySafe order input.book input.risk = true ∧
      shouldKeepExisting cfg order quote input.nowMs = true := by
  obtain ⟨quote, hquote, hkey⟩ := mem_syncOn hallow h
  obtain ⟨other, hget, hsafe, hkeep⟩ := settled httl hallow hnodup hquote
  obtain ⟨hmem, hother⟩ := Py.Table.get?_eq_some.mp hget
  obtain rfl := Py.Table.eq_of_key_eq h hmem (hkey.symm.trans hother.symm)
  exact ⟨quote, hquote, hkey, hsafe, hkeep⟩

/-- The quotes that may rest, up to the limit. -/
def SyncInput.wanted (cfg : ExecutionConfig) (input : SyncInput) : List Quote :=
  (input.quotes.filter fun q => decide (Passive q.side q.price input.book input.risk)).take
    cfg.maxActiveOrdersPerPair.toNat

theorem desired_eq_wanted (hmax : 0 ≤ cfg.maxActiveOrdersPerPair) :
    input.desired cfg = input.wanted cfg := by
  have hfilter : (input.quotes.filter fun q => postOnlySafe q input.book input.risk)
      = input.quotes.filter fun q => decide (Passive q.side q.price input.book input.risk) := by
    refine List.filter_congr fun q _ => ?_
    rw [Bool.eq_iff_iff, decide_eq_true_eq]
    exact restsPassively_iff
  unfold SyncInput.desired OrderProjector.desired SyncInput.wanted
  rw [hfilter, Py.sliceTo, if_pos hmax]

/-! ### Canceling everything -/

/-- The loop of `cancel_all` emits a cancel for each order. -/
theorem canceled_cancelLoop {reason : String} : ∀ (rows : List ActiveVirtualOrder)
    (acc : OrderProjector × List Event),
    (rows.foldl (fun (acc : OrderProjector × List Event) order =>
      let (self, event) := acc.1.cancelEvent rt market order nowMs reason
      (self, acc.2 ++ [event])) acc).2.map Event.canceled?
      = acc.2.map Event.canceled?
        ++ rows.map fun o => some ⟨o.orderId, reason, o.side, o.price, o.size⟩ := by
  intro rows
  induction rows with
  | nil => intro acc; simp
  | cons order rest ih =>
      intro acc
      rw [List.foldl_cons, ih, List.map_append, List.map_cons, List.append_assoc]
      rfl

/--
**What `sync` leaves.**  Where quoting is allowed, the orders stand under the keys of the quotes
that may rest, up to the limit; each of them may rest itself, is alive and is as its quote wants
it or not worth replacing.  Where it is not, nothing stands and each order was canceled.
-/
theorem sync_postcondition (rt : Runtime) (cfg : ExecutionConfig) (market : Market)
    (self : OrderProjector) (input : SyncInput) (httl : 0 < cfg.quoteTtlMs)
    (hmax : 0 ≤ cfg.maxActiveOrdersPerPair) (hnodup : (input.quotes.map Quote.key).Nodup) :
    (input.risk.allowQuote = true →
      (∀ key, (∃ o ∈ (self.syncOn rt cfg market input).active.rows, o.key = key) ↔
        ∃ quote ∈ input.wanted cfg, quote.key = key) ∧
      ∀ o ∈ (self.syncOn rt cfg market input).active.rows,
        Passive o.side o.price input.book input.risk ∧ input.nowMs < o.expiresAt ∧
          ∃ quote ∈ input.wanted cfg, quote.key = o.key ∧ CloseTo cfg input.nowMs o quote) ∧
    (input.risk.allowQuote = false →
      (self.syncOn rt cfg market input).active.rows = [] ∧
      (self.sync rt cfg market input.quotes input.book input.risk input.nowMs).2.map
          Event.canceled?
        = self.active.rows.map fun o => some ⟨o.orderId,
            Py.textOr input.risk.reason "risk_block", o.side, o.price, o.size⟩) := by
  rw [← desired_eq_wanted hmax]
  refine ⟨fun hallow => ⟨fun key => ?_, fun o ho => ?_⟩, fun hrefuse => ⟨?_, ?_⟩⟩
  · constructor
    · intro hactive
      obtain ⟨o, ho, rfl⟩ := hactive
      exact mem_syncOn hallow ho
    · intro hwanted
      obtain ⟨quote, hquote, rfl⟩ := hwanted
      obtain ⟨o, hget, -⟩ := settled httl hallow hnodup hquote
      exact ⟨o, Py.Table.get?_eq_some.mp hget⟩
  · obtain ⟨quote, hquote, hkey, hsafe, hkeep⟩ := settled_of_mem httl hallow hnodup ho
    obtain ⟨halive, hclose⟩ := shouldKeepExisting_iff.mp hkeep
    exact ⟨restsPassively_iff.mp hsafe, halive, quote, hquote, hkey, hclose⟩
  · rw [syncOn_refused hrefuse]
    rfl
  · rw [sync_refused self input.quotes input.book hrefuse]
    exact canceled_cancelLoop self.active.rows (self, [])

/-! ### A second call -/

/-- The first loop finds nothing stale. -/
theorem cancelLoop_settled {desiredKeys : List (Side × ℕ)} {book : OrderBook}
    {risk : RiskDecision} (acc : OrderProjector × List Event) :
    ∀ rows : List ActiveVirtualOrder, (∀ o ∈ rows, ¬ IsStale desiredKeys book risk nowMs o) →
      rows.foldl (cancelUnlessWanted rt market desiredKeys book risk nowMs) acc = acc := by
  intro rows
  induction rows with
  | nil => intro _; rfl
  | cons order rest ih =>
      intro h
      rw [List.forall_mem_cons] at h
      have hstep : cancelUnlessWanted rt market desiredKeys book risk nowMs acc order = acc := by
        unfold cancelUnlessWanted
        simp only [if_neg (show ¬ (_ ∨ _) from h.1)]
      rw [List.foldl_cons, hstep]
      exact ih h.2

/-- The second loop finds nothing to replace or to place. -/
theorem keepLoop_settled (acc : OrderProjector × List Event) : ∀ quotes : List Quote,
    (∀ quote ∈ quotes, ∃ order, acc.1.active.get? quote.key = some order ∧
      shouldKeepExisting cfg order quote nowMs = true) →
    quotes.foldl (keepOrPlace rt cfg market nowMs) acc = acc := by
  intro quotes
  induction quotes with
  | nil => intro _; rfl
  | cons quote rest ih =>
      intro h
      rw [List.forall_mem_cons] at h
      obtain ⟨order, hget, hkeep⟩ := h.1
      have hstep : keepOrPlace rt cfg market nowMs acc quote = acc := by
        unfold keepOrPlace
        simp only [hget, if_pos hkeep]
      rw [List.foldl_cons, hstep]
      exact ih h.2

/--
**No churn on unchanged input.**  A second `sync` with the same arguments emits nothing and
leaves the orders and the counter as they are.
-/
theorem sync_again (rt : Runtime) (cfg : ExecutionConfig) (market : Market)
    (self : OrderProjector) (input : SyncInput) (httl : 0 < cfg.quoteTtlMs)
    (hnodup : (input.quotes.map Quote.key).Nodup) :
    (self.syncOn rt cfg market input).sync rt cfg market input.quotes input.book input.risk
        input.nowMs
      = (self.syncOn rt cfg market input, []) := by
  cases hallow : input.risk.allowQuote with
  | true =>
      have hfresh : ∀ o ∈ (self.syncOn rt cfg market input).active.rows,
          ¬ IsStale ((input.desired cfg).map Quote.key) input.book input.risk input.nowMs o := by
        intro o ho hstale
        obtain ⟨quote, hquote, hkey, hsafe, hkeep⟩ := settled_of_mem httl hallow hnodup ho
        rcases hstale with hunwanted | hexpired | hcrosses
        · exact hunwanted (hkey ▸ List.mem_map_of_mem hquote)
        · exact absurd (shouldKeepExisting_iff.mp hkeep).1 (not_lt.mpr hexpired)
        · rw [hcrosses] at hsafe
          simp at hsafe
      rw [sync_allowed _ _ _ hallow]
      show (input.desired cfg).foldl _ _ = _
      rw [show OrderProjector.desired cfg input.quotes input.book input.risk
        = input.desired cfg from rfl, cancelLoop_settled _ _ hfresh]
      refine keepLoop_settled _ _ fun quote hquote => ?_
      obtain ⟨order, hget, -, hkeep⟩ := settled httl hallow hnodup hquote
      exact ⟨order, hget, hkeep⟩
  | false =>
      have hempty := @syncOn_refused rt cfg market self input hallow
      rw [sync_refused _ _ _ hallow]
      unfold cancelAll
      rw [hempty]
      show ({ self.syncOn rt cfg market input with active := Py.Table.empty }, []) = _
      rw [← hempty]

end Sync

/-! ### Two bids, one of them through the ask -/

private def bidQuote (level : ℕ) (price : ℚ) : Quote where
  side := .buy
  price := price
  size := 1
  level := level
  activation := 1
  inventorySkew := 0
  fair := 100

private def twoBidQuotes : SyncInput where
  quotes := [bidQuote 0 100, bidQuote 1 102]
  book := { bids := Py.Table.ofList [(99, 1)], asks := Py.Table.ofList [(101, 1)] }
  risk := { allowQuote := true, allowBuy := true, allowSell := true, maxOrderSize := 1 }
  nowMs := 1000

private abbrev twoBidsSynced : OrderProjector :=
  syncOn ⟨fun _ => 0, fun _ _ _ _ _ => "", fun _ => none⟩ {} ⟨"bitbank", "BTC/JPY"⟩ {}
    twoBidQuotes

/-- Only the bid inside the ask stands. -/
theorem sync_postcondition_two_bids :
    (∃ o ∈ twoBidsSynced.active.rows, o.key = (.buy, 0)) ∧
      ¬ ∃ o ∈ twoBidsSynced.active.rows, o.key = (.buy, 1) := by
  obtain ⟨hallowed, -⟩ := sync_postcondition ⟨fun _ => 0, fun _ _ _ _ _ => "", fun _ => none⟩ {}
    ⟨"bitbank", "BTC/JPY"⟩ {} twoBidQuotes (by decide +kernel) (by decide +kernel)
    (by decide +kernel)
  obtain ⟨hkeys, -⟩ := hallowed rfl
  exact ⟨(hkeys (.buy, 0)).mpr (by decide +kernel),
    fun h => absurd ((hkeys (.buy, 1)).mp h) (by decide +kernel)⟩

/-- The bid stays as it is. -/
theorem sync_again_two_bids :
    (twoBidsSynced.sync ⟨fun _ => 0, fun _ _ _ _ _ => "", fun _ => none⟩ {}
        ⟨"bitbank", "BTC/JPY"⟩ twoBidQuotes.quotes twoBidQuotes.book twoBidQuotes.risk 1000).2
      = [] ∧ twoBidsSynced.active.rows.length = 1 :=
  ⟨congrArg Prod.snd (sync_again _ _ _ _ twoBidQuotes (by decide +kernel) (by decide +kernel)),
    by decide +kernel⟩

end OrderProjector

end GhostAmm
