/-
What stands on the desk.

The active orders after a call are what `sync` left, so a call that returns puts the whole desk
in order: it is within the limit, each order may rest against the book and the decision of this
very call, and nothing stands where the decision refuses or there is no fair price.  What `sync`
does not look at again is how an order came about.  An order it keeps still has the expiry and
the size it was placed with, and that these are within bounds is an invariant of the run
(`WellMade`).  Together they bound what is exposed at any moment.
-/
import GhostAmm.Proofs.Observed
import GhostAmm.Proofs.Surface

namespace GhostAmm

namespace OrderProjector

/-- An order as the settings let it be placed: it lives for its time and has a size within the
limit. -/
structure WellMade (cfg : Config) (order : ActiveVirtualOrder) : Prop where
  lives : order.expiresAt = order.createdAt + cfg.execution.quoteTtlMs
  sized : order.size ≤ cfg.amm.maxOrderSize

variable {rt : Runtime} {cfg : ExecutionConfig} {market : Market} {self : OrderProjector}
  {input : SyncInput}

/-- An order that stands stood before, or is a new order of a quote. -/
theorem mem_syncOn_cases (hallow : input.risk.allowQuote = true)
    (hnodup : (input.quotes.map Quote.key).Nodup) {order : ActiveVirtualOrder}
    (h : order ∈ (syncOn rt cfg market self input).active.rows) :
    order ∈ self.active.rows ∨
      ∃ quote ∈ input.quotes, ∃ n, order = orderOf cfg quote input.nowMs n := by
  obtain ⟨quote, hquote, hkey⟩ := mem_syncOn hallow h
  obtain ⟨other, hget, hstands⟩ := @get?_syncOn rt cfg market self input hallow hnodup
    quote hquote
  obtain ⟨hmem, hother⟩ := Py.Table.get?_eq_some.mp hget
  obtain rfl := Py.Table.eq_of_key_eq h hmem (hkey.symm.trans hother.symm)
  cases hkept : self.kept cfg input quote with
  | some existing =>
      rw [hkept] at hstands
      obtain rfl := hstands
      exact Or.inl (mem_of_kept hkept).1
  | none =>
      rw [hkept] at hstands
      exact Or.inr ⟨quote, (mem_desired hquote).1, hstands⟩

/-- There are no more orders than wanted quotes. -/
theorem length_syncOn (hallow : input.risk.allowQuote = true) :
    (syncOn rt cfg market self input).active.rows.length ≤ (input.desired cfg).length := by
  have hsub : (syncOn rt cfg market self input).active.rows.map ActiveVirtualOrder.key ⊆
      (input.desired cfg).map Quote.key := by
    intro key hkey
    obtain ⟨order, horder, rfl⟩ := List.mem_map.mp hkey
    obtain ⟨quote, hquote, hkey⟩ := mem_syncOn hallow horder
    exact List.mem_map.mpr ⟨quote, hquote, hkey⟩
  have hle := ((syncOn rt cfg market self input).active.nodup.subperm hsub).length_le
  rwa [List.length_map, List.length_map] at hle

theorem length_desired (hmax : 0 ≤ cfg.maxActiveOrdersPerPair) :
    (input.desired cfg).length ≤ cfg.maxActiveOrdersPerPair.toNat := by
  rw [desired_eq_wanted hmax]
  exact List.length_take_le _ _

/-- Where quoting is refused everything `sync` emits is a cancel. -/
theorem placed_sync_refused {p : OrderProjector} {quotes : List Quote} {book : OrderBook}
    {risk : RiskDecision} {nowMs : ℚ} {events : List Event}
    (h : self.sync rt cfg market quotes book risk nowMs = (p, events))
    (hrefused : risk.allowQuote = false) : ∀ e ∈ events, e.placed? = none := by
  intro e he
  have hcanceled := @canceled_cancelLoop rt market nowMs (Py.textOr risk.reason "risk_block")
    self.active.rows (self, [])
  rw [sync_refused self quotes book hrefused] at h
  obtain rfl : (self.cancelAll rt market nowMs (Py.textOr risk.reason "risk_block")).2 = events :=
    congrArg Prod.snd h
  have hmem : e.canceled? ∈ _ := hcanceled ▸ List.mem_map_of_mem (f := Event.canceled?) he
  rw [List.map_nil, List.nil_append] at hmem
  obtain ⟨order, -, hcancel⟩ := List.mem_map.mp hmem
  unfold Event.canceled? at hcancel
  unfold Event.placed?
  cases hbody : e.body with
  | virtualOrderPlaced payload =>
      rw [hbody] at hcancel
      simp at hcancel
  | _ => rfl

theorem mem_of_mem_removeAll (fills : List FillPayload) : ∀ {self : OrderProjector}
    {order : ActiveVirtualOrder}, order ∈ (self.removeAll fills).active.rows →
    order ∈ self.active.rows := by
  induction fills with
  | nil => intro self order h; exact h
  | cons fill rest ih => intro self order h; exact mem_of_mem_removeFilled (ih h)

end OrderProjector

namespace Pipeline

open OrderProjector (Passive WellMade)

variable {rt : Runtime} {cfg : Config}

/-- Rounding the largest order to the lots quotes are rounded to does not take it higher. -/
def LargestFits (cfg : Config) (s : Pipeline) : Prop :=
  quoteFloorToStep cfg.amm.maxOrderSize (QuoteSurface.fromConfig cfg.amm s.pairSpec).lotSize
    ≤ cfg.amm.maxOrderSize

/-- With decimal lots it does not unless a number of lots lies right above the largest order. -/
theorem largestFits_iff {cfg : Config} {s : Pipeline}
    (hlot : IsPowerOfTen (QuoteSurface.fromConfig cfg.amm s.pairSpec).lotSize) :
    LargestFits cfg s ↔ ∀ size,
      Grid.OnGrid (QuoteSurface.fromConfig cfg.amm s.pairSpec).lotSize size →
        cfg.amm.maxOrderSize < size → cfg.amm.maxOrderSize
          + nudge * (QuoteSurface.fromConfig cfg.amm s.pairSpec).lotSize < size :=
  hlot.quoteFloorToStep_le_self_iff _

/-- The desk after a call at `nowMs`. -/
structure DeskInOrder (cfg : Config) (nowMs : ℚ) (s : Pipeline) : Prop where
  count : s.projector.active.rows.length ≤ cfg.execution.maxActiveOrdersPerPair.toNat
  /-- Nothing stands while quoting is refused or there is no valid fair price. -/
  cleared : s.lastRisk.allowQuote = false ∨ s.lastFair.isValid = false →
    s.projector.active.rows = []
  passive : ∀ o ∈ s.projector.active.rows, Passive o.side o.price s.book s.lastRisk
  alive : ∀ o ∈ s.projector.active.rows, nowMs < o.createdAt + cfg.execution.quoteTtlMs
  sized : ∀ o ∈ s.projector.active.rows, o.size ≤ cfg.amm.maxOrderSize
  exposed : (s.projector.active.rows.map ActiveVirtualOrder.size).sum
    ≤ cfg.execution.maxActiveOrdersPerPair.toNat * cfg.amm.maxOrderSize

/-- A placement in its call: quoting was allowed, and it rests passively in the book the call
left, at a level priced from the fair price the call found. -/
structure PlacedInForce (cfg : Config) (nowMs : ℚ) (s : Pipeline) (order : PlacedPayload) :
    Prop where
  allowed : s.lastRisk.allowQuote = true
  fair : s.lastFair.isValid = true ∧ s.lastFair.fair = some order.fairPriceAtCreation
  passive : Passive order.side order.price s.book s.lastRisk
  level : order.quoteLevel < cfg.amm.levels.toNat
  time : order.createdAt = nowMs

/-! ### One call -/

/-- What a quote of a call is: a quote of its ladder, at a valid fair price. -/
theorem mem_quotes_ladder {s : Pipeline} {fairState : FairPriceState} {shockState : ShockState}
    {quote : Quote} (h : quote ∈ s.quotes rt cfg fairState shockState) :
    fairState.isValid = true ∧ fairState.fair = some quote.fair ∧
      ∃ request, quote ∈ (QuoteSurface.fromConfig cfg.amm s.pairSpec).generate rt request := by
  unfold quotes at h
  split at h
  · rename_i fair hvalid hfair
    refine ⟨hvalid, ?_, _, h⟩
    obtain ⟨-, level, -, hquote⟩ := QuoteSurface.mem_generate_iff.mp h
    obtain ⟨size, -, rfl⟩ | ⟨size, -, rfl⟩ := QuoteSurface.mem_generateLevel_iff.mp hquote <;>
      exact hfair
  · simp at h

/-- What a call that returns hands to `sync`. -/
def deskInput (rt : Runtime) (cfg : Config) (s : Pipeline) (shockState : ShockState) (nowMs : ℚ) :
    OrderProjector.SyncInput where
  quotes := s.quotes rt cfg s.lastFair shockState
  book := s.book
  risk := s.lastRisk
  nowMs := nowMs

theorem nodup_keys_deskInput {s : Pipeline} {shockState : ShockState} {nowMs : ℚ} :
    (((deskInput rt cfg s shockState nowMs).quotes).map Quote.key).Nodup :=
  @AtQuotes.nodup_keys_quotes rt cfg ⟨s, s.lastFair, shockState⟩
    (marketEvent nowMs .absent (.other ""))

/-- The desk after a call is what `sync` made of the orders the fills left, and the placements of
the call are those of `sync`. -/
theorem process_desk {s s' : Pipeline} {event : Event} {out : List Event}
    (h : process rt cfg s event = (s', .ok out)) :
    ∃ paid shockState events,
      (s.projector.removeAll paid).sync rt cfg.execution (market cfg)
          (deskInput rt cfg s' shockState event.tsExchange).quotes s'.book s'.lastRisk
          event.tsExchange = (s'.projector, events) ∧
        placements out = placements events := by
  obtain ⟨step, hsynced⟩ := process_synced h
  refine ⟨GhostAmm.fills step.fillEvents, step.shockState, step.projectorEvents, ?_,
    step.placements_out⟩
  unfold deskInput
  rw [step.lastFair]
  exact hsynced

/-- Orders stay well made: new ones are, and `sync` does not touch the others. -/
theorem process_wellMade {s s' : Pipeline} {event : Event} {out : List Event}
    (h : process rt cfg s event = (s', .ok out)) (hfits : LargestFits cfg s')
    (hmade : ∀ o ∈ s.projector.active.rows, WellMade cfg o) :
    ∀ o ∈ s'.projector.active.rows, WellMade cfg o := by
  obtain ⟨paid, shockState, events, hsync, -⟩ := process_desk h
  intro o ho
  rw [show s'.projector = (s.projector.removeAll paid).syncOn rt cfg.execution (market cfg)
    (deskInput rt cfg s' shockState event.tsExchange) from (congrArg Prod.fst hsync).symm] at ho
  cases hallow : s'.lastRisk.allowQuote with
  | false =>
      rw [@OrderProjector.syncOn_refused rt cfg.execution (market cfg) _
        (deskInput rt cfg s' shockState event.tsExchange) hallow] at ho
      simp at ho
  | true =>
      rcases OrderProjector.mem_syncOn_cases hallow nodup_keys_deskInput ho with
        hold | ⟨quote, hquote, n, rfl⟩
      · exact hmade o (OrderProjector.mem_of_mem_removeAll paid hold)
      · obtain ⟨-, -, request, hladder⟩ := mem_quotes_ladder hquote
        obtain ⟨base, hsize⟩ := QuoteSurface.size_of_mem hladder
        exact ⟨rfl, (floorQuoteSize_le hsize).trans hfits⟩

/-- A call that returns leaves the desk in order. -/
theorem process_deskInOrder {s s' : Pipeline} {event : Event} {out : List Event}
    (httl : 0 < cfg.execution.quoteTtlMs) (hmax : 0 ≤ cfg.execution.maxActiveOrdersPerPair)
    (hsize : 0 ≤ cfg.amm.maxOrderSize) (h : process rt cfg s event = (s', .ok out))
    (hmade : ∀ o ∈ s'.projector.active.rows, WellMade cfg o) :
    DeskInOrder cfg event.tsExchange s' := by
  obtain ⟨paid, shockState, events, hsync, -⟩ := process_desk h
  have hprojector : s'.projector = (s.projector.removeAll paid).syncOn rt cfg.execution
      (market cfg) (deskInput rt cfg s' shockState event.tsExchange) :=
    (congrArg Prod.fst hsync).symm
  have hempty : s'.lastRisk.allowQuote = false → s'.projector.active.rows = [] := by
    intro hrefused
    rw [hprojector, OrderProjector.syncOn_refused hrefused]
    rfl
  have hdesk : ∀ o ∈ s'.projector.active.rows, s'.lastRisk.allowQuote = true ∧
      ∃ quote ∈ (deskInput rt cfg s' shockState event.tsExchange).desired cfg.execution,
        Passive o.side o.price s'.book s'.lastRisk ∧ event.tsExchange < o.expiresAt := by
    intro o ho
    cases hallow : s'.lastRisk.allowQuote with
    | false =>
        rw [hempty hallow] at ho
        simp at ho
    | true =>
        rw [hprojector] at ho
        obtain ⟨quote, hquote, -, hsafe, hkeep⟩ :=
          OrderProjector.settled_of_mem httl hallow nodup_keys_deskInput ho
        exact ⟨rfl, quote, hquote, OrderProjector.restsPassively_iff.mp hsafe,
          (OrderProjector.shouldKeepExisting_iff.mp hkeep).1⟩
  have hcount : s'.projector.active.rows.length
      ≤ cfg.execution.maxActiveOrdersPerPair.toNat := by
    cases hallow : s'.lastRisk.allowQuote with
    | false =>
        rw [hempty hallow]
        exact Nat.zero_le _
    | true =>
        rw [hprojector]
        exact (OrderProjector.length_syncOn hallow).trans (OrderProjector.length_desired hmax)
  refine ⟨hcount, ?_, fun o ho => ?_, fun o ho => ?_, fun o ho => (hmade o ho).sized, ?_⟩
  · rintro (hrefused | hinvalid)
    · exact hempty hrefused
    · refine List.eq_nil_iff_forall_not_mem.mpr fun o ho => ?_
      obtain ⟨-, quote, hquote, -⟩ := hdesk o ho
      have hvalid := (mem_quotes_ladder (OrderProjector.mem_desired hquote).1).1
      rw [hinvalid] at hvalid
      simp at hvalid
  · obtain ⟨-, -, -, hpassive, -⟩ := hdesk o ho
    exact hpassive
  · obtain ⟨-, -, -, -, halive⟩ := hdesk o ho
    rwa [(hmade o ho).lives] at halive
  · calc (s'.projector.active.rows.map ActiveVirtualOrder.size).sum
        ≤ s'.projector.active.rows.length • cfg.amm.maxOrderSize := by
          rw [← List.length_map (f := ActiveVirtualOrder.size)]
          refine List.sum_le_card_nsmul _ _ fun size hmem => ?_
          obtain ⟨o, ho, rfl⟩ := List.mem_map.mp hmem
          exact (hmade o ho).sized
      _ ≤ cfg.execution.maxActiveOrdersPerPair.toNat * cfg.amm.maxOrderSize := by
          rw [nsmul_eq_mul]
          exact mul_le_mul_of_nonneg_right (by exact_mod_cast hcount) hsize

/-- A call that returns places within its own decision. -/
theorem process_placedInForce {s s' : Pipeline} {event : Event} {out : List Event}
    (h : process rt cfg s event = (s', .ok out)) :
    ∀ order ∈ placements out, PlacedInForce cfg event.tsExchange s' order := by
  obtain ⟨paid, shockState, events, hsync, hplaced⟩ := process_desk h
  intro order horder
  rw [hplaced] at horder
  obtain ⟨e, he, hbody⟩ := List.mem_filterMap.mp horder
  obtain ⟨quote, hquote, ⟨n, rfl⟩, -⟩ := OrderProjector.placed_sync hsync he hbody
  obtain ⟨hoffered, hsafe⟩ := OrderProjector.mem_desired hquote
  obtain ⟨hvalid, hfair, request, hladder⟩ := mem_quotes_ladder hoffered
  refine ⟨?_, ⟨hvalid, hfair⟩, OrderProjector.restsPassively_iff.mp hsafe,
    (QuoteSurface.eq_of_mem hladder).2.1, rfl⟩
  by_contra hrefused
  have hnone := OrderProjector.placed_sync_refused hsync (by simpa using hrefused) e he
  rw [hnone] at hbody
  simp at hbody

/-! ### The run -/

/--
**The desk is in order after every call of a run.**  There are never more active orders than the
limit and none while quoting is refused or the fair price is invalid; each is on a side that is
allowed and strictly inside the book as it is now, younger than the time to live and no larger
than the largest order.  And what a call places it places under its own decision, at the fair
price it has just found.
-/
theorem desk_in_order (httl : 0 < cfg.execution.quoteTtlMs)
    (hmax : 0 ≤ cfg.execution.maxActiveOrdersPerPair) (hsize : 0 ≤ cfg.amm.maxOrderSize)
    {steps : List (Machine.Step Pipeline Event (List Event))} {s : Pipeline}
    (h : Machine.Run (process rt cfg) (init cfg) steps s)
    (hfits : ∀ r ∈ steps, LargestFits cfg r.after) :
    ∀ r ∈ steps, DeskInOrder cfg r.input.tsExchange r.after ∧
      ∀ order ∈ placements r.output, PlacedInForce cfg r.input.tsExchange r.after order := by
  have hmade : ∀ r ∈ steps, ∀ o ∈ r.after.projector.active.rows, WellMade cfg o := by
    intro r hr
    obtain ⟨before, rest, rfl⟩ := List.append_of_mem hr
    obtain ⟨hrun, hstep⟩ := h.split
    have hbefore := hrun.kept (P := fun s => ∀ o ∈ s.projector.active.rows, WellMade cfg o)
      (R := fun r => LargestFits cfg r.after) (fun o ho => by simp [init] at ho)
      (fun _ _ _ _ hstep hmade hfits => process_wellMade hstep hfits hmade)
      fun r hr => hfits r (List.mem_append_left _ hr)
    exact process_wellMade hstep (hfits r hr) hbefore
  intro r hr
  exact ⟨process_deskInOrder httl hmax hsize (h.step_of_mem hr) (hmade r hr),
    process_placedInForce (h.step_of_mem hr)⟩

/-- The shipped settings with a largest order of nine and a half lots. -/
def betweenLots : Config :=
  { flatConfig with amm := { flatConfig.amm with maxOrderSize := 19 / 20000 } }

theorem desk_in_order_quoteThenSell :
    let steps := Machine.stepsOf (exec seriesRuntime betweenLots (quoteThenSell (3 / 2000)))
    steps.length = 4 ∧
      (steps.map fun r => (placements r.output).map PlacedPayload.size)
        = [[], [], List.replicate 6 (9 / 10000), List.replicate 2 (9 / 10000)] ∧
      ∀ r ∈ steps, DeskInOrder betweenLots r.input.tsExchange r.after ∧
        ∀ order ∈ placements r.output,
          PlacedInForce betweenLots r.input.tsExchange r.after order := by
  refine ⟨by decide +kernel, by decide +kernel, desk_in_order (by decide +kernel)
    (by decide +kernel) (by decide +kernel) (Machine.run_exec (by decide +kernel)) fun r hr => ?_⟩
  have hlot : ∀ r ∈ Machine.stepsOf (exec seriesRuntime betweenLots (quoteThenSell (3 / 2000))),
      (QuoteSurface.fromConfig betweenLots.amm r.after.pairSpec).lotSize = 1 / 10000 := by
    decide +kernel
  rw [largestFits_iff (by rw [hlot r hr]; exact ⟨-4, by norm_num⟩), hlot r hr]
  rintro _ ⟨lots, rfl⟩ hlt
  -- the next number of lots is half a lot away
  have hten : 10 ≤ lots := by
    have hlots : (9 : ℚ) < lots := by
      norm_num [betweenLots] at hlt
      linarith
    exact_mod_cast hlots
  have hcast : (10 : ℚ) ≤ lots := by exact_mod_cast hten
  norm_num [betweenLots]
  linarith

end Pipeline

end GhostAmm
