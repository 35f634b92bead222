/-
What the projector can do to its active orders.

`sync` is two loops and a shortcut, but it only ever does two things: it cancels an
order that is active, or it places an order under a key that is free.  `Moves` is the
sequences of these two, and `sync_moves` is the one place where the loops are opened.
Every invariant of the projector is from there on an induction over `Moves`.

A fill takes an order off the desk by its identity.  The projector files orders under
side and level, so that removing one and only one order this way rests on the
identities of the active orders being distinct.
-/
import GhostAmm.Model.Projector

namespace GhostAmm

namespace OrderProjector

/-- What `sync` can do at `nowMs`, one order after the other, and what it emits for it. -/
inductive Moves (rt : Runtime) (cfg : ExecutionConfig) (market : Market) (nowMs : ℚ)
    (start : OrderProjector) : List Event → OrderProjector → Prop
  | refl : Moves rt cfg market nowMs start [] start
  | cancel {events : List Event} {p : OrderProjector} (order : ActiveVirtualOrder)
      (reason : String) : Moves rt cfg market nowMs start events p → order ∈ p.active.rows →
      Moves rt cfg market nowMs start
        (events ++ [(p.cancelEvent rt market order nowMs reason).2])
        { active := p.active.erase order.key, counter := p.counter + 1 }
  | place {events : List Event} {p : OrderProjector} (quote : Quote) :
      Moves rt cfg market nowMs start events p → p.active.get? quote.key = none →
      Moves rt cfg market nowMs start (events ++ [(p.place rt cfg market quote nowMs).2])
        (p.place rt cfg market quote nowMs).1

variable {rt : Runtime} {cfg : ExecutionConfig} {market : Market} {nowMs : ℚ}
  {start : OrderProjector}

/-- The projector emits placements and cancels. -/
theorem Moves.body {p : OrderProjector} {events : List Event}
    (h : Moves rt cfg market nowMs start events p) :
    ∀ e ∈ events, (∃ payload, e.body = .virtualOrderPlaced payload) ∨
      ∃ payload, e.body = .virtualOrderCanceled payload := by
  induction h with
  | refl => intro e he; simp at he
  | cancel order reason _ _ ih =>
      intro e he
      rcases List.mem_append.mp he with he | he
      · exact ih e he
      · rw [List.mem_singleton.mp he]
        exact Or.inr ⟨_, rfl⟩
  | place quote _ _ ih =>
      intro e he
      rcases List.mem_append.mp he with he | he
      · exact ih e he
      · rw [List.mem_singleton.mp he]
        exact Or.inl ⟨_, rfl⟩

/-- The loop of `cancel_all` counts up while the orders stay filed; they go all at once. -/
private theorem cancelLoop_moves {reason : String} : ∀ (rows : List ActiveVirtualOrder)
    (p : OrderProjector) (events : List Event) (left : Py.Table ActiveVirtualOrder.key),
    left.rows = rows →
    Moves rt cfg market nowMs start events { active := left, counter := p.counter } →
    Moves rt cfg market nowMs start
      (rows.foldl (fun (acc : OrderProjector × List Event) order =>
        let (self, event) := acc.1.cancelEvent rt market order nowMs reason
        (self, acc.2 ++ [event])) (p, events)).2
      { active := Py.Table.empty,
        counter := (rows.foldl (fun (acc : OrderProjector × List Event) order =>
          let (self, event) := acc.1.cancelEvent rt market order nowMs reason
          (self, acc.2 ++ [event])) (p, events)).1.counter } := by
  intro rows
  induction rows with
  | nil =>
      intro p events left hleft h
      rw [Py.Table.ext_rows (show left.rows = (Py.Table.empty : Py.Table _).rows from hleft)] at h
      exact h
  | cons order rest ih =>
      intro p events left hleft h
      have hmem : order ∈ left.rows := by
        rw [hleft]
        exact List.mem_cons_self
      exact ih _ _ (left.erase order.key) (Py.Table.rows_erase_head hleft)
        (Moves.cancel order reason h hmem)

theorem cancelAll_moves (self : OrderProjector) (reason : String) :
    Moves rt cfg market nowMs self (self.cancelAll rt market nowMs reason).2
      (self.cancelAll rt market nowMs reason).1 :=
  cancelLoop_moves self.active.rows self [] self.active rfl Moves.refl

/-- The first loop of `sync`: the orders still to be looked at are still active. -/
private theorem cancelUnlessWanted_moves {desiredKeys : List (Side × ℕ)} {book : OrderBook}
    {risk : RiskDecision} : ∀ (rows : List ActiveVirtualOrder) (acc : OrderProjector × List Event),
    (rows.map ActiveVirtualOrder.key).Nodup → (∀ o ∈ rows, o ∈ acc.1.active.rows) →
    Moves rt cfg market nowMs start acc.2 acc.1 →
    Moves rt cfg market nowMs start
      (rows.foldl (cancelUnlessWanted rt market desiredKeys book risk nowMs) acc).2
      (rows.foldl (cancelUnlessWanted rt market desiredKeys book risk nowMs) acc).1 := by
  intro rows
  induction rows with
  | nil => intro acc _ _ h; exact h
  | cons order rest ih =>
      intro acc hnodup hmem h
      obtain ⟨hkey, hnodup⟩ := List.nodup_cons.mp hnodup
      rw [List.foldl_cons]
      by_cases hcancel : order.key ∉ desiredKeys ∨ order.expiresAt ≤ nowMs ∨
          activePostOnlySafe order book risk = false
      · have hstep : cancelUnlessWanted rt market desiredKeys book risk nowMs acc order
            = ({ active := acc.1.active.erase order.key, counter := acc.1.counter + 1 },
               acc.2 ++ [(acc.1.cancelEvent rt market order nowMs "stale_or_replaced").2]) := by
          unfold cancelUnlessWanted
          simp only [if_pos hcancel]
          rfl
        rw [hstep]
        refine ih _ hnodup ?_ (Moves.cancel order _ h (hmem order List.mem_cons_self))
        intro o ho
        have hne : o.key ≠ order.key := fun heq => hkey (heq ▸ List.mem_map_of_mem ho)
        exact Py.Table.mem_erase.mpr ⟨hmem o (List.mem_cons_of_mem _ ho), hne⟩
      · have hstep : cancelUnlessWanted rt market desiredKeys book risk nowMs acc order = acc := by
          unfold cancelUnlessWanted
          simp only [if_neg hcancel]
        rw [hstep]
        exact ih _ hnodup (fun o ho => hmem o (List.mem_cons_of_mem _ ho)) h

/-- The second loop of `sync`. -/
private theorem keepOrPlace_moves : ∀ (quotes : List Quote) (acc : OrderProjector × List Event),
    Moves rt cfg market nowMs start acc.2 acc.1 →
    Moves rt cfg market nowMs start
      (quotes.foldl (keepOrPlace rt cfg market nowMs) acc).2
      (quotes.foldl (keepOrPlace rt cfg market nowMs) acc).1 := by
  intro quotes
  induction quotes with
  | nil => intro acc h; exact h
  | cons quote rest ih =>
      intro acc h
      rw [List.foldl_cons]
      refine ih _ ?_
      unfold keepOrPlace
      cases hget : acc.1.active.get? quote.key with
      | none =>
          simp only [hget]
          exact Moves.place quote h hget
      | some existing =>
          simp only [hget]
          obtain ⟨hmem, hkey⟩ := Py.Table.get?_eq_some.mp hget
          split
          · exact h
          · have hcancel := Moves.cancel existing "replaced" h hmem
            have hfree : (acc.1.active.erase existing.key).get? quote.key = none := by
              rw [hkey]
              exact Py.Table.get?_erase_self _ _
            have hplace := Moves.place quote hcancel hfree
            rw [List.append_assoc, hkey] at hplace
            exact hplace

/-- **Everything `sync` does is a cancel of an active order or a placement under a free key.** -/
theorem sync_moves (self : OrderProjector) (quotes : List Quote) (book : OrderBook)
    (risk : RiskDecision) :
    Moves rt cfg market nowMs self (self.sync rt cfg market quotes book risk nowMs).2
      (self.sync rt cfg market quotes book risk nowMs).1 := by
  unfold sync
  split
  · exact cancelAll_moves self _
  · refine keepOrPlace_moves _ _ ?_
    exact cancelUnlessWanted_moves self.active.rows (self, []) self.active.nodup
      (fun _ h => h) Moves.refl

/-! ### The quotes that become orders -/

/-- The quotes `sync` acts on. -/
def desired (cfg : ExecutionConfig) (quotes : List Quote) (book : OrderBook)
    (risk : RiskDecision) : List Quote :=
  Py.sliceTo (quotes.filter fun q => postOnlySafe q book risk) cfg.maxActiveOrdersPerPair

theorem mem_sliceTo {α : Type} {xs : List α} {n : ℤ} {a : α} (h : a ∈ Py.sliceTo xs n) :
    a ∈ xs := by
  unfold Py.sliceTo at h
  split at h
  · exact List.mem_of_mem_take h
  · exact List.mem_of_mem_take h

theorem mem_desired {quotes : List Quote} {book : OrderBook} {risk : RiskDecision} {quote : Quote}
    (h : quote ∈ desired cfg quotes book risk) :
    quote ∈ quotes ∧ postOnlySafe quote book risk = true :=
  List.mem_filter.mp (mem_sliceTo h)

/-- The loops of `sync`. -/
theorem sync_allowed (self : OrderProjector) (quotes : List Quote) (book : OrderBook)
    {risk : RiskDecision} (h : risk.allowQuote = true) :
    self.sync rt cfg market quotes book risk nowMs
      = (desired cfg quotes book risk).foldl (keepOrPlace rt cfg market nowMs)
          (self.active.rows.foldl (cancelUnlessWanted rt market
            ((desired cfg quotes book risk).map Quote.key) book risk nowMs) (self, [])) := by
  unfold sync
  rw [if_neg (by simp [h])]
  rfl

theorem sync_refused (self : OrderProjector) (quotes : List Quote) (book : OrderBook)
    {risk : RiskDecision} (h : risk.allowQuote = false) :
    self.sync rt cfg market quotes book risk nowMs
      = self.cancelAll rt market nowMs (Py.textOr risk.reason "risk_block") := by
  unfold sync
  rw [if_pos (by simp [h])]

/-- Cancels place nothing. -/
private theorem placed_cancelLoop {reason : String} : ∀ (rows : List ActiveVirtualOrder)
    (acc : OrderProjector × List Event), (∀ e ∈ acc.2, e.placed? = none) →
    ∀ e ∈ (rows.foldl (fun (acc : OrderProjector × List Event) order =>
      let (self, event) := acc.1.cancelEvent rt market order nowMs reason
      (self, acc.2 ++ [event])) acc).2, e.placed? = none := by
  intro rows
  induction rows with
  | nil => intro acc h; exact h
  | cons order rest ih =>
      intro acc h
      refine ih _ fun e he => ?_
      rcases List.mem_append.mp he with he | he
      · exact h e he
      · rw [List.mem_singleton.mp he]
        rfl

private theorem placed_cancelUnlessWanted {desiredKeys : List (Side × ℕ)} {book : OrderBook}
    {risk : RiskDecision} : ∀ (rows : List ActiveVirtualOrder) (acc : OrderProjector × List Event),
    (∀ e ∈ acc.2, e.placed? = none) →
    ∀ e ∈ (rows.foldl (cancelUnlessWanted rt market desiredKeys book risk nowMs) acc).2,
      e.placed? = none := by
  intro rows
  induction rows with
  | nil => intro acc h; exact h
  | cons order rest ih =>
      intro acc h
      refine ih _ fun e he => ?_
      unfold cancelUnlessWanted at he
      dsimp only at he
      split at he
      · rcases List.mem_append.mp he with he | he
        · exact h e he
        · rw [List.mem_singleton.mp he]
          rfl
      · exact h e he

/-- A placement of a quote. -/
structure IsPlacementOf (cfg : ExecutionConfig) (nowMs : ℚ) (quote : Quote) (e : Event)
    (payload : PlacedPayload) : Prop where
  payload : ∃ n, payload = placedPayload (orderOf cfg quote nowMs n)
  time : e.tsExchange = nowMs

private theorem placed_keepOrPlace : ∀ (quotes : List Quote) (acc : OrderProjector × List Event)
    (e : Event) (payload : PlacedPayload),
    e ∈ (quotes.foldl (keepOrPlace rt cfg market nowMs) acc).2 → e.placed? = some payload →
    e ∈ acc.2 ∨ ∃ quote ∈ quotes, IsPlacementOf cfg nowMs quote e payload := by
  intro quotes
  induction quotes with
  | nil => intro acc e payload he _; exact Or.inl he
  | cons quote rest ih =>
      intro acc e payload he hplaced
      rw [List.foldl_cons] at he
      rcases ih _ e payload he hplaced with hacc | ⟨q, hq, hof⟩
      · -- what the first quote adds is a placement of it, or a cancel
        have hnew : ∀ p : OrderProjector, e = (p.place rt cfg market quote nowMs).2 →
            IsPlacementOf cfg nowMs quote e payload := by
          rintro p rfl
          exact ⟨⟨_, (Option.some.inj hplaced).symm⟩, rfl⟩
        unfold keepOrPlace at hacc
        dsimp only at hacc
        split at hacc
        · split at hacc
          · exact Or.inl hacc
          · rcases List.mem_append.mp hacc with hacc | hacc
            · exact Or.inl hacc
            · rcases List.mem_cons.mp hacc with hcancel | hacc
              · rw [hcancel] at hplaced
                simp [cancelEvent, makeEvent, Event.placed?] at hplaced
              · exact Or.inr ⟨quote, List.mem_cons_self, hnew _ (List.mem_singleton.mp hacc)⟩
        · rcases List.mem_append.mp hacc with hacc | hacc
          · exact Or.inl hacc
          · exact Or.inr ⟨quote, List.mem_cons_self, hnew _ (List.mem_singleton.mp hacc)⟩
      · exact Or.inr ⟨q, List.mem_cons_of_mem _ hq, hof⟩

/-- **Every placement of `sync` is of one of the quotes it is given.** -/
theorem placed_sync {self p : OrderProjector} {quotes : List Quote} {book : OrderBook}
    {risk : RiskDecision} {events : List Event}
    (h : self.sync rt cfg market quotes book risk nowMs = (p, events)) {e : Event}
    (he : e ∈ events) {payload : PlacedPayload} (hplaced : e.placed? = some payload) :
    ∃ quote ∈ desired cfg quotes book risk, IsPlacementOf cfg nowMs quote e payload := by
  have hevents : (self.sync rt cfg market quotes book risk nowMs).2 = events := by rw [h]
  rw [← hevents] at he
  by_cases hallow : risk.allowQuote = true
  · rw [sync_allowed self quotes book hallow] at he
    rcases placed_keepOrPlace _ _ e payload he hplaced with hcanceled | hquoted
    · have hnone := placed_cancelUnlessWanted _ _ (fun e he => by simp at he) e hcanceled
      rw [hnone] at hplaced
      simp at hplaced
    · exact hquoted
  · rw [sync_refused self quotes book (by simpa using hallow)] at he
    have hnone := placed_cancelLoop self.active.rows (self, []) (fun e he => by simp at he) e he
    rw [hnone] at hplaced
    simp at hplaced

/-! ### Removing what was filled -/

/-- No two active orders have one identity. -/
def DistinctIds (self : OrderProjector) : Prop :=
  ∀ a ∈ self.active.rows, ∀ b ∈ self.active.rows, a.orderId = b.orderId → a = b

theorem removeFilled_counter (self : OrderProjector) (orderId : String) :
    (self.removeFilled orderId).counter = self.counter := by
  unfold removeFilled
  split <;> rfl

/-- `remove_filled` takes off exactly the order with this identity. -/
theorem mem_removeFilled {self : OrderProjector} (hself : self.DistinctIds) {orderId : String}
    {order : ActiveVirtualOrder} :
    order ∈ (self.removeFilled orderId).active.rows ↔
      order ∈ self.active.rows ∧ order.orderId ≠ orderId := by
  unfold removeFilled
  split
  · rename_i found hfound
    have hmem := List.mem_of_find?_eq_some hfound
    have hid : found.orderId = orderId := by simpa using List.find?_some hfound
    show order ∈ (self.active.erase found.key).rows ↔ _
    rw [Py.Table.mem_erase]
    refine and_congr_right fun horder => not_congr ⟨fun hkey => ?_, fun heq => ?_⟩
    · rw [Py.Table.eq_of_key_eq horder hmem hkey, hid]
    · rw [hself order horder found hmem (heq.trans hid.symm)]
  · rename_i hnone
    have hout := List.find?_eq_none.mp hnone
    exact ⟨fun h => ⟨h, by simpa using hout order h⟩, fun h => h.1⟩

theorem distinctIds_removeFilled {self : OrderProjector} (hself : self.DistinctIds)
    (orderId : String) : (self.removeFilled orderId).DistinctIds := by
  intro a ha b hb hab
  exact hself a ((mem_removeFilled hself).mp ha).1 b ((mem_removeFilled hself).mp hb).1 hab

/-- The projector after a list of fills. -/
def removeAll (self : OrderProjector) (fills : List FillPayload) : OrderProjector :=
  fills.foldl (fun p fill => p.removeFilled fill.orderId) self

theorem removeAll_spec (fills : List FillPayload) : ∀ {self : OrderProjector},
    self.DistinctIds →
    (self.removeAll fills).counter = self.counter ∧ (self.removeAll fills).DistinctIds ∧
      ∀ order, order ∈ (self.removeAll fills).active.rows ↔
        order ∈ self.active.rows ∧ ∀ fill ∈ fills, order.orderId ≠ fill.orderId := by
  induction fills with
  | nil => intro self hself; exact ⟨rfl, hself, fun order => by simp [removeAll]⟩
  | cons fill rest ih =>
      intro self hself
      obtain ⟨hcounter, hdistinct, hmem⟩ := ih (distinctIds_removeFilled hself fill.orderId)
      refine ⟨hcounter.trans (removeFilled_counter _ _), hdistinct, fun order => ?_⟩
      show order ∈ ((self.removeFilled fill.orderId).removeAll rest).active.rows ↔ _
      rw [hmem, mem_removeFilled hself, List.forall_mem_cons, and_assoc]

end OrderProjector

end GhostAmm
