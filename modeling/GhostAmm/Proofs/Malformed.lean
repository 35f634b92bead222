/-
What a level that cannot be read leaves of a book.

`apply_delta` writes one level after the other, and `apply_snapshot` one side after the
other.  Whatever comes before the entry that raises stays written, under the old number
and without the book being marked stale.  So an event that raises leaves the book as it
was exactly when what it wrote until then was there already.

Two sides are the same when every lookup agrees, which is how dictionaries compare.
-/
import GhostAmm.Proofs.Health

namespace GhostAmm

/-! ### One side of a book -/

/-- `side.get(price)`. -/
def amountAt (side : Levels) (price : ℚ) : Option ℚ := (side.get? price).map Prod.snd

/-- The amount of the last of the levels at a price. -/
def lastAmount (price : ℚ) (levels : List (ℚ × ℚ)) : Option ℚ :=
  (levels.filter fun level => decide (level.1 = price)).getLast?.map Prod.snd

/-- What `_set_level` leaves at a price for an amount. -/
def levelOf (amount : ℚ) : Option ℚ := if amount = 0 then none else some amount

theorem lastAmount_concat (price : ℚ) (levels : List (ℚ × ℚ)) (level : ℚ × ℚ) :
    lastAmount price (levels ++ [level])
      = if level.1 = price then some level.2 else lastAmount price levels := by
  unfold lastAmount
  rw [List.filter_append]
  by_cases hprice : level.1 = price
  · simp [hprice]
  · simp [hprice]

theorem amountAt_setLevel (side : Levels) (level : ℚ × ℚ) (price : ℚ) :
    amountAt (setLevel side level.1 level.2) price
      = if level.1 = price then levelOf level.2 else amountAt side price := by
  unfold amountAt setLevel levelOf
  by_cases hprice : level.1 = price
  · rw [if_pos hprice, ← hprice]
    by_cases hzero : level.2 = 0
    · rw [if_pos hzero, if_pos hzero, Py.Table.get?_erase_self]
      rfl
    · have hself := Py.Table.get?_put_self side level
      rw [if_neg hzero, if_neg hzero, hself]
      rfl
  · rw [if_neg hprice]
    by_cases hzero : level.2 = 0
    · rw [if_pos hzero, Py.Table.get?_erase_ne _ fun h => hprice h.symm]
    · rw [if_neg hzero, Py.Table.get?_put_ne _ fun h => hprice h.symm]

/-- Levels set one after the other: the last at each price decides. -/
theorem amountAt_foldl (side : Levels) (price : ℚ) (levels : List (ℚ × ℚ)) :
    amountAt (levels.foldl (fun side level => setLevel side level.1 level.2) side) price
      = ((lastAmount price levels).map levelOf).getD (amountAt side price) := by
  induction levels using List.reverseRecOn with
  | nil => rfl
  | append_singleton levels level ih =>
      rw [List.foldl_append, List.foldl_cons, List.foldl_nil, amountAt_setLevel, lastAmount_concat,
        ih]
      by_cases hprice : level.1 = price
      · rw [if_pos hprice, if_pos hprice]
        rfl
      · rw [if_neg hprice, if_neg hprice]

/-- A comprehension: the last row at each price. -/
theorem amountAt_ofList (price : ℚ) (levels : List (ℚ × ℚ)) :
    amountAt (Py.Table.ofList levels) price = lastAmount price levels := by
  unfold amountAt lastAmount Py.Table.ofList
  rw [Py.Table.get?_foldl_put]
  simp

/-! ### What is read before an exception -/

/-- Both numbers of a level, if `float` reads them. -/
def numbersOf (level : Scalar × Scalar) : Option (ℚ × ℚ) :=
  match level.1.float, level.2.float with
  | .ok price, .ok amount => some (price, amount)
  | _, _ => none

/-- The levels before the first that cannot be read. -/
def readBefore (levels : List (Scalar × Scalar)) : List (ℚ × ℚ) :=
  (levels.takeWhile LevelReadable).filterMap numbersOf

/-- The levels `apply_delta` comes to are set, whether or not it raises. -/
theorem setLevels_fst : ∀ (levels : List (Scalar × Scalar)) (side : Levels),
    (setLevels side levels).1
      = (readBefore levels).foldl (fun side level => setLevel side level.1 level.2) side := by
  intro levels
  induction levels with
  | nil => intro side; rfl
  | cons level rest ih =>
      intro side
      obtain ⟨price, amount⟩ := level
      unfold readBefore at ih ⊢
      rw [setLevels]
      cases hprice : price.float with
      | error e =>
          rw [List.takeWhile_cons_of_neg (by simp [LevelReadable, hprice, Except.isOk,
            Except.toBool])]
          rfl
      | ok p =>
          cases hamount : amount.float with
          | error e =>
              rw [List.takeWhile_cons_of_neg (by simp [LevelReadable, hamount, Except.isOk,
                Except.toBool])]
              rfl
          | ok a =>
              have hnumbers : numbersOf (price, amount) = some (p, a) := by
                unfold numbersOf
                rw [hprice, hamount]
              rw [List.takeWhile_cons_of_pos (by simp [LevelReadable, hprice, hamount,
                Except.isOk, Except.toBool]), List.filterMap_cons_some hnumbers, List.foldl_cons]
              exact ih _

/-- A snapshot reads the amount, and the price of a level it keeps. -/
def SnapshotReadable (level : Scalar × Scalar) : Bool :=
  match level.2.float with
  | .error _ => false
  | .ok amount => decide (amount ≤ 0) || level.1.float.isOk

/-- What a snapshot keeps of a level it reads. -/
def keptLevel (level : Scalar × Scalar) : Option (ℚ × ℚ) :=
  (numbersOf level).filter fun numbers => decide (0 < numbers.2)

/-- The levels a snapshot keeps, if it reads all of them. -/
def keptLevels (levels : List (Scalar × Scalar)) : List (ℚ × ℚ) := levels.filterMap keptLevel

theorem keptLevel_of_pos {level : Scalar × Scalar} {p a : ℚ} (hprice : level.1.float = .ok p)
    (hamount : level.2.float = .ok a) (hpos : 0 < a) : keptLevel level = some (p, a) := by
  unfold keptLevel numbersOf
  rw [hprice, hamount]
  simp [Option.filter_some, hpos]

theorem keptLevel_of_not_pos {level : Scalar × Scalar} {a : ℚ} (hamount : level.2.float = .ok a)
    (hpos : ¬ 0 < a) : keptLevel level = none := by
  unfold keptLevel numbersOf
  rw [hamount]
  cases level.1.float with
  | error e => rfl
  | ok p => simp [Option.filter_some, hpos]

theorem snapshotReadable_of_ok {level : Scalar × Scalar} {a : ℚ}
    (hamount : level.2.float = .ok a) :
    SnapshotReadable level = (decide (a ≤ 0) || level.1.float.isOk) := by
  unfold SnapshotReadable
  rw [hamount]

/-- A snapshot's side is what it keeps, or an exception. -/
theorem parseSnapshot_eq (levels : List (Scalar × Scalar)) : ∃ e,
    parseSnapshot levels
      = if levels.all SnapshotReadable = true then .ok (keptLevels levels) else .error e := by
  unfold keptLevels
  induction levels with
  | nil => exact ⟨.typeError "", rfl⟩
  | cons level rest ih =>
      obtain ⟨e, hrest⟩ := ih
      obtain ⟨price, amount⟩ := level
      rw [parseSnapshot, List.all_cons, hrest]
      cases hamount : amount.float with
      | error e' =>
          have hread : SnapshotReadable (price, amount) = false := by
            unfold SnapshotReadable
            rw [hamount]
          rw [hread]
          exact ⟨e', rfl⟩
      | ok a =>
          rw [snapshotReadable_of_ok hamount]
          simp only [bind, Except.bind]
          by_cases hpos : 0 < a
          · have hle : decide (a ≤ 0) = false := by simpa using hpos
            rw [if_pos hpos, hle, Bool.false_or]
            cases hprice : price.float with
            | error e' => exact ⟨e', rfl⟩
            | ok p =>
                rw [List.filterMap_cons_some (keptLevel_of_pos hprice hamount hpos)]
                refine ⟨e, ?_⟩
                by_cases hall : rest.all SnapshotReadable = true
                · simp [hall, Except.isOk, Except.toBool, pure, Except.pure]
                · simp [hall]
          · -- the price of a level that is filtered out is not read
            have hle : decide (a ≤ 0) = true := by simpa using hpos
            rw [if_neg hpos, hle, Bool.true_or, Bool.true_and,
              List.filterMap_cons_none (keptLevel_of_not_pos hamount hpos)]
            exact ⟨e, rfl⟩

/-! ### The whole book -/

namespace OrderBook

/-- Books that compare equal: every lookup and every other attribute agrees. -/
structure Same (book book' : OrderBook) : Prop where
  bids : ∀ price, amountAt book'.bids price = amountAt book.bids price
  asks : ∀ price, amountAt book'.asks price = amountAt book.asks price
  lastSequence : book'.lastSequence = book.lastSequence
  lastTs : book'.lastTs = book.lastTs
  stale : book'.stale = book.stale
  staleReason : book'.staleReason = book.staleReason

/-- If applying the event raises, the book is as it was. -/
def AllOrNothing (book : OrderBook) (event : Event) : Prop :=
  ∀ e, (book.applyEvent event).2 = .error e → book.Same (book.applyEvent event).1

/-- Setting the levels one after the other changes nothing in the end. -/
def Restates (side : Levels) (levels : List (ℚ × ℚ)) : Prop :=
  ∀ price, ∀ amount ∈ lastAmount price levels, amountAt side price = levelOf amount

theorem restates_iff (side : Levels) (levels : List (ℚ × ℚ)) :
    Restates side levels ↔ ∀ price,
      amountAt (levels.foldl (fun side level => setLevel side level.1 level.2) side) price
        = amountAt side price := by
  unfold Restates
  refine forall_congr' fun price => ?_
  rw [amountAt_foldl]
  cases lastAmount price levels with
  | none => simp
  | some amount => simp [eq_comm]

/-- What the event writes before an entry that cannot be read, the book has already. -/
def HasWhatIsRead (book : OrderBook) (event : Event) : Prop :=
  match event.body with
  | .orderBookSnapshot payload =>
      payload.bids.all SnapshotReadable = true → payload.asks.all SnapshotReadable = false →
        ∀ price, amountAt book.bids price = lastAmount price (keptLevels payload.bids)
  | .orderBookDelta payload =>
      book.stale = false → book.outOfOrder event.sequence.toInt = false →
        (payload.bids ++ payload.asks).all LevelReadable = false →
          Restates book.bids (readBefore payload.bids) ∧
          (payload.bids.all LevelReadable = true → Restates book.asks (readBefore payload.asks))
  | _ => True

variable {book : OrderBook} {event : Event} {payload : BookPayload}

/-- Books that differ in their sides alone. -/
theorem same_sides_iff (book : OrderBook) (bids asks : Levels) :
    book.Same { book with bids := bids, asks := asks } ↔
      (∀ price, amountAt bids price = amountAt book.bids price) ∧
        ∀ price, amountAt asks price = amountAt book.asks price :=
  ⟨fun h => ⟨h.bids, h.asks⟩, fun h => ⟨h.1, h.2, rfl, rfl, rfl, rfl⟩⟩

theorem allOrNothing_snapshot (hbody : event.body = .orderBookSnapshot payload) :
    book.AllOrNothing event ↔ book.HasWhatIsRead event := by
  unfold AllOrNothing HasWhatIsRead applyEvent
  simp only [hbody]
  unfold applySnapshot
  obtain ⟨eBids, hbids⟩ := parseSnapshot_eq payload.bids
  obtain ⟨eAsks, hasks⟩ := parseSnapshot_eq payload.asks
  rw [hbids, hasks]
  by_cases hreadBids : payload.bids.all SnapshotReadable = true
  · rw [if_pos hreadBids]
    by_cases hreadAsks : payload.asks.all SnapshotReadable = true
    · simp [hreadAsks]
    · -- the bids are written and the asks are not
      rw [if_neg hreadAsks]
      have hsame := same_sides_iff book (Py.Table.ofList (keptLevels payload.bids))
        book.asks
      simp only [amountAt_ofList, implies_true, and_true] at hsame
      have hunread : payload.asks.all SnapshotReadable = false := by simpa using hreadAsks
      constructor
      · intro h _ _ price
        exact (hsame.mp (h eAsks rfl) price).symm
      · intro h e _
        exact hsame.mpr fun price => (h hreadBids hunread price).symm
  · rw [if_neg hreadBids]
    refine iff_of_true (fun e _ => ⟨fun _ => rfl, fun _ => rfl, rfl, rfl, rfl, rfl⟩) ?_
    intro hread
    exact absurd hread hreadBids

theorem allOrNothing_delta (hbody : event.body = .orderBookDelta payload) :
    book.AllOrNothing event ↔ book.HasWhatIsRead event := by
  unfold AllOrNothing HasWhatIsRead applyEvent
  simp only [hbody]
  unfold applyDelta
  simp only
  by_cases hstale : book.stale = true
  · rw [if_pos hstale]
    simp [hstale]
  rw [if_neg hstale]
  by_cases horder : book.outOfOrder event.sequence.toInt = true
  · rw [if_pos horder]
    simp [horder]
  rw [if_neg horder]
  rw [forall_prop_of_true (by simpa using hstale), forall_prop_of_true (by simpa using horder),
    List.all_append]
  have hbids := restates_iff book.bids (readBefore payload.bids)
  have hasks := restates_iff book.asks (readBefore payload.asks)
  rw [← setLevels_fst] at hbids hasks
  rw [hbids, hasks, ← setLevels_isOk payload.bids book.bids,
    ← setLevels_isOk payload.asks book.asks]
  generalize setLevels book.bids payload.bids = bidsSet
  generalize setLevels book.asks payload.asks = asksSet
  obtain ⟨bids, bidsOutcome⟩ := bidsSet
  obtain ⟨asks, asksOutcome⟩ := asksSet
  cases bidsOutcome with
  | error e =>
      have hsame := same_sides_iff book bids book.asks
      simp only [implies_true, and_true] at hsame
      simp [Except.isOk, Except.toBool, hsame]
  | ok _ =>
      cases asksOutcome with
      | error e =>
          have hsame := same_sides_iff book bids asks
          simp [Except.isOk, Except.toBool, hsame]
      | ok _ => simp [Except.isOk, Except.toBool]

end OrderBook

/--
**Book updates are all or nothing exactly when nothing new was read.**  An event that raises
leaves the book as it was exactly when the book has already what the event writes before the
entry that raises.
-/
theorem all_or_nothing_iff (book : OrderBook) (event : Event) :
    book.AllOrNothing event ↔ book.HasWhatIsRead event := by
  cases hbody : event.body with
  | orderBookSnapshot payload => exact OrderBook.allOrNothing_snapshot hbody
  | orderBookDelta payload => exact OrderBook.allOrNothing_delta hbody
  | _ =>
      unfold OrderBook.AllOrNothing OrderBook.HasWhatIsRead OrderBook.applyEvent
      simp [hbody]

/-- A diff with a readable bid and an ask whose amount is no number. -/
private def halfReadable : Event :=
  marketEvent 1 (.int 2) (.orderBookDelta
    { bids := [(.number 100, .number 5)], asks := [(.number 101, .text "n/a")] })

/-- The bid is written although the ask cannot be read. -/
theorem book_half_updated :
    ¬ ∀ (book : OrderBook) (event : Event), book.AllOrNothing event := by
  intro h
  have hsame := h (OrderBook.fed {} [snapshotEvent 0 1 100 101]) halfReadable _ rfl
  have hbid := hsame.bids 100
  revert hbid
  decide +kernel

end GhostAmm
