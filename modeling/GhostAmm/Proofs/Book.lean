/-
The order book as a replica.

The market has a quantity at every price and changes by diffs that write some of them.
The recorder's two depth rooms deliver its history: the diffs in order, and in between
snapshots of the book as it was at some point up to then.  `applyEvent` follows the
replica of that history step by step, so it is right after every event exactly when
each diff that comes right after a snapshot leads on from the snapshot's point.

A snapshot older than the diffs before it breaks that.  The next diff passes the
sequence check, since the check compares with the snapshot's number, and the book
then carries the number of a point it does not show.
-/
import GhostAmm.Lib.Replica
import GhostAmm.Model.OrderBook

namespace GhostAmm

/-! ### The market -/

/-- The quantity at each price of one side. -/
abbrev Depth := ℚ → ℚ≥0

/-- A level: a price and the quantity there. -/
abbrev Level := ℚ × ℚ≥0

/-- Write the quantities of some levels. -/
def setDepth (depth : Depth) (levels : List Level) : Depth :=
  levels.foldl (fun depth level => Function.update depth level.1 level.2) depth

structure TrueBook where
  bids : Depth
  asks : Depth

/-- What a diff writes on each side. -/
structure Diff where
  bids : List Level := []
  asks : List Level := []

def TrueBook.write (book : TrueBook) (diff : Diff) : TrueBook where
  bids := setDepth book.bids diff.bids
  asks := setDepth book.asks diff.asks

/-- An initial book and diffs under increasing sequence numbers. -/
abbrev BookHistory := Replica.History TrueBook Diff

/-- The true book after the first `n` diffs. -/
abbrev BookHistory.bookAt (history : BookHistory) (n : ℕ) : TrueBook :=
  Replica.History.stateAt TrueBook.write history n

/-! ### One side of a book -/

/-- The levels of a table are the quantities of a side that are not zero. -/
def ShowsDepth (levels : Levels) (depth : Depth) : Prop :=
  ∀ price amount, (price, amount) ∈ levels.rows ↔ amount ≠ 0 ∧ amount = depth price

/-- A table shows one side only. -/
theorem ShowsDepth.unique {levels : Levels} {depth depth' : Depth} (h : ShowsDepth levels depth)
    (h' : ShowsDepth levels depth') : depth = depth' := by
  funext price
  by_cases hzero : depth price = 0
  · by_contra hne
    have hmem := (h' price (depth' price)).mpr ⟨?_, rfl⟩
    · have hback := ((h price (depth' price)).mp hmem).2
      exact hne (NNRat.coe_injective hback).symm
    · intro h0
      exact hne (hzero.trans (NNRat.coe_injective h0).symm)
  · have hmem := (h price (depth price)).mpr ⟨fun h0 => hzero (NNRat.coe_injective h0), rfl⟩
    exact NNRat.coe_injective ((h' price (depth price)).mp hmem).2

/-- `_set_level` writes one quantity. -/
theorem showsDepth_setLevel {levels : Levels} {depth : Depth} (h : ShowsDepth levels depth)
    (level : Level) :
    ShowsDepth (setLevel levels level.1 level.2) (Function.update depth level.1 level.2) := by
  intro price amount
  unfold setLevel
  by_cases hprice : price = level.1
  · subst hprice
    rw [Function.update_self]
    by_cases hzero : (level.2 : ℚ) = 0
    · rw [if_pos hzero, Py.Table.mem_erase, hzero]
      constructor
      · rintro ⟨-, hne⟩
        exact absurd rfl hne
      · rintro ⟨hne, heq⟩
        exact absurd heq hne
    · rw [if_neg hzero, Py.Table.mem_put, Prod.mk.injEq]
      constructor
      · rintro (⟨-, rfl⟩ | ⟨-, hne⟩)
        · exact ⟨hzero, rfl⟩
        · exact absurd rfl hne
      · rintro ⟨-, rfl⟩
        exact Or.inl ⟨rfl, rfl⟩
  · rw [Function.update_of_ne hprice, ← h price amount]
    by_cases hzero : (level.2 : ℚ) = 0
    · rw [if_pos hzero, Py.Table.mem_erase]
      exact ⟨fun hmem => hmem.1, fun hmem => ⟨hmem, hprice⟩⟩
    · rw [if_neg hzero, Py.Table.mem_put, Prod.mk.injEq]
      constructor
      · rintro (⟨rfl, -⟩ | ⟨hmem, -⟩)
        · exact absurd rfl hprice
        · exact hmem
      · intro hmem
        exact Or.inr ⟨hmem, hprice⟩

/-- Levels as a payload has them. -/
def payloadLevels (levels : List Level) : List (Scalar × Scalar) :=
  levels.map fun level => (.number level.1, .number level.2)

/-- The loop of `apply_delta` over one side writes all the quantities. -/
theorem showsDepth_setLevels (changes : List Level) : ∀ {levels : Levels} {depth : Depth},
    ShowsDepth levels depth →
    ∃ after, setLevels levels (payloadLevels changes) = (after, .ok ()) ∧
      ShowsDepth after (setDepth depth changes) := by
  induction changes with
  | nil => intro levels depth h; exact ⟨levels, rfl, h⟩
  | cons level rest ih =>
      intro levels depth h
      exact ih (showsDepth_setLevel h level)

/-- A list of levels that is a whole side: every quantity that is not zero, and no other. -/
def ListsDepth (levels : List Level) (depth : Depth) : Prop :=
  (∀ level ∈ levels, level.2 = depth level.1) ∧
    ∀ price, depth price ≠ 0 → (price, depth price) ∈ levels

/-- The levels a snapshot keeps are those that are not zero. -/
theorem parseSnapshot_payloadLevels (levels : List Level) :
    parseSnapshot (payloadLevels levels) = .ok
      ((levels.filter fun level => level.2 ≠ 0).map fun level => (level.1, (level.2 : ℚ))) := by
  induction levels with
  | nil => rfl
  | cons level rest ih =>
      unfold payloadLevels at ih ⊢
      rw [List.map_cons, parseSnapshot, ih]
      by_cases hzero : level.2 = 0
      · rw [List.filter_cons_of_neg (by simpa using hzero)]
        simp [Scalar.float, bind, Except.bind, hzero]
      · have hpos : (0 : ℚ) < level.2 := by simpa using pos_iff_ne_zero.mpr hzero
        rw [List.filter_cons_of_pos (by simpa using hzero), List.map_cons]
        simp [Scalar.float, bind, Except.bind, pure, Except.pure, hpos]

/-- A snapshot that lists a side shows it. -/
theorem showsDepth_ofList {levels : List Level} {depth : Depth} (h : ListsDepth levels depth) :
    ShowsDepth (Py.Table.ofList
      ((levels.filter fun level => level.2 ≠ 0).map fun level => (level.1, (level.2 : ℚ))))
      depth := by
  have hmem : ∀ price (amount : ℚ), (price, amount) ∈
      ((levels.filter fun level => level.2 ≠ 0).map fun level => (level.1, (level.2 : ℚ))) ↔
      amount ≠ 0 ∧ amount = depth price := by
    intro price amount
    rw [List.mem_map]
    constructor
    · rintro ⟨level, hlevel, heq⟩
      obtain ⟨rfl, rfl⟩ := Prod.mk.inj heq
      obtain ⟨hin, hne⟩ := List.mem_filter.mp hlevel
      exact ⟨by simpa using hne, by rw [h.1 level hin]⟩
    · rintro ⟨hne, rfl⟩
      have hpos : depth price ≠ 0 := fun h0 => hne (by rw [h0]; rfl)
      exact ⟨(price, depth price), List.mem_filter.mpr ⟨h.2 price hpos, by simpa using hpos⟩, rfl⟩
  intro price amount
  rw [Py.Table.mem_ofList, hmem]
  rintro ⟨p, a⟩ hv ⟨p', a'⟩ hw hkey
  obtain rfl : p = p' := hkey
  rw [((hmem p a).mp hv).2, ((hmem p a').mp hw).2]

/-! ### The two depth rooms -/

/-- An event that brings a message of a history of which `delivered` diffs have arrived. -/
def Carries (history : BookHistory) (delivered : ℕ) : Replica.Message → Event → Prop
  | .update, event => ∃ payload, event.body = .orderBookDelta payload ∧
      event.sequence.toInt = some (history.stamp (delivered + 1)) ∧
      payload.bids = payloadLevels (history.update delivered).bids ∧
      payload.asks = payloadLevels (history.update delivered).asks
  | .copy point, event => point ≤ delivered ∧
      ∃ bids asks, event.body = .orderBookSnapshot ⟨payloadLevels bids, payloadLevels asks⟩ ∧
        event.sequence.toInt = some (history.stamp point) ∧
        ListsDepth bids (history.bookAt point).bids ∧ ListsDepth asks (history.bookAt point).asks
  | .other, event => (∀ payload, event.body ≠ .orderBookSnapshot payload) ∧
      ∀ payload, event.body ≠ .orderBookDelta payload

/-- The book has the levels of a true one. -/
structure OrderBook.Shows (book : OrderBook) (content : TrueBook) : Prop where
  bids : ShowsDepth book.bids content.bids
  asks : ShowsDepth book.asks content.asks

/-- Unless it is stale, the book is the true one at its last sequence number. -/
def OrderBook.IsTrue (history : BookHistory) (book : OrderBook) : Prop :=
  book.stale = false →
    ∃ point, book.lastSequence = some (history.stamp point) ∧ book.Shows (history.bookAt point)

/-- The book holds what the replica holds, under the number of its point. -/
def Follows (history : BookHistory) (replica : Replica.State TrueBook) (book : OrderBook) : Prop :=
  match replica.held with
  | none => book.stale = true
  | some (point, content) => book.stale = false ∧ point ≤ replica.delivered ∧
      book.lastSequence = some (history.stamp point) ∧ book.Shows content

/-- A book is true when the replica it follows is faithful. -/
theorem Follows.isTrue_iff {history : BookHistory} {replica : Replica.State TrueBook}
    {book : OrderBook} (h : Follows history replica book) :
    Replica.Faithful TrueBook.write history replica ↔ book.IsTrue history := by
  unfold Follows at h
  unfold Replica.Faithful OrderBook.IsTrue
  cases hheld : replica.held with
  | none =>
      rw [hheld] at h
      simp [h]
  | some held =>
      obtain ⟨point, content⟩ := held
      rw [hheld] at h
      obtain ⟨hstale, -, hsequence, hshows⟩ := h
      constructor
      · intro hfaithful _
        obtain rfl : content = history.bookAt point := hfaithful _ rfl
        exact ⟨point, hsequence, hshows⟩
      · intro htrue held' hheld'
        obtain ⟨point', hsequence', hshows'⟩ := htrue hstale
        rw [← Option.some.inj hheld']
        -- the numbers are increasing, so the number names the point
        obtain rfl : point = point' := history.increasing.injective
          (Option.some.inj (hsequence.symm.trans hsequence'))
        have hbids := hshows.bids.unique hshows'.bids
        have hasks := hshows.asks.unique hshows'.asks
        cases content
        simp only at hbids hasks
        rw [hbids, hasks]

/-- **One event: `apply_event` does to the book what the message does to the replica.** -/
theorem Follows.applyEvent {history : BookHistory} {replica : Replica.State TrueBook}
    {book : OrderBook} (h : Follows history replica book) {message : Replica.Message}
    {event : Event} (hcarries : Carries history replica.delivered message event) :
    ∃ book', book.applyEvent event = (book', .ok ()) ∧
      Follows history (Replica.receive TrueBook.write history replica message) book' := by
  cases message with
  | update =>
      obtain ⟨payload, hbody, hseq, hbids, hasks⟩ := hcarries
      unfold OrderBook.applyEvent
      simp only [hbody]
      unfold OrderBook.applyDelta Replica.receive
      unfold Follows at h
      cases hheld : replica.held with
      | none =>
          rw [hheld] at h
          exact ⟨book, by simp [h], h⟩
      | some held =>
          obtain ⟨point, content⟩ := held
          rw [hheld] at h
          obtain ⟨hstale, hpoint, hsequence, hshows⟩ := h
          -- a diff is newer than whatever was shown before it
          have hnewer : history.stamp point < history.stamp (replica.delivered + 1) :=
            history.increasing (Nat.lt_succ_of_le hpoint)
          have horder : book.outOfOrder (some (history.stamp (replica.delivered + 1))) = false := by
            unfold OrderBook.outOfOrder
            rw [hsequence]
            simpa using hnewer
          obtain ⟨bids, hsetBids, hshowBids⟩ :=
            showsDepth_setLevels (history.update replica.delivered).bids hshows.bids
          obtain ⟨asks, hsetAsks, hshowAsks⟩ :=
            showsDepth_setLevels (history.update replica.delivered).asks hshows.asks
          simp only [hstale, horder, hbids, hasks, hsetBids, hsetAsks, hseq, Bool.false_eq_true,
            if_false]
          exact ⟨_, rfl, rfl, le_rfl, rfl, hshowBids, hshowAsks⟩
  | copy point =>
      obtain ⟨hpoint, bids, asks, hbody, hseq, hbids, hasks⟩ := hcarries
      unfold OrderBook.applyEvent
      simp only [hbody]
      unfold OrderBook.applySnapshot
      simp only [parseSnapshot_payloadLevels]
      exact ⟨_, rfl, rfl, hpoint, hseq, showsDepth_ofList hbids, showsDepth_ofList hasks⟩
  | other =>
      have hsame : book.applyEvent event = (book, .ok ()) := by
        unfold OrderBook.applyEvent
        split
        · rename_i payload hbody
          exact absurd hbody (hcarries.1 payload)
        · rename_i payload hbody
          exact absurd hbody (hcarries.2 payload)
        · rfl
      exact ⟨book, hsame, h⟩

/-- **The book is true after every event exactly when every diff leads on from the point the
book shows.**  The deliveries raise nothing.  A diff always leads on from the diff before it,
and from a snapshot in between if that was current. -/
theorem book_is_true_iff {history : BookHistory}
    {deliveries : List (Machine.Step (Replica.State TrueBook) Replica.Message Unit)}
    {replica : Replica.State TrueBook}
    (h : Machine.Run (Replica.step TrueBook.write history) {} deliveries replica)
    {events : List Event}
    (hcarries : List.Forall₂ (fun r event => Carries history r.before.delivered r.input event)
      deliveries events) :
    ∃ steps book, Machine.exec OrderBook.applyEvent {} events = (book, .ok steps) ∧
      ((∀ r ∈ steps, r.after.IsTrue history) ↔
        ∀ r ∈ deliveries, Replica.Seamless TrueBook.write history r.before r.input) ∧
      ((∀ r ∈ deliveries, r.input = .update →
          ∀ held ∈ r.before.held, held.1 = r.before.delivered) →
        ∀ r ∈ steps, r.after.IsTrue history) := by
  have hstart : Follows history {} {} := rfl
  have hstep : ∀ s message o t book event,
      Replica.step TrueBook.write history s message = (t, .ok o) →
      Follows history s book → Carries history s.delivered message event →
      ∃ book' o', book.applyEvent event = (book', .ok o') ∧ Follows history t book' := by
    intro s message o t book event hs hfollows hevent
    obtain ⟨rfl, -⟩ := Prod.mk.inj hs
    obtain ⟨book', hbook', hfollows'⟩ := hfollows.applyEvent hevent
    exact ⟨book', (), hbook', hfollows'⟩
  obtain ⟨steps, book, hrun, rfl, -, hafter⟩ := h.follow hstart hstep hcarries
  have hlaw : (∀ r ∈ steps, r.after.IsTrue history) ↔
      ∀ r ∈ deliveries, Replica.Seamless TrueBook.write history r.before r.input := by
    rw [← Replica.faithful_iff h]
    exact (Machine.forall_congr_of_forall₂ (fun _ _ hfollows => hfollows.isTrue_iff) hafter).symm
  exact ⟨steps, book, hrun.exec_eq, hlaw, fun hcurrent => hlaw.mpr fun r hr =>
    Replica.seamless_of_current _ _ (hcurrent r hr)⟩

/-! ### A market that moves twice -/

/-- Five are bid at 99, then two instead of one at 100. -/
private def twoDiffs : BookHistory where
  start := ⟨setDepth 0 [(100, 1)], setDepth 0 [(101, 1)]⟩
  update
    | 0 => { bids := [(99, 5)] }
    | 1 => { bids := [(100, 2)] }
    | _ => {}
  stamp := fun n => 10 + 2 * n
  increasing := fun a b h => by show (10 : ℤ) + 2 * a < 10 + 2 * b; omega

private def roomEvent (sequence : ℤ) (body : Body) : Event where
  eventId := ""
  tsExchange := 0
  tsLocal := 0
  venue := "bitbank"
  symbol := "BTC/JPY"
  sequence := .int sequence
  body := body

/-- The whole book before either diff. -/
private def firstBook : Event :=
  roomEvent 10 (.orderBookSnapshot ⟨payloadLevels [(100, 1)], payloadLevels [(101, 1)]⟩)

private def firstDiff : Event :=
  roomEvent 12 (.orderBookDelta ⟨payloadLevels [(99, 5)], payloadLevels []⟩)

private def secondDiff : Event :=
  roomEvent 14 (.orderBookDelta ⟨payloadLevels [(100, 2)], payloadLevels []⟩)

private theorem listsDepth_single (level : Level) : ListsDepth [level] (setDepth 0 [level]) := by
  have hself : setDepth 0 [level] level.1 = level.2 := by simp [setDepth]
  constructor
  · intro level' hlevel
    rw [List.mem_singleton.mp hlevel, hself]
  · intro price hne
    by_cases hprice : price = level.1
    · rw [hprice, hself]
      exact List.mem_singleton.mpr rfl
    · have hother : setDepth 0 [level] price = 0 := by simp [setDepth, hprice]
      exact absurd hother hne

private theorem carries_firstBook (delivered : ℕ) :
    Carries twoDiffs delivered (.copy 0) firstBook :=
  ⟨Nat.zero_le _, _, _, rfl, rfl, listsDepth_single _, listsDepth_single _⟩

private theorem carries_firstDiff : Carries twoDiffs 0 .update firstDiff := ⟨_, rfl, rfl, rfl, rfl⟩

private theorem carries_secondDiff : Carries twoDiffs 1 .update secondDiff :=
  ⟨_, rfl, rfl, rfl, rfl⟩

/-- A snapshot and both diffs. -/
theorem book_is_true_iff_two_diffs :
    let deliveries := Machine.stepsOf
      (Machine.exec (Replica.step TrueBook.write twoDiffs) {} [.copy 0, .update, .update])
    ∃ steps book,
      Machine.exec OrderBook.applyEvent {} [firstBook, firstDiff, secondDiff] = (book, .ok steps) ∧
      ((∀ r ∈ steps, r.after.IsTrue twoDiffs) ↔
        ∀ r ∈ deliveries, Replica.Seamless TrueBook.write twoDiffs r.before r.input) ∧
      ((∀ r ∈ deliveries, r.input = .update →
          ∀ held ∈ r.before.held, held.1 = r.before.delivered) →
        ∀ r ∈ steps, r.after.IsTrue twoDiffs) :=
  book_is_true_iff (Machine.run_exec rfl) (.cons (carries_firstBook 0)
    (.cons carries_firstDiff (.cons carries_secondDiff .nil)))

/-- The same with the snapshot again between the diffs: the book loses the bid at 99. -/
theorem book_wrong_after_old_snapshot :
    ¬ ∀ (history : BookHistory)
      (deliveries : List (Machine.Step (Replica.State TrueBook) Replica.Message Unit))
      (replica : Replica.State TrueBook),
      Machine.Run (Replica.step TrueBook.write history) {} deliveries replica →
      ∀ events : List Event,
        List.Forall₂ (fun r event => Carries history r.before.delivered r.input event)
          deliveries events →
        ∀ steps book, Machine.exec OrderBook.applyEvent {} events = (book, .ok steps) →
          ∀ r ∈ steps, r.after.IsTrue history := by
  intro h
  have hall := h twoDiffs
    (Machine.stepsOf
      (Machine.exec (Replica.step TrueBook.write twoDiffs) {} [.copy 0, .update, .copy 0, .update]))
    _ (Machine.run_exec rfl) [firstBook, firstDiff, firstBook, secondDiff]
    (.cons (carries_firstBook 0) (.cons carries_firstDiff (.cons (carries_firstBook 1)
      (.cons carries_secondDiff .nil))))
  have hlast : ∃ r ∈ Machine.stepsOf (Machine.exec OrderBook.applyEvent {}
      [firstBook, firstDiff, firstBook, secondDiff]),
      r.after.stale = false ∧ r.after.lastSequence = some 14 ∧ r.after.bids.get? 99 = none := by
    decide +kernel
  generalize Machine.exec OrderBook.applyEvent {} [firstBook, firstDiff, firstBook, secondDiff]
    = result at hall hlast
  obtain ⟨r, hr, hstale, hsequence, hlost⟩ := hlast
  have htrue : r.after.IsTrue twoDiffs := by
    obtain ⟨book, outcome⟩ := result
    cases outcome with
    | error e => simp [Machine.stepsOf] at hr
    | ok steps => exact hall steps book rfl r hr
  obtain ⟨point, hpoint, hshows⟩ := htrue hstale
  have htwo : point = 2 := by
    have hstamp : (14 : ℤ) = 10 + 2 * point := Option.some.inj (hsequence.symm.trans hpoint)
    omega
  have hbid : ((99 : ℚ), (5 : ℚ)) ∈ r.after.bids.rows :=
    (hshows.bids 99 5).mpr ⟨by norm_num, by rw [htwo]; rfl⟩
  exact Py.Table.get?_eq_none.mp hlost _ hbid rfl

end GhostAmm
