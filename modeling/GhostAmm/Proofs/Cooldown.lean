/-
When a side is in cooldown after a burst of fills.

The kernel keeps one trimmed history of the fills of both sides and one deadline a side, which
a later burst overwrites and `evaluate` deletes once it has passed.  As long as time does not
step back none of that loses anything: the history still holds every fill of the window that a
new fill looks at, the deadline is that of the last burst, which is the latest, and what is
deleted had run out.  So a side is in cooldown exactly if some burst of it is recent enough
(`fill_burst_cooldown_iff`), a burst being a fill with enough fills of its side in the window up
to it.
-/
import GhostAmm.Proofs.Drift

namespace GhostAmm

/-- A call that `record_fill` and `evaluate` take part in; a fill may come without a price and an
amount. -/
inductive BurstCall where
  | recordFill (side : Side) (tsMs : ℚ) (priced : Option (ℚ × ℚ))
  | evaluate (input : RiskInput)
  | recordTrade (price tsMs : ℚ)

namespace BurstCall

/-- The fill a call records. -/
def fill? : BurstCall → Option (ℚ × Side)
  | .recordFill side tsMs _ => some (tsMs, side)
  | _ => none

/-- The time of a call that is told one to measure by. -/
def time? : BurstCall → Option ℚ
  | .recordFill _ tsMs _ => some tsMs
  | .evaluate input => some input.nowMs
  | .recordTrade _ _ => none

end BurstCall

/-- The fills some calls record. -/
def recordedFills (calls : List BurstCall) : List (ℚ × Side) := calls.filterMap BurstCall.fill?

/-- The times of the calls do not step back. -/
def CallsInOrder (calls : List BurstCall) : Prop :=
  (calls.filterMap BurstCall.time?).Pairwise fun t u => t ≤ u

instance (calls : List BurstCall) : Decidable (CallsInOrder calls) :=
  inferInstanceAs (Decidable (List.Pairwise _ _))

/-- A fill with enough fills of its side in the window up to it. -/
def IsBurst (cfg : RiskConfig) (past : List (ℚ × Side)) (fill : ℚ × Side) : Prop :=
  cfg.maxSameSideFillsPerWindow ≤ ((past ++ [fill]).countP fun f =>
    decide (f.2 = fill.2 ∧ fill.1 - cfg.fillBurstWindowMs ≤ f.1 ∧ f.1 ≤ fill.1))

/-- Some burst of a side is more recent than the cooldown is long. -/
def RecentBurst (cfg : RiskConfig) (fills : List (ℚ × Side)) (side : Side) (nowMs : ℚ) : Prop :=
  ∃ past u rest, fills = past ++ (u, side) :: rest ∧ IsBurst cfg past (u, side) ∧ u ≤ nowMs ∧
    nowMs < u + cfg.fillBurstCooldownMs

namespace RiskKernel

variable {cfg : Config} {self : RiskKernel} {side : Side} {nowMs : ℚ}

def handleBurst (cfg : Config) (self : RiskKernel) : BurstCall → RiskKernel
  | .recordFill side tsMs (some (price, amount)) => self.recordFill cfg.risk side tsMs price amount
  | .recordFill side tsMs none => self.recordUnpricedFill cfg.risk side tsMs
  | .evaluate input => (self.evaluate cfg input).1
  | .recordTrade price tsMs => self.recordTrade price tsMs

/-- A side whose deadline has not passed. -/
def Cooling (self : RiskKernel) (side : Side) (nowMs : ℚ) : Prop :=
  ∃ row ∈ self.fillBurstCooldownUntil.get? side, nowMs < row.2

/-! ### One call -/

/-- The step of `_fill_burst_blocked_sides` at one side. -/
private def coolDown (nowMs : ℚ) (acc : RiskKernel × List Side) (side : Side) :
    RiskKernel × List Side :=
  match acc.1.fillBurstCooldownUntil.get? side with
  | none => acc
  | some (_, until_) =>
      if nowMs < until_ then (acc.1, acc.2 ++ [side])
      else ({ acc.1 with fillBurstCooldownUntil := acc.1.fillBurstCooldownUntil.erase side },
        acc.2)

private theorem coolDown_spec (nowMs : ℚ) (acc : RiskKernel × List Side) (side : Side) :
    (∀ s, s ∈ (coolDown nowMs acc side).2 ↔ s ∈ acc.2 ∨ (s = side ∧ acc.1.Cooling s nowMs)) ∧
    (coolDown nowMs acc side).1.fillHistory = acc.1.fillHistory ∧
    ∀ s t, nowMs ≤ t → ((coolDown nowMs acc side).1.Cooling s t ↔ acc.1.Cooling s t) := by
  unfold coolDown Cooling
  cases hget : acc.1.fillBurstCooldownUntil.get? side with
  | none =>
      refine ⟨fun s => ?_, rfl, fun s t _ => Iff.rfl⟩
      refine (or_iff_left ?_).symm
      rintro ⟨rfl, row, hrow, -⟩
      rw [hget] at hrow
      simp at hrow
  | some row =>
      obtain ⟨side', until_⟩ := row
      dsimp only
      by_cases hcool : nowMs < until_
      · rw [if_pos hcool]
        refine ⟨fun s => ?_, rfl, fun s t _ => Iff.rfl⟩
        rw [List.mem_append, List.mem_singleton]
        refine or_congr_right ⟨fun hs => ?_, fun hs => hs.1⟩
        subst hs
        exact ⟨rfl, _, hget, hcool⟩
      · rw [if_neg hcool]
        refine ⟨fun s => ?_, rfl, fun s t ht => ?_⟩
        · refine (or_iff_left ?_).symm
          rintro ⟨rfl, row, hrow, hlt⟩
          rw [hget] at hrow
          rw [← Option.some.inj hrow] at hlt
          exact absurd hlt hcool
        · by_cases hs : s = side
          · -- the deadline that goes had passed
            subst hs
            dsimp only
            rw [Py.Table.get?_erase_self, hget]
            have hlate : ¬ t < until_ := fun h => hcool (lt_of_le_of_lt ht h)
            simp [hlate]
          · dsimp only
            rw [Py.Table.get?_erase_ne _ hs]

/-- `_fill_burst_blocked_sides` names the sides in cooldown, and forgets none of them. -/
theorem fillBurstBlockedSides_spec (self : RiskKernel) (nowMs : ℚ) :
    (∀ side, side ∈ (self.fillBurstBlockedSides nowMs).2 ↔ self.Cooling side nowMs) ∧
    (self.fillBurstBlockedSides nowMs).1.fillHistory = self.fillHistory ∧
    ∀ side t, nowMs ≤ t →
      ((self.fillBurstBlockedSides nowMs).1.Cooling side t ↔ self.Cooling side t) := by
  have hloop : self.fillBurstBlockedSides nowMs
      = coolDown nowMs (coolDown nowMs (self, []) .buy) .sell := rfl
  obtain ⟨hbuy, hbhistory, hbcool⟩ := coolDown_spec nowMs (self, []) .buy
  obtain ⟨hsell, hshistory, hscool⟩ :=
    coolDown_spec nowMs (coolDown nowMs (self, []) .buy) .sell
  rw [hloop]
  refine ⟨fun side => ?_, hshistory.trans hbhistory, fun side t ht => ?_⟩
  · rw [hsell, hbuy, hbcool side nowMs le_rfl]
    cases side <;> simp
  · rw [hscool side t ht, hbcool side t ht]

private theorem inventoryBlocked_burst (self : RiskKernel) (inventory : InventoryState)
    (fair maxSize nowMs : ℚ) :
    (self.inventoryBlockedSides cfg inventory fair maxSize nowMs).1.fillHistory
        = self.fillHistory ∧
      (self.inventoryBlockedSides cfg inventory fair maxSize nowMs).1.fillBurstCooldownUntil
        = self.fillBurstCooldownUntil := by
  unfold inventoryBlockedSides
  extract_lets
  split <;> exact ⟨rfl, rfl⟩

/-- `evaluate` keeps the history of fills, and every deadline that has not passed. -/
theorem evaluate_burst (self : RiskKernel) (input : RiskInput) :
    (self.evaluate cfg input).1.fillHistory = self.fillHistory ∧
    ∀ side t, input.nowMs ≤ t →
      ((self.evaluate cfg input).1.Cooling side t ↔ self.Cooling side t) := by
  cases hchecked : self.checkedFair? cfg input with
  | none =>
      rw [evaluate_unchecked hchecked]
      exact ⟨rfl, fun _ _ _ => Iff.rfl⟩
  | some fair =>
      rw [(evaluate_checked hchecked).2]
      obtain ⟨-, hhistory, hcool⟩ :=
        fillBurstBlockedSides_spec (self.recordFair input.nowMs fair) input.nowMs
      obtain ⟨hhistory', huntil⟩ := @inventoryBlocked_burst cfg
        ((self.recordFair input.nowMs fair).fillBurstBlockedSides input.nowMs).1 input.inventory
        fair cfg.amm.maxOrderSize input.nowMs
      refine ⟨hhistory'.trans hhistory, fun side t ht => ?_⟩
      have hsame : (self.sideChecks cfg input fair).1.Cooling side t ↔
          ((self.recordFair input.nowMs fair).fillBurstBlockedSides input.nowMs).1.Cooling side
            t := by
        unfold Cooling
        exact iff_of_eq (congrArg (fun table : Py.Table (Prod.fst : Side × ℚ → Side) =>
          ∃ row ∈ table.get? side, t < row.2) huntil)
      exact hsame.trans (hcool side t ht)

/-- A fill is added to the history, and sets the deadline of its side if it is a burst. -/
theorem recordFill_burst {cfg : RiskConfig} (hN : 0 < cfg.maxSameSideFillsPerWindow)
    (self : RiskKernel) (side : Side) (tsMs price amount : ℚ) :
    (self.recordFill cfg side tsMs price amount).fillHistory
        = Window.push Prod.fst cfg.fillBurstWindowMs self.fillHistory (tsMs, side) ∧
    (self.recordFill cfg side tsMs price amount).fillBurstCooldownUntil
        = if cfg.maxSameSideFillsPerWindow
            ≤ (Window.push Prod.fst cfg.fillBurstWindowMs self.fillHistory (tsMs, side)).countP
              fun f => decide (f.2 = side) then
            self.fillBurstCooldownUntil.put (side, tsMs + cfg.fillBurstCooldownMs)
          else self.fillBurstCooldownUntil := by
  unfold recordFill
  simp only
  rw [if_neg (not_le.mpr hN)]
  split
  · rename_i hburst
    exact ⟨rfl, (if_pos hburst).symm⟩
  · rename_i hburst
    exact ⟨rfl, (if_neg hburst).symm⟩

/-! ### The reasons of a decision -/

/-- No side is blocked for a cooldown. -/
def NoCooldown (reasons : SideReasons) : Prop :=
  ∀ row ∈ reasons.rows, row.2 ≠ "fill_burst_cooldown"

/-- What blocks a side for its inventory is not a cooldown. -/
theorem inventoryBlockedSides_noCooldown (self : RiskKernel) (inventory : InventoryState)
    (fair maxSize nowMs : ℚ) :
    NoCooldown (self.inventoryBlockedSides cfg inventory fair maxSize nowMs).2 := by
  have hblock : ∀ {blocked : SideReasons} {b : Bool} {side : Side} {reason : String},
      NoCooldown blocked → reason ≠ "fill_burst_cooldown" →
      NoCooldown (if b then blocked.put (side, reason) else blocked) := by
    intro blocked b side reason hrows hreason row hrow
    split at hrow
    · rcases Py.Table.mem_put.mp hrow with rfl | ⟨hold, -⟩
      · exact hreason
      · exact hrows row hold
    · exact hrows row hrow
  unfold inventoryBlockedSides
  extract_lets _ block _ none quote base _ maxBase _ _ maxQuote _ maxNotional _ _ _ buy sell
  have hnone : NoCooldown none := by
    intro row hrow
    simp [none] at hrow
  have hquote : NoCooldown quote := hblock hnone (by decide)
  have hbase : NoCooldown base := hblock hquote (by decide)
  have hmaxBase : NoCooldown maxBase := hblock hbase (by decide)
  have hmaxQuote : NoCooldown maxQuote := hblock hmaxBase (by decide)
  have hmaxNotional : NoCooldown maxNotional := hblock hmaxQuote (by decide)
  split
  · have hbuy : NoCooldown buy := hblock hmaxNotional (by decide)
    exact (hblock hbuy (by decide) : NoCooldown sell)
  · exact hmaxNotional

/-- The reasons of some blocked sides, all the same one. -/
theorem mem_ofList_reason {sides : List Side} {reason : String} {row : Side × String} :
    row ∈ (Py.Table.ofList (sides.map fun side => (side, reason)) : SideReasons).rows ↔
      row ∈ sides.map fun side => (side, reason) := by
  refine Py.Table.mem_ofList fun v hv w hw hkey => ?_
  obtain ⟨a, -, rfl⟩ := List.mem_map.mp hv
  obtain ⟨b, -, rfl⟩ := List.mem_map.mp hw
  rw [show a = b from hkey]

/-- The cooldowns come first among the reasons, and what follows are defaults. -/
theorem sideChecks_reasons (self : RiskKernel) (input : RiskInput) (fair : ℚ) :
    let burst := (self.recordFair input.nowMs fair).fillBurstBlockedSides input.nowMs
    (self.sideChecks cfg input fair).2.sideBlockReasons
      = (burst.1.inventoryBlockedSides cfg input.inventory fair cfg.amm.maxOrderSize
          input.nowMs).2.rows.foldl Py.Table.setDefault
        (((self.fairDriftBlockedSides cfg.risk input.nowMs fair).map
            fun side => (side, "fair_drift_too_large")).foldl Py.Table.setDefault
          (Py.Table.ofList (burst.2.map fun side => (side, "fill_burst_cooldown")))) := by
  intro burst
  rw [List.foldl_map]
  rfl

/-- The reason a decision gives for a side in cooldown, and only for such a side. -/
theorem sideChecks_cooldown (self : RiskKernel) (input : RiskInput) (fair : ℚ) (side : Side) :
    (self.sideChecks cfg input fair).2.sideBlockReasons.get? side
        = some (side, "fill_burst_cooldown") ↔ self.Cooling side input.nowMs := by
  let recorded := self.recordFair input.nowMs fair
  obtain ⟨hburst, -, -⟩ := fillBurstBlockedSides_spec recorded input.nowMs
  have hcooling : recorded.Cooling side input.nowMs ↔ self.Cooling side input.nowMs := Iff.rfl
  rw [sideChecks_reasons, ← hcooling, ← hburst side]
  constructor
  · intro hget
    rcases Py.Table.mem_setDefaults _ (Py.Table.get?_eq_some.mp hget).1 with hmem | hmem
    · rcases Py.Table.mem_setDefaults _ hmem with hmem | hmem
      · obtain ⟨a, ha, heq⟩ := List.mem_map.mp (mem_ofList_reason.mp hmem)
        have hside : a = side := congrArg Prod.fst heq
        exact hside ▸ ha
      · obtain ⟨a, -, heq⟩ := List.mem_map.mp hmem
        have htext : "fair_drift_too_large" = "fill_burst_cooldown" := congrArg Prod.snd heq
        exact absurd htext (by decide)
    · exact absurd rfl (inventoryBlockedSides_noCooldown _ _ _ _ _ _ hmem)
  · intro hmem
    refine Py.Table.get?_setDefaults _ (Py.Table.get?_setDefaults _ ?_)
    exact Py.Table.get?_eq_some.mpr ⟨mem_ofList_reason.mpr (List.mem_map_of_mem hmem), rfl⟩

/-! ### A run of calls -/

/-- A new kernel after some calls. -/
def afterCalls (cfg : Config) (calls : List BurstCall) : RiskKernel :=
  calls.foldl (handleBurst cfg) {}

/-- What the calls leave in the kernel about bursts. -/
structure Remembers (cfg : Config) (calls : List BurstCall) (kernel : RiskKernel) : Prop where
  history : kernel.fillHistory
    = (recordedFills calls).foldl (Window.push Prod.fst cfg.risk.fillBurstWindowMs) []
  /-- From the last call on, the deadlines tell the recent bursts. -/
  cooling : ∀ side t, (∀ u ∈ calls.filterMap BurstCall.time?, u ≤ t) →
    (kernel.Cooling side t ↔ RecentBurst cfg.risk (recordedFills calls) side t)

variable {calls : List BurstCall}

/-- Fills are recorded in the order of time. -/
theorem inOrder_recordedFills (h : CallsInOrder calls) :
    Window.InOrder Prod.fst (recordedFills calls) := by
  unfold CallsInOrder at h
  unfold Window.InOrder recordedFills
  rw [List.pairwise_filterMap] at h ⊢
  refine h.imp fun {a b} hab f hf g hg => ?_
  have htime : ∀ {c : BurstCall} {f : ℚ × Side}, c.fill? = some f → c.time? = some f.1 := by
    intro c f hc
    cases c with
    | recordFill side tsMs priced =>
        rw [← Option.some.inj hc]
        rfl
    | evaluate input => simp [BurstCall.fill?] at hc
    | recordTrade price tsMs => simp [BurstCall.fill?] at hc
  exact hab f.1 (htime hf) g.1 (htime hg)

/-- The fills of its side that the kernel counts at a fill are those of the window up to it. -/
theorem count_push {width ts : ℚ} {fills : List (ℚ × Side)}
    (h : Window.InOrder Prod.fst (fills ++ [(ts, side)])) :
    (Window.push Prod.fst width (fills.foldl (Window.push Prod.fst width) []) (ts, side)).countP
        (fun f => decide (f.2 = side))
      = (fills ++ [(ts, side)]).countP fun f =>
        decide (f.2 = side ∧ ts - width ≤ f.1 ∧ f.1 ≤ ts) := by
  have hpush : Window.push Prod.fst width (fills.foldl (Window.push Prod.fst width) []) (ts, side)
      = (fills ++ [(ts, side)]).foldl (Window.push Prod.fst width) [] := by
    rw [List.foldl_append, List.foldl_cons, List.foldl_nil]
  have hkept : Window.kept Prod.fst width (fills ++ [(ts, side)])
      = (fills ++ [(ts, side)]).filter fun f => decide (ts - f.1 ≤ width) := by
    unfold Window.kept
    rw [List.getLast?_concat]
  have hlast : ∀ f ∈ fills ++ [(ts, side)], f.1 ≤ ts := by
    intro f hf
    rcases List.mem_append.mp hf with hf | hf
    · exact (List.pairwise_append.mp h).2.2 f hf (ts, side) (List.mem_singleton_self _)
    · rw [List.mem_singleton.mp hf]
  rw [hpush, Window.push_all h, hkept, List.countP_filter]
  refine List.countP_congr fun f hf => ?_
  have hts := hlast f hf
  rw [Bool.and_eq_true, decide_eq_true_eq, decide_eq_true_eq, decide_eq_true_eq, sub_le_comm]
  exact and_congr_right fun _ => (and_iff_left hts).symm

/-- A recent burst is an old one, or the last fill. -/
theorem recentBurst_concat {cfg : RiskConfig} {fills : List (ℚ × Side)} {fill : ℚ × Side} {t : ℚ} :
    RecentBurst cfg (fills ++ [fill]) side t ↔ RecentBurst cfg fills side t ∨
      (fill.2 = side ∧ IsBurst cfg fills fill ∧ fill.1 ≤ t ∧
        t < fill.1 + cfg.fillBurstCooldownMs) := by
  constructor
  · rintro ⟨past, u, rest, hfills, hburst, hu, ht⟩
    rcases List.eq_nil_or_concat rest with rfl | ⟨rest', last, rfl⟩
    · obtain ⟨rfl, hfill⟩ := List.append_inj' hfills rfl
      obtain rfl := List.singleton_inj.mp hfill
      exact Or.inr ⟨rfl, hburst, hu, ht⟩
    · rw [List.concat_eq_append, ← List.cons_append, ← List.append_assoc] at hfills
      obtain ⟨rfl, -⟩ := List.append_inj' hfills rfl
      exact Or.inl ⟨past, u, rest', rfl, hburst, hu, ht⟩
  · rintro (⟨past, u, rest, rfl, hburst, hu, ht⟩ | ⟨rfl, hburst, hu, ht⟩)
    · exact ⟨past, u, rest ++ [fill], by simp, hburst, hu, ht⟩
    · exact ⟨fills, fill.1, [], rfl, hburst, hu, ht⟩

/-- A deadline that is set now is the latest one. -/
theorem RecentBurst.lt_deadline {cfg : RiskConfig} {fills : List (ℚ × Side)} {ts t : ℚ}
    (hord : Window.InOrder Prod.fst (fills ++ [(ts, side)])) (h : RecentBurst cfg fills side t) :
    t < ts + cfg.fillBurstCooldownMs := by
  obtain ⟨past, u, rest, hpast, -, -, hlt⟩ := h
  have hu : u ≤ ts := (List.pairwise_append.mp hord).2.2 (u, side) (by rw [hpast]; simp) (ts, side)
    (List.mem_singleton_self _)
  linarith

/-- What a fill changes, with or without a price. -/
theorem handleBurst_recordFill (hN : 0 < cfg.risk.maxSameSideFillsPerWindow) (self : RiskKernel)
    (side : Side) (tsMs : ℚ) (priced : Option (ℚ × ℚ)) :
    (self.handleBurst cfg (.recordFill side tsMs priced)).fillHistory
        = Window.push Prod.fst cfg.risk.fillBurstWindowMs self.fillHistory (tsMs, side) ∧
      (self.handleBurst cfg (.recordFill side tsMs priced)).fillBurstCooldownUntil
        = if cfg.risk.maxSameSideFillsPerWindow ≤ (Window.push Prod.fst
              cfg.risk.fillBurstWindowMs self.fillHistory (tsMs, side)).countP
              fun f => decide (f.2 = side) then
            self.fillBurstCooldownUntil.put (side, tsMs + cfg.risk.fillBurstCooldownMs)
          else self.fillBurstCooldownUntil := by
  cases priced with
  | some p => exact recordFill_burst hN self side tsMs p.1 p.2
  | none => exact recordFill_burst hN self side tsMs 0 0

/-- **A fill keeps the memory.** -/
theorem Remembers.recordFill (hN : 0 < cfg.risk.maxSameSideFillsPerWindow)
    (h : Remembers cfg calls self) {tsMs : ℚ} {priced : Option (ℚ × ℚ)}
    (horder : CallsInOrder (calls ++ [.recordFill side tsMs priced])) :
    Remembers cfg (calls ++ [.recordFill side tsMs priced])
      (self.handleBurst cfg (.recordFill side tsMs priced)) := by
  obtain ⟨hhistory, huntil⟩ := handleBurst_recordFill hN self side tsMs priced
  have hfills : recordedFills (calls ++ [.recordFill side tsMs priced])
      = recordedFills calls ++ [(tsMs, side)] := List.filterMap_append
  have hinOrder := inOrder_recordedFills horder
  rw [hfills] at hinOrder
  rw [h.history, count_push hinOrder] at huntil
  refine ⟨?_, fun s t ht => ?_⟩
  · rw [hhistory, hfills, List.foldl_append, h.history]
    rfl
  · rw [List.filterMap_append] at ht
    have hts : tsMs ≤ t := ht tsMs (List.mem_append_right _ (List.mem_singleton_self _))
    have hbefore := h.cooling s t fun u hu => ht u (List.mem_append_left _ hu)
    unfold Cooling at hbefore ⊢
    rw [hfills, recentBurst_concat, huntil]
    by_cases hburst : IsBurst cfg.risk (recordedFills calls) (tsMs, side)
    · rw [if_pos (show cfg.risk.maxSameSideFillsPerWindow ≤ _ from hburst)]
      by_cases hs : s = side
      · -- the new deadline is the latest one
        subst hs
        rw [Py.Table.get?_put_self]
        constructor
        · rintro ⟨row, hrow, hlt⟩
          rw [← Option.some.inj hrow] at hlt
          exact Or.inr ⟨rfl, hburst, hts, hlt⟩
        · rintro (hold | ⟨-, -, -, hlt⟩)
          · exact ⟨_, rfl, RecentBurst.lt_deadline hinOrder hold⟩
          · exact ⟨_, rfl, hlt⟩
      · rw [Py.Table.get?_put_ne _ hs, hbefore]
        exact (or_iff_left fun hnew => hs hnew.1.symm).symm
    · rw [if_neg (show ¬ cfg.risk.maxSameSideFillsPerWindow ≤ _ from hburst), hbefore]
      exact (or_iff_left fun hnew => hburst hnew.2.1).symm

/-- A call that records no fill keeps the memory, if from its time on it changes no deadline. -/
theorem Remembers.quiet (h : Remembers cfg calls self) {call : BurstCall} {after : RiskKernel}
    (hfill : call.fill? = none) (hhistory : after.fillHistory = self.fillHistory)
    (hcool : ∀ side t, (∀ u ∈ call.time?, u ≤ t) → (after.Cooling side t ↔ self.Cooling side t)) :
    Remembers cfg (calls ++ [call]) after := by
  have hfills : recordedFills (calls ++ [call]) = recordedFills calls := by
    unfold recordedFills
    rw [List.filterMap_append, List.filterMap_cons_none hfill]
    exact List.append_nil _
  refine ⟨?_, fun side t ht => ?_⟩
  · rw [hfills, hhistory]
    exact h.history
  · rw [hfills, hcool side t fun u hu => ht u ?_]
    · exact h.cooling side t fun u hu => ht u (by
        rw [List.filterMap_append]
        exact List.mem_append_left _ hu)
    · rw [List.filterMap_append]
      exact List.mem_append_right _ (List.mem_filterMap.mpr ⟨call, List.mem_singleton_self _, hu⟩)

theorem recordTrade_burst (self : RiskKernel) (price tsMs : ℚ) :
    (self.recordTrade price tsMs).fillHistory = self.fillHistory ∧
      (self.recordTrade price tsMs).fillBurstCooldownUntil = self.fillBurstCooldownUntil := by
  unfold RiskKernel.recordTrade
  split <;> exact ⟨rfl, rfl⟩

/-- **Every call keeps the memory.** -/
theorem remembers_afterCalls (hN : 0 < cfg.risk.maxSameSideFillsPerWindow) :
    CallsInOrder calls → Remembers cfg calls (afterCalls cfg calls) := by
  induction calls using List.reverseRecOn with
  | nil =>
      intro _
      refine ⟨rfl, fun side t _ => iff_of_false ?_ ?_⟩
      · rintro ⟨row, hrow, -⟩
        exact absurd hrow (by simp [afterCalls])
      · rintro ⟨past, u, rest, hfills, -⟩
        exact absurd hfills (by simp [recordedFills])
  | append_singleton calls call ih =>
      intro horder
      have hbefore : CallsInOrder calls := by
        unfold CallsInOrder at horder ⊢
        rw [List.filterMap_append] at horder
        exact (List.pairwise_append.mp horder).1
      have hstep : afterCalls cfg (calls ++ [call])
          = (afterCalls cfg calls).handleBurst cfg call := by
        unfold afterCalls
        rw [List.foldl_append, List.foldl_cons, List.foldl_nil]
      rw [hstep]
      cases call with
      | recordFill side tsMs priced => exact (ih hbefore).recordFill hN horder
      | evaluate input =>
          obtain ⟨hhistory, hcool⟩ := @evaluate_burst cfg (afterCalls cfg calls) input
          exact (ih hbefore).quiet rfl hhistory fun side t ht => hcool side t (ht _ rfl)
      | recordTrade price tsMs =>
          obtain ⟨hhistory, huntil⟩ := recordTrade_burst (afterCalls cfg calls) price tsMs
          refine (ih hbefore).quiet rfl hhistory fun side t _ => ?_
          show (∃ row ∈ ((afterCalls cfg calls).recordTrade
            price tsMs).fillBurstCooldownUntil.get? side, t < row.2) ↔ _
          rw [huntil]
          rfl

end RiskKernel

open RiskKernel

/--
**The fill-burst cooldown is exact.**  In any interleaving of fills and decisions in the order
of time, a decision that passes the global gates reports a side in cooldown exactly if some
fill of that side, no longer ago than the cooldown, was a burst.
-/
theorem fill_burst_cooldown_iff {cfg : Config} {calls : List BurstCall} {input : RiskInput}
    (hN : 0 < cfg.risk.maxSameSideFillsPerWindow)
    (horder : CallsInOrder (calls ++ [.evaluate input]))
    (hchecked : ((afterCalls cfg calls).checkedFair? cfg input).isSome = true) (side : Side) :
    ((afterCalls cfg calls).evaluate cfg input).2.sideBlockReasons.get? side
        = some (side, "fill_burst_cooldown") ↔
      RecentBurst cfg.risk (recordedFills calls) side input.nowMs := by
  obtain ⟨fair, hfair⟩ := Option.isSome_iff_exists.mp hchecked
  unfold CallsInOrder at horder
  rw [List.filterMap_append, List.pairwise_append] at horder
  rw [(evaluate_checked hfair).2, sideChecks_cooldown]
  exact (remembers_afterCalls hN horder.1).cooling side input.nowMs fun u hu =>
    horder.2.2 u hu input.nowMs (List.mem_singleton_self _)

/-- Three buys within two seconds. -/
private def threeBuys : List BurstCall :=
  [.recordFill .buy 0 none, .recordFill .buy 1000 (some (10000000, 1 / 1000)),
    .recordFill .buy 2000 none]

/-- The bid is in cooldown after them, and the ask is not. -/
theorem fill_burst_cooldown_three_buys :
    RecentBurst flatConfig.risk (recordedFills threeBuys) .buy 2000 ∧
      ¬ RecentBurst flatConfig.risk (recordedFills threeBuys) .sell 2000 :=
  ⟨(@fill_burst_cooldown_iff flatConfig threeBuys (riskInputAt 2000 10000000 1)
      (by decide +kernel) (by decide +kernel) (by decide +kernel) .buy).mp (by decide +kernel),
    fun h => absurd ((@fill_burst_cooldown_iff flatConfig threeBuys (riskInputAt 2000 10000000 1)
      (by decide +kernel) (by decide +kernel) (by decide +kernel) .sell).mpr h)
      (by decide +kernel)⟩

end GhostAmm
