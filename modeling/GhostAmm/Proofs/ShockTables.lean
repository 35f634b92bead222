/-
What the summary says of each shock.

The loop over the fills keeps four dictionaries by shock, and the fills of one shock may lie
anywhere between those of others.  Each dictionary is a grouping of the fills (`Lib/Groups.lean`),
so what it has for a shock is what the fills of that shock alone make up, and the totals over
the shocks are the totals over the fills that belong to one.
-/
import GhostAmm.Lib.Groups
import GhostAmm.Model.Metrics

namespace GhostAmm

open Groups (firsts members gather addTo)

namespace FillTally

variable {lastFair : Option ℚ} {self : FillTally} {fill : FillPayload}

/-- The shock of a fill that has a fair price to gain on. -/
def pricedShock (fill : FillPayload) : Option String :=
  if (spreadValue fill).isSome then shockId fill else none

/-- The shock of a fill with a fair price five seconds later. -/
def followedShock (fill : FillPayload) : Option String :=
  if fill.fairAfter5s.isSome then shockId fill else none

/-- What a fill gains on the fair price for its size. -/
def captured (fill : FillPayload) : ℚ := (spreadValue fill).getD 0 * fill.fillSize

/-- How far the price moved in the five seconds after a fill. -/
def moved (fill : FillPayload) : List ℚ := (fill.fairAfter5s.map (adverseMove fill)).toList

theorem add_shockFillCounts : (add lastFair self fill).shockFillCounts
    = addTo shockId 0 (fun n _ => n + 1) self.shockFillCounts fill := by
  unfold add settle addTo
  cases hid : shockId fill with
  | none => cases fill.side <;> rfl
  | some id =>
      unfold addShock
      cases spreadValue fill <;> cases fill.fairAfter5s <;> cases fill.side <;> rfl

theorem add_shockDirectionByEvent : (add lastFair self fill).shockDirectionByEvent
    = if (shockId fill).isSome then
        self.shockDirectionByEvent.setDefault ((shockId fill).getD "", fill.shockDirection)
      else self.shockDirectionByEvent := by
  unfold add settle
  cases hid : shockId fill with
  | none => cases fill.side <;> rfl
  | some id =>
      unfold addShock
      cases spreadValue fill <;> cases fill.fairAfter5s <;> cases fill.side <;> rfl

theorem add_shockSpreadCapture : (add lastFair self fill).shockSpreadCapture
    = addTo pricedShock 0 (fun total fill => total + captured fill) self.shockSpreadCapture
        fill := by
  unfold add settle addTo pricedShock captured
  beta_reduce
  cases hid : shockId fill with
  | none => cases spreadValue fill <;> cases fill.side <;> rfl
  | some id =>
      unfold addShock
      cases spreadValue fill <;> cases fill.fairAfter5s <;> cases fill.side <;> rfl

theorem add_shockAdverse5s : (add lastFair self fill).shockAdverse5s
    = addTo followedShock [] (fun moves fill => moves ++ moved fill) self.shockAdverse5s fill := by
  unfold add settle addTo followedShock moved
  beta_reduce
  cases hid : shockId fill with
  | none => cases fill.fairAfter5s <;> cases fill.side <;> rfl
  | some id =>
      unfold addShock
      cases spreadValue fill <;> cases fill.fairAfter5s <;> cases fill.side <;> rfl

/-- The fills a capture is counted for are those it is nonzero for, at least. -/
theorem sum_captured (fills : List FillPayload) :
    ((fills.filter fun fill => (pricedShock fill).isSome).map captured).sum
      = ((fills.filter fun fill => (shockId fill).isSome).map captured).sum := by
  induction fills with
  | nil => rfl
  | cons fill rest ih =>
      rw [List.filter_cons, List.filter_cons]
      unfold pricedShock
      cases hvalue : spreadValue fill with
      | some value =>
          rw [Option.isSome_some, if_pos rfl]
          split
          · rw [List.map_cons, List.map_cons, List.sum_cons, List.sum_cons, ← ih]
            rfl
          · exact ih
      | none =>
          have hzero : captured fill = 0 := by
            unfold captured
            rw [hvalue]
            exact zero_mul _
          have hskip : (if (none : Option ℚ).isSome = true then shockId fill else none).isSome
              = false := rfl
          rw [if_neg (by rw [hskip]; simp)]
          split
          · rw [List.map_cons, List.sum_cons, hzero, zero_add]
            exact ih
          · exact ih

variable {initialBase initialQuote : ℚ} {fills : List FillPayload}

theorem rows_shockFillCounts :
    (ofFills initialBase initialQuote lastFair fills).shockFillCounts.rows
      = (firsts (fills.filterMap shockId)).map fun id =>
          (id, (members shockId id fills).length) := by
  unfold ofFills
  rw [Groups.gather_of_step (fun s x => add_shockFillCounts) fills rfl,
    Groups.rows_totals fun _ => 1]
  refine List.map_congr_left fun id _ => ?_
  rw [Groups.sum_ones]

theorem get?_shockDirectionByEvent (id : String) :
    (ofFills initialBase initialQuote lastFair fills).shockDirectionByEvent.get? id
      = (members shockId id fills).head?.map fun fill => (id, fill.shockDirection) := by
  unfold ofFills
  rw [← @List.foldl_hom _ _ _ FillTally.shockDirectionByEvent _
    (fun t fill => if (shockId fill).isSome then
      t.setDefault ((shockId fill).getD "", fill.shockDirection) else t)
    _ _ fun s x => add_shockDirectionByEvent.symm]
  have hget := @Groups.get?_setDefaults _ _ _ shockId id _ Prod.fst
    (fun fill : FillPayload => ((shockId fill).getD "", fill.shockDirection))
    (fun fill k hid => by rw [hid]; rfl) fills
  refine hget.trans ?_
  cases hhead : (members shockId id fills).head? with
  | none => rfl
  | some fill =>
      have hid := (Groups.mem_members.mp (List.mem_of_mem_head? hhead)).2
      simp [hid]

theorem rows_shockSpreadCapture :
    (ofFills initialBase initialQuote lastFair fills).shockSpreadCapture.rows
      = (firsts (fills.filterMap pricedShock)).map fun id =>
          (id, ((members pricedShock id fills).map captured).sum) := by
  unfold ofFills
  rw [Groups.gather_of_step (fun s x => add_shockSpreadCapture) fills rfl, Groups.rows_totals]

theorem rows_shockAdverse5s :
    (ofFills initialBase initialQuote lastFair fills).shockAdverse5s.rows
      = (firsts (fills.filterMap followedShock)).map fun id =>
          (id, (members followedShock id fills).flatMap moved) := by
  unfold ofFills
  rw [Groups.gather_of_step (fun s x => add_shockAdverse5s) fills rfl, Groups.rows_gather]
  refine List.map_congr_left fun id _ => ?_
  rw [List.foldl_append_eq_append, List.nil_append, List.flatMap_def]

end FillTally

open FillTally (pricedShock followedShock captured moved)

/--
**The summary groups the fills by their shock.**  Each table has the shocks in the order of their
first fill that counts for it, and for a shock the number of its fills, the direction of the first
of them, the sum of what they captured and the mean of the moves after them; and the totals over
the shocks are those over all the fills that belong to one.
-/
theorem shock_tables_exact (events : List Event) (initialBase initialQuote : ℚ)
    (lastFair : Option ℚ) :
    let summary := summarize events initialBase initialQuote lastFair
    let shockFills := (fills events).filter fun fill => (shockId fill).isSome
    summary.shockFillCountByEvent.rows
      = (firsts ((fills events).filterMap shockId)).map (fun id =>
          (id, (members shockId id (fills events)).length)) ∧
    (∀ id, summary.shockDirectionByEvent.get? id
      = (members shockId id (fills events)).head?.map fun fill => (id, fill.shockDirection)) ∧
    summary.shockTotalSpreadCaptureByEvent.rows
      = (firsts ((fills events).filterMap pricedShock)).map (fun id =>
          (id, ((members pricedShock id (fills events)).map captured).sum)) ∧
    summary.shockAverageAdverse5sByEvent
      = (firsts ((fills events).filterMap followedShock)).map (fun id =>
          (id, avg ((members followedShock id (fills events)).flatMap moved))) ∧
    summary.shockEventFillCount = shockFills.length ∧
    (summary.shockTotalSpreadCaptureByEvent.rows.map Prod.snd).sum
      = (shockFills.map captured).sum := by
  dsimp only
  refine ⟨FillTally.rows_shockFillCounts, FillTally.get?_shockDirectionByEvent,
    FillTally.rows_shockSpreadCapture, ?_, ?_, ?_⟩
  · show (FillTally.ofFills _ _ _ _).shockAdverse5s.rows.map _ = _
    rw [FillTally.rows_shockAdverse5s, List.map_map]
    rfl
  · show ((FillTally.ofFills _ _ _ _).shockFillCounts.rows.map Prod.snd).sum = _
    rw [FillTally.rows_shockFillCounts, List.map_map]
    have hones : ∀ id, (members shockId id (fills events)).length
        = ((members shockId id (fills events)).map fun _ => 1).sum := by
      intro id
      rw [Groups.sum_ones]
    rw [← Groups.sum_ones, ← Groups.sum_members]
    exact congrArg List.sum (List.map_congr_left fun id _ => hones id)
  · show ((FillTally.ofFills _ _ _ _).shockSpreadCapture.rows.map Prod.snd).sum = _
    rw [FillTally.rows_shockSpreadCapture, List.map_map, ← FillTally.sum_captured,
      ← Groups.sum_members]
    rfl

end GhostAmm
