/-
What the fair price depends on.

`from_sources` takes two statistics one after the other: the median of the fresh
sources decides which of them are kept, and the median or the mean of the kept ones
is the price.  Both statistics depend on the values alone, so the state does not
depend on the order of the sources, but for the order of their names.

The first median is what keeps the price honest.  It lies between bounds that hold of
most of the fresh sources, and nothing is kept that is far from it.  The sources that
are kept can all be dishonest; each of them is still near an honest value.
-/
import GhostAmm.Lib.Median
import GhostAmm.Model.FairPrice

namespace GhostAmm

/-! ### The shape of a result -/

/-- The fresh sources, which the first median is taken of. -/
def freshSources (cfg : FairConfig) (nowMs : ℚ) (sources : List FairPriceSource) :
    List FairPriceSource := sources.filter (FairPriceSource.isFresh cfg nowMs)

/-- The sources near enough to a reference price. -/
def keptSources (cfg : FairConfig) (reference : ℚ) (fresh : List FairPriceSource) :
    List FairPriceSource :=
  fresh.filter fun s => decide (deviationBps s.fair reference ≤ cfg.maxSourceDeviationBps)

/-- The statistic the price is, by `use_median`. -/
def FairConfig.average (cfg : FairConfig) (fairs : List ℚ) : Except Py.Error ℚ :=
  if cfg.useMedian then Py.median fairs else Py.mean fairs

variable {cfg : FairConfig} {sources sources' : List FairPriceSource} {nowMs reference : ℚ}
  {st : FairPriceState}

/-- A valid state is the average of the sources near the median of the fresh ones. -/
theorem fromSources_valid (h : fromSources cfg sources nowMs = .ok st) (hv : st.isValid = true) :
    ∃ reference fair,
      Py.median ((freshSources cfg nowMs sources).map FairPriceSource.fair) = .ok reference ∧
      cfg.minSourceCount
        ≤ (keptSources cfg reference (freshSources cfg nowMs sources)).length ∧
      cfg.average ((keptSources cfg reference (freshSources cfg nowMs sources)).map
        FairPriceSource.fair) = .ok fair ∧
      st.fair = some fair := by
  unfold fromSources at h
  simp only at h
  split at h
  · rw [← Except.ok.inj h] at hv
    cases hv
  · split at h
    · cases h
    · rename_i reference hreference
      split at h
      · rw [← Except.ok.inj h] at hv
        cases hv
      · rename_i hcount
        split at h
        · cases h
        · rename_i fair hfair
          refine ⟨reference, fair, hreference, not_lt.mp hcount, hfair, ?_⟩
          rw [← Except.ok.inj h]

/-- With enough sources near the median of the fresh ones the state is valid. -/
theorem fromSources_enough
    (hmedian : Py.median ((freshSources cfg nowMs sources).map FairPriceSource.fair)
      = .ok reference)
    (hcount : cfg.minSourceCount
      ≤ (keptSources cfg reference (freshSources cfg nowMs sources)).length)
    {fair : ℚ} (haverage : cfg.average ((keptSources cfg reference
      (freshSources cfg nowMs sources)).map FairPriceSource.fair) = .ok fair) :
    ∃ st, fromSources cfg sources nowMs = .ok st ∧ st.isValid = true := by
  have hne : freshSources cfg nowMs sources ≠ [] := by
    intro hnil
    rw [hnil] at hmedian
    cases hmedian
  unfold fromSources
  simp only
  rw [if_neg (by simpa [freshSources] using hne)]
  simp only [freshSources, keptSources, FairConfig.average] at hmedian haverage hcount
  rw [hmedian]
  simp only
  rw [if_neg (not_lt.mpr hcount), haverage]
  exact ⟨_, rfl, rfl⟩

/-! ### A majority bounds the price -/

/-- A value near a reference is within the deviation bound of it. -/
theorem near_of_deviationBps {value bps : ℚ} (hr : 0 < reference)
    (h : deviationBps value reference ≤ bps) :
    |value - reference| ≤ reference * (bps / 10000) := by
  unfold deviationBps at h
  rw [if_neg (not_le.mpr hr), div_mul_eq_mul_div, div_le_iff₀ hr] at h
  linarith

/-- What is kept lies within the deviation bound of the bounds of a majority. -/
theorem kept_mem_Icc {lo hi d : ℚ} (hd : d = cfg.maxSourceDeviationBps / 10000)
    (hd0 : 0 ≤ d) (hpos : ∀ s ∈ sources, 0 < s.fair) (hlo : 0 < lo)
    (hreference : reference ∈ Set.Icc lo hi) :
    ∀ s ∈ keptSources cfg reference sources, s.fair ∈ Set.Icc (lo * (1 - d)) (hi * (1 + d)) := by
  intro s hs
  obtain ⟨hmem, hnear⟩ := List.mem_filter.mp hs
  have hr : 0 < reference := lt_of_lt_of_le hlo hreference.1
  have habs := near_of_deviationBps hr (of_decide_eq_true hnear)
  rw [← hd, abs_le] at habs
  have hup : reference * d ≤ hi * d := mul_le_mul_of_nonneg_right hreference.2 hd0
  constructor
  · -- past a bound of one the lower limit is not positive, and prices are
    rcases le_or_gt d 1 with hd1 | hd1
    · have hdown : lo * (1 - d) ≤ reference * (1 - d) :=
        mul_le_mul_of_nonneg_right hreference.1 (by linarith)
      linarith [habs.1]
    · have hneg : lo * (1 - d) ≤ 0 :=
        mul_nonpos_of_nonneg_of_nonpos hlo.le (by linarith)
      linarith [hpos s hmem]
  · linarith [habs.2, hreference.2]

theorem average_mem_Icc {fairs : List ℚ} {fair lo hi : ℚ} (h : cfg.average fairs = .ok fair)
    (hall : ∀ v ∈ fairs, v ∈ Set.Icc lo hi) : fair ∈ Set.Icc lo hi := by
  unfold FairConfig.average at h
  split at h
  · exact Py.median_mem_Icc_of_forall h hall
  · exact Py.mean_mem_Icc h hall

/-- **A strict majority of fresh sources bounds the fair price, whatever the others report.** -/
theorem fair_bounded_by_majority (cfg : FairConfig) (sources : List FairPriceSource)
    (nowMs lo hi : ℚ) (st : FairPriceState) (hpos : ∀ s ∈ sources, 0 < s.fair)
    (hd : 0 ≤ cfg.maxSourceDeviationBps / 10000) (hlo : 0 < lo)
    (hmost : (freshSources cfg nowMs sources).length
      < 2 * (freshSources cfg nowMs sources).countP
        fun s => decide (lo ≤ s.fair ∧ s.fair ≤ hi))
    (h : fromSources cfg sources nowMs = .ok st) (hv : st.isValid = true) :
    ∃ fair, st.fair = some fair ∧
      lo * (1 - cfg.maxSourceDeviationBps / 10000) ≤ fair ∧
      fair ≤ hi * (1 + cfg.maxSourceDeviationBps / 10000) := by
  obtain ⟨reference, fair, hreference, -, haverage, hfair⟩ := fromSources_valid h hv
  have hmiddle : reference ∈ Set.Icc lo hi := by
    refine Py.median_mem_Icc hreference ?_
    rw [List.length_map, List.countP_map]
    exact hmost
  have hfresh : ∀ s ∈ freshSources cfg nowMs sources, 0 < s.fair := fun s hs =>
    hpos s (List.mem_filter.mp hs).1
  have hkept : ∀ s ∈ keptSources cfg reference (freshSources cfg nowMs sources), s.fair ∈
      Set.Icc (lo * (1 - cfg.maxSourceDeviationBps / 10000))
        (hi * (1 + cfg.maxSourceDeviationBps / 10000)) :=
    kept_mem_Icc rfl hd hfresh hlo hmiddle
  refine ⟨fair, hfair, average_mem_Icc haverage ?_⟩
  intro v hv
  obtain ⟨s, hs, rfl⟩ := List.mem_map.mp hv
  exact hkept s hs

/-- Two sources near 100 outweigh one at 5000. -/
theorem fair_bounded_by_two_of_three :
    ∃ fair, (fromSources { maxSourceDeviationBps := 100 } [⟨"a", 100, 0, none, 1⟩,
        ⟨"b", 101, 0, none, 1⟩, ⟨"c", 5000, 0, none, 1⟩] 10).toOption.bind FairPriceState.fair
          = some fair ∧
      100 * (1 - (100 : ℚ) / 10000) ≤ fair ∧ fair ≤ 101 * (1 + (100 : ℚ) / 10000) := by
  have hstate : fromSources { maxSourceDeviationBps := 100 } [⟨"a", 100, 0, none, 1⟩,
      ⟨"b", 101, 0, none, 1⟩, ⟨"c", 5000, 0, none, 1⟩] 10
        = .ok ⟨some (201 / 2), 2, none, true, none, ["a", "b"], some (100 / 201 * 100)⟩ := by
    decide +kernel
  have hbounds := fair_bounded_by_majority _ _ _ 100 101 _ (by decide +kernel)
    (by decide +kernel) (by norm_num) (by decide +kernel) hstate rfl
  rw [hstate]
  exact hbounds

/-! ### The order of the sources -/

/-- Two outcomes that differ at most in the order of the names of their sources. -/
def AgreeUpToOrder : Except Py.Error FairPriceState → Except Py.Error FairPriceState → Prop
  | .ok a, .ok b => a.fair = b.fair ∧ a.sourceCount = b.sourceCount ∧ a.spreadBps = b.spreadBps ∧
      a.isValid = b.isValid ∧ a.reason = b.reason ∧ a.deviationBps = b.deviationBps ∧
      a.sources.Perm b.sources
  | .error e, .error f => e = f
  | _, _ => False

theorem medianOptional_perm {values values' : List (Option ℚ)} (h : values.Perm values') :
    medianOptional values = medianOptional values' := by
  unfold medianOptional
  rw [Py.median_perm (h.filterMap id)]

theorem max?_perm {values values' : List ℚ} (h : values.Perm values') :
    values.max? = values'.max? := by
  refine Option.ext fun m => ?_
  rw [List.max?_eq_some_iff, List.max?_eq_some_iff, h.mem_iff]
  exact and_congr_right fun _ => forall_congr' fun v => by rw [h.mem_iff]

theorem maxDeviation_perm (h : sources.Perm sources') (fair : ℚ) :
    maxDeviation sources fair = maxDeviation sources' fair :=
  max?_perm (h.map _)

theorem average_perm {fairs fairs' : List ℚ} (h : fairs.Perm fairs') :
    cfg.average fairs = cfg.average fairs' := by
  unfold FairConfig.average
  rw [Py.median_perm h, Py.mean_perm h]

/-- **The sources may come in any order.** -/
theorem fromSources_perm (h : sources.Perm sources') :
    AgreeUpToOrder (fromSources cfg sources nowMs) (fromSources cfg sources' nowMs) := by
  have hfresh := h.filter (FairPriceSource.isFresh cfg nowMs)
  unfold fromSources
  simp only
  by_cases hnone : (sources.filter (FairPriceSource.isFresh cfg nowMs)).isEmpty
  · have hnone' : (sources'.filter (FairPriceSource.isFresh cfg nowMs)).isEmpty := by
      rw [List.isEmpty_iff] at hnone ⊢
      exact List.Perm.nil_eq (hnone ▸ hfresh) |>.symm
    rw [if_pos hnone, if_pos hnone']
    exact ⟨rfl, rfl, rfl, rfl, rfl, rfl, List.Perm.refl _⟩
  · have hnone' : ¬ (sources'.filter (FairPriceSource.isFresh cfg nowMs)).isEmpty := by
      rw [List.isEmpty_iff] at hnone ⊢
      intro hnil
      exact hnone (List.Perm.eq_nil (hnil ▸ hfresh))
    rw [if_neg hnone, if_neg hnone', Py.median_perm (hfresh.map FairPriceSource.fair)]
    cases Py.median ((sources'.filter (FairPriceSource.isFresh cfg nowMs)).map
      FairPriceSource.fair) with
    | error e => exact rfl
    | ok reference =>
        have hkept := hfresh.filter fun s =>
          decide (deviationBps s.fair reference ≤ cfg.maxSourceDeviationBps)
        have haverage : cfg.average _ = cfg.average _ :=
          average_perm (hkept.map FairPriceSource.fair)
        unfold FairConfig.average at haverage
        simp only [hkept.length_eq, medianOptional_perm (hkept.map FairPriceSource.spreadBps),
          maxDeviation_perm hkept, haverage]
        split
        · exact ⟨rfl, rfl, rfl, rfl, rfl, rfl, hkept.map _⟩
        · split
          · exact rfl
          · exact ⟨rfl, rfl, rfl, rfl, rfl, rfl, hkept.map _⟩

end GhostAmm
