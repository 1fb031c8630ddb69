import Quorum.LedgerRuns

/-! The meter over one key and the meter over a set of runs. Where every charge in the window that
names one of the runs stands under the key, and every row in the window that stands under the key
names one of them, the two read the same amount: a correction under another key is one of a run
without a charge in the window. -/

namespace Quorum

open IsoTime Transaction

universe u

/-- Rows that a fold passes over may be left out of it. -/
theorem foldlM_filter_of_skips {ε α σ : Type u} {f : σ → α → Except ε σ} {p : α → Bool}
    (I : σ → Prop) (rows : List α)
    (hskips : ∀ row ∈ rows, p row = false → ∀ s, I s → f s row = .ok s)
    (hkeeps : ∀ row ∈ rows, ∀ s s', I s → f s row = .ok s' → I s') {s : σ} (hs : I s) :
    (rows.filter p).foldlM f s = rows.foldlM f s := by
  induction rows generalizing s with
  | nil => rfl
  | cons row rows ih =>
      have hrest : ∀ s, I s → (rows.filter p).foldlM f s = rows.foldlM f s := fun s hs =>
        ih (fun r hr => hskips r (List.mem_cons_of_mem row hr)) (fun r hr =>
          hkeeps r (List.mem_cons_of_mem row hr)) hs
      rw [List.foldlM_cons]
      cases hp : p row with
      | false =>
          rw [List.filter_cons_of_neg (by rw [hp]; exact Bool.false_ne_true),
            hskips row List.mem_cons_self hp s hs]
          exact hrest s hs
      | true =>
          rw [List.filter_cons_of_pos hp, List.foldlM_cons]
          cases hstep : f s row with
          | error raised => rfl
          | ok s' => exact hrest s' (hkeeps row List.mem_cons_self s s' hs hstep)

/-! ### The runs that a fold has charged -/

/-- A charge opens no run but its own. -/
theorem addCharge_get? {totals totals' : Dict Uuid Amount × Amount} {row : EventRow}
    {queryRunId : Uuid} (hother : row.queryRunId ≠ some queryRunId)
    (hnone : totals.1.get? queryRunId = none) (h : addCharge totals row = .ok totals') :
    totals'.1.get? queryRunId = none := by
  rw [addCharge] at h
  cases hloads : loads row with
  | error raised =>
      rw [hloads] at h
      cases h
  | ok payload =>
      rw [hloads] at h
      cases hrun : row.queryRunId with
      | none =>
          rw [hrun] at h
          cases h
          exact hnone
      | some run =>
          rw [hrun] at h
          cases h
          rw [hrun] at hother
          show (Tally.add totals.1 (run, _)).get? queryRunId = none
          rw [Tally.get?_add, if_neg fun heq => hother (congrArg some (Eq.symm heq)), hnone]

theorem foldlM_addCharge_get? {rows : List EventRow} {totals totals' : Dict Uuid Amount × Amount}
    {queryRunId : Uuid} (hother : ∀ row ∈ rows, row.queryRunId ≠ some queryRunId)
    (hnone : totals.1.get? queryRunId = none) (h : rows.foldlM addCharge totals = .ok totals') :
    totals'.1.get? queryRunId = none := by
  induction rows generalizing totals with
  | nil =>
      cases h
      exact hnone
  | cons row rows ih =>
      rw [List.foldlM_cons] at h
      cases hstep : addCharge totals row with
      | error raised =>
          rw [hstep] at h
          cases h
      | ok next =>
          rw [hstep] at h
          exact ih (fun r hr => hother r (List.mem_cons_of_mem row hr))
            (addCharge_get? (hother row List.mem_cons_self) hnone hstep) h

/-- A correction opens no run. -/
theorem applyCorrection_get? {charged charged' : Dict Uuid Amount} {row : EventRow}
    {queryRunId : Uuid} (hnone : charged.get? queryRunId = none)
    (h : applyCorrection charged row = .ok charged') :
    charged'.get? queryRunId = none := by
  have hset : ∀ run amount, (charged.get? run).isNone = false →
      (charged.set run amount).get? queryRunId = none := by
    intro run amount hrun
    have hne : queryRunId ≠ run := by
      rintro rfl
      rw [hnone] at hrun
      cases hrun
    rw [Dict.get?_set_of_ne _ _ hne, hnone]
  rw [applyCorrection] at h
  cases hrun : row.queryRunId with
  | none =>
      rw [hrun] at h
      cases h
      exact hnone
  | some run =>
      rw [hrun] at h
      dsimp only at h
      cases hcharged : (charged.get? run).isNone with
      | true =>
          rw [if_pos hcharged] at h
          cases h
          exact hnone
      | false =>
          rw [if_neg (by rw [hcharged]; exact Bool.false_ne_true)] at h
          split at h
          · cases h
            exact hset run 0 hcharged
          · cases hloads : loads row with
            | error raised =>
                rw [hloads] at h
                cases h
            | ok payload =>
                rw [hloads] at h
                cases hactual : payload.actualCostUsd with
                | none =>
                    simp only [bind, Except.bind, hactual] at h
                    cases h
                    exact hnone
                | some actual =>
                    simp only [bind, Except.bind, hactual] at h
                    cases h
                    exact hset run actual hcharged

/-- A correction of a run without a charge changes nothing. -/
theorem applyCorrection_skips {charged : Dict Uuid Amount} {row : EventRow}
    (h : ∀ queryRunId, row.queryRunId = some queryRunId → charged.get? queryRunId = none) :
    applyCorrection charged row = .ok charged := by
  rw [applyCorrection]
  cases hrun : row.queryRunId with
  | none => rfl
  | some queryRunId =>
      dsimp only
      rw [h queryRunId hrun]
      rfl

/-! ### One key and a set of runs -/

/-- The row of a meter of everyone that also stands under the key. -/
theorem metered_some (cutoff : Instant) (key : Uuid) (eventTypes : List EventType)
    (row : EventRow) :
    row.metered cutoff (some key) eventTypes =
      (row.metered cutoff none eventTypes && decide (row.accountId = some key)) := by
  simp only [EventRow.metered, EventRow.ofAccount, Bool.and_eq_decide]
  congr 1
  simp only [decide_eq_true_eq, eq_iff_iff, true_and]
  tauto

/-- The rows in the window that stand under the key name the runs, and the charges in the window
that name the runs stand under the key. A correction of a run stands under the key of its charge. -/
structure MeteredUnder (cutoff : Instant) (key : Uuid) (mine : EventRow → Bool)
    (eventTypes : List EventType) (events : List EventRow) : Prop where
  named : ∀ row ∈ events, row.metered cutoff (some key) (eventTypes ++ correctionEvents) → mine row
  charges : ∀ row ∈ events, mine row → row.metered cutoff none eventTypes → row.accountId = some key
  corrections : ∀ row ∈ events, mine row → row.metered cutoff none correctionEvents →
    row.accountId ≠ some key → ∀ charge ∈ events, mine charge →
      charge.metered cutoff none eventTypes →
      ∀ queryRunId, row.queryRunId = some queryRunId → charge.queryRunId ≠ some queryRunId

theorem metered_append_left {cutoff : Instant} {accountId : Option Uuid}
    {types types' : List EventType} {row : EventRow} (h : row.metered cutoff accountId types) :
    row.metered cutoff accountId (types ++ types') := by
  simp only [EventRow.metered, decide_eq_true_eq] at h ⊢
  exact ⟨h.1, List.mem_append_left types' h.2.1, h.2.2⟩

theorem metered_append_right {cutoff : Instant} {accountId : Option Uuid}
    {types types' : List EventType} {row : EventRow} (h : row.metered cutoff accountId types') :
    row.metered cutoff accountId (types ++ types') := by
  simp only [EventRow.metered, decide_eq_true_eq] at h ⊢
  exact ⟨h.1, List.mem_append_right types h.2.1, h.2.2⟩

/-- The meter of the key reads what the meter of everyone reads over the rows of the runs. -/
theorem spendTotalLocked_of_runs {cutoff : Instant} {key : Uuid} {mine : EventRow → Bool}
    {eventTypes : List EventType} {events : List EventRow}
    (h : MeteredUnder cutoff key mine eventTypes events) :
    spendTotalLocked cutoff (some key) eventTypes events =
      spendTotalLocked cutoff none eventTypes (events.filter mine) := by
  have hcharges : events.filter (EventRow.metered cutoff (some key) eventTypes) =
      (events.filter mine).filter (EventRow.metered cutoff none eventTypes) := by
    rw [List.filter_filter]
    refine List.filter_congr fun row hrow => ?_
    rw [metered_some]
    cases hmetered : row.metered cutoff none eventTypes with
    | false => rfl
    | true =>
        rw [Bool.true_and, Bool.true_and]
        refine Bool.eq_iff_iff.mpr ⟨fun hkey => h.named row hrow (metered_append_left ?_),
          fun hmine => ?_⟩
        · rw [metered_some, hmetered, hkey]
          rfl
        · exact decide_eq_true (h.charges row hrow hmine hmetered)
  have hcorrections : events.filter (EventRow.metered cutoff (some key) correctionEvents) =
      ((events.filter mine).filter (EventRow.metered cutoff none correctionEvents)).filter
        fun row => row.accountId = some key := by
    rw [List.filter_filter, List.filter_filter]
    refine List.filter_congr fun row hrow => ?_
    rw [metered_some]
    cases hmetered : row.metered cutoff none correctionEvents with
    | false => simp
    | true =>
        cases hkey : decide (row.accountId = some key) with
        | false => simp
        | true =>
            have hmine :=
              h.named row hrow (metered_append_right (by rw [metered_some, hmetered, hkey]; rfl))
            simp [hmine]
  rw [correctionEvents] at hcorrections
  rw [spendTotalLocked, spendTotalLocked, hcharges, hcorrections]
  split_ifs
  · rfl
  · cases hfold : ((events.filter mine).filter (EventRow.metered cutoff none eventTypes)).foldlM
      addCharge
      (Dict.empty, 0) with
    | error raised => rfl
    | ok totals =>
        have hskipped :=
          foldlM_filter_of_skips (f := applyCorrection) (p := fun row => row.accountId = some key)
          (fun charged => ∀ queryRunId,
            totals.1.get? queryRunId = none → charged.get? queryRunId = none)
          ((events.filter mine).filter (EventRow.metered cutoff none correctionEvents))
          (fun row hrow hkey charged hcharged => applyCorrection_skips fun queryRunId hrun => ?_)
          (fun row _ charged charged' hcharged hstep queryRunId hnone =>
            applyCorrection_get? (hcharged queryRunId hnone) hstep)
          (fun _ hnone => hnone)
        · show (if totals.1.items = [] then _ else _) = (if totals.1.items = [] then _ else _)
          rw [correctionEvents] at hskipped
          rw [hskipped]
        · refine hcharged queryRunId
            (foldlM_addCharge_get? (fun charge hcharge => ?_) (Dict.get?_empty _) hfold)
          obtain ⟨hrow, hmetered⟩ := List.mem_filter.mp hrow
          obtain ⟨hrow, hmine⟩ := List.mem_filter.mp hrow
          obtain ⟨hcharge, hmetered'⟩ := List.mem_filter.mp hcharge
          obtain ⟨hcharge, hmine'⟩ := List.mem_filter.mp hcharge
          exact h.corrections row hrow hmine hmetered (of_decide_eq_false hkey) charge hcharge
            hmine' hmetered'
            queryRunId hrun

end Quorum
