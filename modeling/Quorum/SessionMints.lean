import Quorum.BaseWindow
import Quorum.LedgerRuns

/-! The cap on session mints of an address and the wait that a refusal advertises. The cap holds in
every window of 24 hours as long as no admitted mint loses its row, and the wait is long enough
exactly when the deciding mint leaves the window within a second: it is cut to whole seconds, and at
its end that mint is in the window still. -/

namespace Quorum

open IsoTime Transaction

/-! ### The advertised wait -/

/-- The stamps of the rows of an address; none when a row cannot be read. -/
def readStamps (ip : String) (rows : List EventRow) : Option (List Instant) := do
  let entries ← rows.mapM fun row => row.payload.map fun payload => (payload, row.recordedAt)
  (entries.filter fun entry => entry.1.ip = some ip).mapM fun entry => fromisoformat entry.2

/-- The stamps of an address in the window, oldest first. -/
def mintStamps (ip : String) (now : Instant) (store : FeedbackStore) : Option (List Instant) :=
  readStamps ip ((store.events.filter (EventRow.minted (now.back sessionMintWindow))).insertionSort
    fun row other => row.recordedAt ≤ other.recordedAt)

/-- `seconds_until_a_session_mint_frees`. -/
def secondsUntilASessionMintFrees (ip : String) (cap : ℕ) (now : Instant) (store : FeedbackStore) :
    Option ℕ := do
  let stamps ← mintStamps ip now store
  if cap ≤ stamps.length then do
    let deciding ← stamps[stamps.length - cap]?
    return max ((deciding.val + sessionMintWindow - now.val) / microsPerSecond) 1
  else none

/-! ### Runs with their mints -/

/-- The ledger and the mints that were let through, each with its address, its time and its cap. -/
structure MintWorld where
  ledger : LedgerWorld
  minted : List (Window.Admission String)

section
variable (julianday : Text → Option ℚ)

/-- The mint of a step, if it answers that it may proceed. -/
def LedgerOp.minted (w : LedgerWorld) : LedgerOp → List (Window.Admission String)
  | .mint ip accountId cap attempt =>
      if answered (tryRecordSessionMint w.clock attempt ip accountId cap) w.store = some true then
        [⟨ip, w.clock.val, cap⟩]
      else []
  | _ => []

def MintWorld.apply (w : MintWorld) (op : LedgerOp) : MintWorld :=
  ⟨op.apply julianday w.ledger, w.minted ++ op.minted w.ledger⟩

def runMints (start : Instant) (ops : List LedgerOp) : MintWorld :=
  ops.foldl (MintWorld.apply julianday) ⟨.start start, []⟩

end

/-- The step loses no row of a mint that it lets through. -/
def LedgerOp.Lands (w : LedgerWorld) : LedgerOp → Prop
  | .mint ip _ cap attempt =>
      ∀ count, sessionMintCountForIp ip w.clock w.store = .ok count → count < cap → attempt.lands
  | _ => True

/-- No step of the run loses the row of a mint that it lets through. -/
def AllLand (julianday : Text → Option ℚ) (start : Instant) (ops : List LedgerOp) : Prop :=
  ∀ earlier op later, ops = earlier ++ op :: later →
    op.Lands (runMints julianday start earlier).ledger

/-! ### One mint -/

/-- A mint that may proceed has its row in the ledger. -/
def MintRecorded (now : Instant) (attempt : WriteAttempt) (ip : String) (accountId : Uuid) (cap : ℕ)
    (store : FeedbackStore) : Prop :=
  answered (tryRecordSessionMint now attempt ip accountId cap) store = some true →
    (after (tryRecordSessionMint now attempt ip accountId cap) store).events
      = store.events ++ [mintRow ip accountId now]

/-- The row is a mint of the address. -/
def EventRow.mintOf (ip : String) (row : EventRow) : Bool :=
  row.recorder = .session ∧ row.eventType = .sessionMinted ∧
    row.payload.bind EventPayload.ip = some ip

/-- The mints of an address from a cutoff on. -/
def mintsSince (ip : String) (cutoff : Instant) (events : List EventRow) : List EventRow :=
  events.filter fun row => row.mintOf ip ∧ isoformat cutoff ≤ row.recordedAt

/-- What a mint can do: raise, refuse at the cap, or let the caller through, its row there or
not. -/
theorem tryRecordSessionMint_cases (now : Instant) (attempt : WriteAttempt) (ip : String)
    (accountId : Uuid) (cap : ℕ) (store : FeedbackStore) :
    (∃ raised, sessionMintCountForIp ip now store = .error raised ∧
        tryRecordSessionMint now attempt ip accountId cap store = .error raised store) ∨
      (∃ count, sessionMintCountForIp ip now store = .ok count ∧ cap ≤ count ∧
        tryRecordSessionMint now attempt ip accountId cap store = .ok false store) ∨
      ∃ count store', sessionMintCountForIp ip now store = .ok count ∧ count < cap ∧
        tryRecordSessionMint now attempt ip accountId cap store = .ok true store' ∧
        store'.events = if attempt.lands then store.events
          ++ [mintRow ip accountId now] else store.events := by
  rw [tryRecordSessionMint]
  cases hcount : sessionMintCountForIp ip now store with
  | error raised =>
      have hread : reading (sessionMintCountForIp ip now) store = .error raised store := by
        rw [reading, hcount]
      exact .inl ⟨raised, rfl, bind_of_error _ hread⟩
  | ok count =>
      have hread : reading (sessionMintCountForIp ip now) store = .ok count store := by
        rw [reading, hcount]
      rw [bind_of_ok _ hread]
      by_cases hcap : count ≥ cap
      · rw [if_pos hcap]
        exact .inr (.inl ⟨count, rfl, hcap, rfl⟩)
      · obtain ⟨store', hinsert, hevents⟩ := insertEvent_ok attempt (mintRow ip accountId now) store
        rw [if_neg hcap, bind_of_ok _ hinsert]
        exact .inr (.inr ⟨count, store', rfl, not_le.mp hcap, rfl, hevents⟩)

/-- A mint that may proceed has its row exactly unless its address is under the cap and the INSERT
fails. -/
theorem mintRecorded_iff (now : Instant) (attempt : WriteAttempt) (ip : String) (accountId : Uuid)
    (cap : ℕ) (store : FeedbackStore) :
    MintRecorded now attempt ip accountId cap store ↔
      ∀ count, sessionMintCountForIp ip now store = .ok count → count < cap → attempt.lands := by
  rw [MintRecorded]
  rcases tryRecordSessionMint_cases now attempt ip accountId cap store with
    ⟨raised, hcount, hrun⟩ | ⟨count, hcount, hcap, hrun⟩ | ⟨count, store', hcount,
      hcap, hrun, hevents⟩
  · rw [answered, hrun, hcount]
    exact ⟨fun _ count h => (by cases h), fun _ h => (by cases h)⟩
  · rw [answered, hrun, hcount]
    refine ⟨fun _ other h hlt => ?_, fun _ h => by cases h⟩
    cases h
    exact absurd hcap (not_le.mpr hlt)
  · rw [answered, hrun, hcount, after_of_ok hrun, hevents]
    constructor
    · intro hrecorded other _ _
      by_contra hlost
      have hsame := hrecorded rfl
      rw [if_neg hlost] at hsame
      simpa using congrArg List.length hsame
    · intro hlands _
      rw [if_pos (hlands count rfl hcap)]

/-! ### The rows of a run -/

/-- Every row of the ledger can be read and is stamped by the clock. -/
structure LedgerWorld.Stamped (w : LedgerWorld) : Prop where
  stamps : ∀ row ∈ w.store.events, ∃ t, t ≤ w.clock ∧ row.recordedAt = isoformat t
  readable : ∀ row ∈ w.store.events, ∃ payload, row.payload = some payload

section
variable {julianday : Text → Option ℚ} {w w' : LedgerWorld} {op : LedgerOp} {ip : String}
  {cutoff : Instant}

theorem LedgerOp.Writes.stamped {row : EventRow} (h : op.Writes w row) :
    row.recordedAt = isoformat w.clock ∧ ∃ payload, row.payload = some payload := by
  cases op with
  | tick span => exact h.elim
  | wipe faults => exact h.elim
  | charge request attempt => obtain ⟨rfl, -⟩ := h; exact ⟨rfl, _, rfl⟩
  | reconcile request attempt => obtain ⟨rfl, -⟩ := h; exact ⟨rfl, _, rfl⟩
  | void accountId queryRunId attempt => cases h; exact ⟨rfl, _, rfl⟩
  | mint ip accountId cap attempt => cases h; exact ⟨rfl, _, rfl⟩
  | record recorder name accountId queryRunId payload attempt => cases h; exact ⟨rfl, _, rfl⟩

theorem LedgerWorld.Stamped.stampsSort (h : w.Stamped) : StampsSort julianday w.store.events := by
  intro row hrow hutc
  obtain ⟨t, -, hstamp⟩ := h.stamps row hrow
  rw [hstamp] at hutc
  exact absurd (utcOffset_suffix_isoformat t) hutc

theorem LedgerWorld.Stamped.apply (h : w.Stamped) (op : LedgerOp) :
    (op.apply julianday w).Stamped := by
  cases op.effect julianday w with
  | idle events clock charges =>
      constructor
      · intro row hrow
        rw [events] at hrow
        obtain ⟨t, ht, hstamp⟩ := h.stamps row hrow
        exact ⟨t, ht.trans clock, hstamp⟩
      · intro row hrow
        rw [events] at hrow
        exact h.readable row hrow
  | append row writes events clock charges =>
      obtain ⟨hstamp, hpayload⟩ := writes.stamped
      constructor
      · intro other hother
        rw [events, List.mem_append, List.mem_singleton] at hother
        rw [clock]
        rcases hother with hother | rfl
        · exact h.stamps other hother
        · exact ⟨w.clock, le_rfl, hstamp⟩
      · intro other hother
        rw [events, List.mem_append, List.mem_singleton] at hother
        rcases hother with hother | rfl
        · exact h.readable other hother
        · exact hpayload
  | wipe events clock charges =>
      constructor
      · intro other hother
        rw [events] at hother
        obtain ⟨row, hrow, rfl⟩ := List.mem_map.mp hother
        rw [clock, (row.wipe_sameButIdentifiers julianday _).recordedAt]
        exact h.stamps row hrow
      · intro other hother
        rw [events] at hother
        obtain ⟨row, hrow, rfl⟩ := List.mem_map.mp hother
        obtain ⟨payload, hpayload⟩ := h.readable row hrow
        obtain ⟨payload', hpayload', -⟩ :=
          (row.wipe_sameButIdentifiers julianday _).payload payload hpayload
        exact ⟨payload', hpayload'⟩

theorem mapM_eq_map {m : Type → Type} [Monad m] [LawfulMonad m] {α β : Type} {f : α → m β}
    {g : α → β} {items : List α} (h : ∀ item ∈ items, f item = pure (g item)) :
    items.mapM f = pure (items.map g) := by
  induction items with
  | nil => exact List.mapM_nil
  | cons item items ih =>
      rw [List.mapM_cons, h item List.mem_cons_self, pure_bind,
        ih fun other hother => h other (List.mem_cons_of_mem item hother), pure_bind]
      rfl

/-- The count of the store is that of the mints since its cutoff. -/
theorem LedgerWorld.Stamped.count (h : w.Stamped) (ip : String) (now : Instant) :
    sessionMintCountForIp ip now w.store
      = .ok (mintsSince ip (now.back sessionMintWindow) w.store.events).length := by
  have hloads : ∀ row ∈ w.store.events.filter (EventRow.minted (now.back sessionMintWindow)),
      loads row = pure (row.payload.getD {}) := by
    intro row hrow
    obtain ⟨payload, hpayload⟩ := h.readable row (List.mem_of_mem_filter hrow)
    rw [loads, hpayload]
    rfl
  rw [sessionMintCountForIp, mapM_eq_map hloads, pure_bind, List.countP_map, mintsSince,
    ← List.countP_eq_length_filter, List.countP_filter]
  refine congrArg Except.ok (List.countP_congr fun row hrow => ?_)
  obtain ⟨payload, hpayload⟩ := h.readable row hrow
  simp only [Function.comp, EventRow.minted, EventRow.mintOf, hpayload, Bool.and_eq_true,
    decide_eq_true_eq, Option.getD_some, Option.bind_some]
  tauto

theorem mintsSince_append (row : EventRow) (events : List EventRow) :
    mintsSince ip cutoff (events ++ [row])
      = mintsSince ip cutoff events ++ if row.mintOf ip ∧
      isoformat cutoff ≤ row.recordedAt then [row] else [] := by
  rw [mintsSince, List.filter_append, List.filter_singleton, mintsSince]
  congr 1
  by_cases hrow : row.mintOf ip ∧ isoformat cutoff ≤ row.recordedAt
  · rw [if_pos hrow, decide_eq_true hrow]
    rfl
  · rw [if_neg hrow, decide_eq_false hrow]
    rfl

/-- A pass leaves the mints of the window. -/
theorem LedgerWorld.Stamped.mintsSince_wipe (h : w.Stamped)
    (hcutoff : w.clock.back sessionMintWindow ≤ cutoff) :
    mintsSince ip cutoff
      (w.store.events.map (EventRow.wipe julianday (w.clock.back identifierKeep)))
      = mintsSince ip cutoff w.store.events := by
  refine filter_wipe (le_refl w.clock) h.stampsSort fun row hrow => ?_
  rw [decide_eq_true_eq] at hrow
  exact (isoformat_le_iff.mpr hcutoff).trans hrow.2

/-- A step that mints nothing leaves the mints of the window. -/
theorem LedgerWorld.Stamped.mintsSince_apply (h : w.Stamped)
    (hop : ∀ ip accountId cap attempt, op ≠ .mint ip accountId cap attempt)
    (hcutoff : w.clock.back sessionMintWindow ≤ cutoff) :
    mintsSince ip cutoff (op.apply julianday w).store.events
      = mintsSince ip cutoff w.store.events := by
  cases op.effect julianday w with
  | idle events clock charges => rw [events]
  | append row writes events clock charges =>
      have hrow : ¬row.mintOf ip := by
        rw [EventRow.mintOf, decide_eq_true_eq]
        rintro ⟨hrecorder, htype, -⟩
        cases op with
        | tick span => exact writes.elim
        | wipe faults => exact writes.elim
        | charge request attempt => obtain ⟨rfl, -⟩ := writes; cases hrecorder
        | reconcile request attempt => obtain ⟨rfl, -⟩ := writes; cases hrecorder
        | void accountId queryRunId attempt => cases writes; cases hrecorder
        | mint ip accountId cap attempt => exact hop ip accountId cap attempt rfl
        | record recorder name accountId queryRunId payload attempt => cases writes; cases htype
      rw [events, mintsSince_append, if_neg fun hboth => hrow hboth.1, List.append_nil]
  | wipe events clock charges =>
      rw [events]
      exact h.mintsSince_wipe hcutoff

theorem LedgerOp.clock_le (op : LedgerOp) (w : LedgerWorld) :
    w.clock ≤ (op.apply julianday w).clock := by
  cases op.effect julianday w with
  | idle events clock charges => exact clock
  | append row writes events clock charges => exact clock.ge
  | wipe events clock charges => exact clock.ge

/-- Steps that mint nothing, any number of them. -/
theorem LedgerWorld.Stamped.wait (h : w.Stamped) {waiting : List LedgerOp}
    (hwaiting : ∀ op ∈ waiting, ∀ ip accountId cap attempt, op ≠ .mint ip accountId cap attempt) :
    (waiting.foldl (LedgerOp.apply julianday) w).Stamped ∧
      w.clock ≤ (waiting.foldl (LedgerOp.apply julianday) w).clock ∧
      ∀ ip cutoff,
        (waiting.foldl (LedgerOp.apply julianday) w).clock.back sessionMintWindow ≤ cutoff →
        mintsSince ip cutoff (waiting.foldl (LedgerOp.apply julianday) w).store.events
          = mintsSince ip cutoff w.store.events := by
  induction waiting using List.reverseRecOn with
  | nil => exact ⟨h, le_rfl, fun _ _ _ => rfl⟩
  | append_singleton waiting op ih =>
      obtain ⟨hstamped, hclock, hsame⟩ :=
        ih fun other hother => hwaiting other (List.mem_append_left _ hother)
      have hop := hwaiting op (List.mem_append_right _ (List.mem_singleton_self op))
      rw [List.foldl_append, List.foldl_cons, List.foldl_nil]
      generalize waiting.foldl (LedgerOp.apply julianday) w = w₁ at hstamped hclock hsame ⊢
      have hlater : w₁.clock ≤ (op.apply julianday w₁).clock := op.clock_le w₁
      refine ⟨hstamped.apply op, hclock.trans hlater, fun ip cutoff hcutoff => ?_⟩
      have hbefore : w₁.clock.back sessionMintWindow ≤ cutoff :=
        (Instant.back_mono hlater _).trans hcutoff
      rw [hstamped.mintsSince_apply hop hbefore, hsame ip cutoff hbefore]

end

/-! ### The cap -/

/-- What holds of a run in which no mint loses its row. -/
structure MintWorld.Capped (w : MintWorld) : Prop where
  stamped : w.ledger.Stamped
  granted : Window.Granted sessionMintWindow w.minted
  rows : ∀ ip cutoff, w.ledger.clock.back sessionMintWindow ≤ cutoff →
    Window.since ip cutoff.val w.minted ≤ (mintsSince ip cutoff w.ledger.store.events).length

/-- A mint that is refused, or that raises, changes nothing. -/
theorem MintWorld.Capped.refused {julianday : Text → Option ℚ} {w : MintWorld}
    (h : w.Capped) {ip : String}
    {accountId : Uuid} {cap : ℕ} {attempt : WriteAttempt}
    (hafter : after (tryRecordSessionMint w.ledger.clock attempt ip accountId cap) w.ledger.store
      = w.ledger.store)
    (hanswer : answered (tryRecordSessionMint w.ledger.clock attempt ip accountId cap)
      w.ledger.store ≠ some true) :
    (w.apply julianday (.mint ip accountId cap attempt)).Capped := by
  have hsame : w.apply julianday (.mint ip accountId cap attempt) = w := by
    rw [MintWorld.apply, LedgerOp.minted, if_neg hanswer, List.append_nil, LedgerOp.apply, hafter]
  rw [hsame]
  exact h

/-- A mint that is let through with its row. -/
theorem MintWorld.Capped.admitted {julianday : Text → Option ℚ} {w : MintWorld}
    (h : w.Capped) {ip : String}
    {accountId : Uuid} {cap count : ℕ} {attempt : WriteAttempt} {store' : FeedbackStore}
    (hrun : tryRecordSessionMint w.ledger.clock attempt ip accountId cap w.ledger.store
      = .ok true store')
    (hcount : sessionMintCountForIp ip w.ledger.clock w.ledger.store = .ok count)
    (hcap : count < cap)
    (hevents : store'.events = w.ledger.store.events ++ [mintRow ip accountId w.ledger.clock]) :
    (w.apply julianday (.mint ip accountId cap attempt)).Capped := by
  have hminted : LedgerOp.minted w.ledger (.mint ip accountId cap attempt)
      = [⟨ip, w.ledger.clock.val, cap⟩] := by
    rw [LedgerOp.minted, answered, hrun, if_pos rfl]
  have hstore : (LedgerOp.apply julianday w.ledger (.mint ip accountId cap attempt)).store
      = store' := after_of_ok hrun
  have hstamped : (LedgerOp.apply julianday w.ledger (.mint ip accountId cap attempt)).Stamped :=
    h.stamped.apply _
  refine ⟨hstamped, ?_, fun other cutoff hcutoff => ?_⟩
  · rw [MintWorld.apply, hminted]
    refine .concat _ h.granted ?_
    rw [h.stamped.count, Except.ok.injEq] at hcount
    refine lt_of_le_of_lt (h.rows ip (w.ledger.clock.back sessionMintWindow) le_rfl) ?_
    rw [hcount]
    exact hcap
  · have hrow : (mintRow ip accountId w.ledger.clock).mintOf other ↔ ip = other := by
      simp [EventRow.mintOf, mintRow]
    rw [MintWorld.apply, hminted, hstore, hevents, Window.since_concat, mintsSince_append,
      List.length_append]
    refine Nat.add_le_add (h.rows other cutoff hcutoff) ?_
    by_cases hin : ip = other ∧ cutoff.val ≤ w.ledger.clock.val
    · rw [if_pos hin, if_pos ⟨hrow.mpr hin.1, isoformat_le_iff.mpr hin.2⟩]
      exact le_rfl
    · rw [if_neg hin]
      exact Nat.zero_le _

theorem MintWorld.Capped.apply {julianday : Text → Option ℚ} {w : MintWorld} (h : w.Capped)
    {op : LedgerOp} (hlands : op.Lands w.ledger) : (w.apply julianday op).Capped := by
  have hclock : w.ledger.clock ≤ (op.apply julianday w.ledger).clock := op.clock_le w.ledger
  by_cases hmint : ∃ ip accountId cap attempt, op = .mint ip accountId cap attempt
  · obtain ⟨ip, accountId, cap, attempt, rfl⟩ := hmint
    rcases tryRecordSessionMint_cases w.ledger.clock attempt ip accountId cap w.ledger.store with
      ⟨raised, hcount, hrun⟩ | ⟨count, hcount, hcap, hrun⟩ | ⟨count, store', hcount,
        hcap, hrun, hevents⟩
    · exact h.refused (after_of_error hrun)
        (by rw [answered, hrun]; exact fun hyes => by cases hyes)
    · exact h.refused (after_of_ok hrun) (by rw [answered, hrun]; exact fun hyes => by cases hyes)
    · exact h.admitted hrun hcount hcap (by rw [hevents, if_pos (hlands count hcount hcap)])
  · have hop : ∀ ip accountId cap attempt, op ≠ .mint ip accountId cap attempt :=
      fun ip accountId cap attempt heq => hmint ⟨ip, accountId, cap, attempt, heq⟩
    have hnone : op.minted w.ledger = [] := by
      cases op with
      | mint ip accountId cap attempt => exact absurd rfl (hop ip accountId cap attempt)
      | _ => rfl
    refine ⟨h.stamped.apply op, ?_, fun ip cutoff hcutoff => ?_⟩
    · rw [MintWorld.apply, hnone, List.append_nil]
      exact h.granted
    · have hbefore : w.ledger.clock.back sessionMintWindow ≤ cutoff :=
        (Instant.back_mono hclock _).trans hcutoff
      rw [MintWorld.apply, hnone, List.append_nil, h.stamped.mintsSince_apply hop hbefore]
      exact h.rows ip cutoff hbefore

theorem capped_runMints (julianday : Text → Option ℚ) (start : Instant) (ops : List LedgerOp)
    (hlands : AllLand julianday start ops) : (runMints julianday start ops).Capped := by
  induction ops using List.reverseRecOn with
  | nil =>
      exact ⟨⟨fun _ h => (nomatch h), fun _ h => (nomatch h)⟩, .nil, fun _ _ _ => le_rfl⟩
  | append_singleton ops op ih =>
      have hbefore : AllLand julianday start ops := by
        intro earlier op' later hsplit
        exact hlands earlier op' (later ++ [op])
          (by rw [hsplit, List.append_assoc, List.cons_append])
      rw [runMints, List.foldl_append, List.foldl_cons, List.foldl_nil]
      exact (ih hbefore).apply (hlands ops op [] rfl)

theorem stamped_runMints (julianday : Text → Option ℚ) (start : Instant) (ops : List LedgerOp) :
    (runMints julianday start ops).ledger.Stamped := by
  induction ops using List.reverseRecOn with
  | nil => exact ⟨fun _ h => (nomatch h), fun _ h => (nomatch h)⟩
  | append_singleton ops op ih =>
      rw [runMints, List.foldl_append, List.foldl_cons, List.foldl_nil]
      exact ih.apply op

/-! ### The wait -/

theorem readStamps_spec (ip : String) {rows : List EventRow}
    (hstamps : ∀ row ∈ rows, ∃ t, row.recordedAt = isoformat t)
    (hreadable : ∀ row ∈ rows, ∃ payload, row.payload = some payload) :
    ∃ stamps, readStamps ip rows = some stamps ∧
      stamps.map isoformat
        = (rows.filter fun row => row.payload.bind EventPayload.ip = some ip).map
            EventRow.recordedAt := by
  have hentry : ∀ row ∈ rows, (row.payload.map fun payload => (payload, row.recordedAt))
      = pure (row.payload.getD {}, row.recordedAt) := by
    intro row hrow
    obtain ⟨payload, hpayload⟩ := hreadable row hrow
    rw [hpayload]
    rfl
  have hmine : (rows.map fun row => (row.payload.getD {}, row.recordedAt)).filter (fun entry =>
      entry.1.ip = some ip)
      = (rows.filter fun row => row.payload.bind EventPayload.ip = some ip).map
        fun row => (row.payload.getD {}, row.recordedAt) := by
    rw [List.filter_map]
    refine congrArg _ (List.filter_congr fun row hrow => ?_)
    obtain ⟨payload, hpayload⟩ := hreadable row hrow
    simp only [Function.comp, hpayload, Option.getD_some, Option.bind_some]
  rw [readStamps, mapM_eq_map hentry, pure_bind, hmine]
  have hmem : ∀ row ∈ rows.filter fun row => row.payload.bind EventPayload.ip = some ip,
      ∃ t, row.recordedAt = isoformat t := fun row hrow => hstamps row (List.mem_of_mem_filter hrow)
  generalize rows.filter (fun row => row.payload.bind EventPayload.ip = some ip) = mine at hmem
  induction mine with
  | nil => exact ⟨[], rfl, rfl⟩
  | cons row mine ih =>
      obtain ⟨t, ht⟩ := hmem row List.mem_cons_self
      obtain ⟨stamps, hstamps, htexts⟩ :=
        ih fun other hother => hmem other (List.mem_cons_of_mem row hother)
      refine ⟨t :: stamps, ?_, by rw [List.map_cons, List.map_cons, htexts, ht]⟩
      rw [List.map_cons, List.mapM_cons, hstamps, ht, fromisoformat_isoformat]
      rfl

/-- The stamps that the wait is read from are those of the mints of the window, in order. -/
theorem LedgerWorld.Stamped.mintStamps {w : LedgerWorld} (h : w.Stamped) (ip : String)
    (now : Instant) :
    ∃ stamps, mintStamps ip now w.store = some stamps ∧ stamps.Pairwise (· ≤ ·) ∧
      (stamps.map isoformat).Perm
        ((mintsSince ip (now.back sessionMintWindow) w.store.events).map EventRow.recordedAt) := by
  have hperm :=
    List.perm_insertionSort (fun row other : EventRow => row.recordedAt ≤ other.recordedAt)
    (w.store.events.filter (EventRow.minted (now.back sessionMintWindow)))
  have hsorted : (List.insertionSort (fun row other : EventRow => row.recordedAt ≤ other.recordedAt)
      (w.store.events.filter (EventRow.minted (now.back sessionMintWindow)))).Pairwise
        (Order.Preimage EventRow.recordedAt (· ≤ ·)) :=
    List.pairwise_insertionSort (Order.Preimage EventRow.recordedAt (· ≤ ·)) _
  unfold Quorum.mintStamps
  generalize List.insertionSort (fun row other : EventRow => row.recordedAt ≤ other.recordedAt)
    (w.store.events.filter (EventRow.minted (now.back sessionMintWindow))) = rows at hperm hsorted ⊢
  have hrows : ∀ row ∈ rows, row ∈ w.store.events :=
    fun row hrow => List.mem_of_mem_filter (hperm.subset hrow)
  obtain ⟨stamps, hread, htexts⟩ := readStamps_spec ip
    (fun row hrow => (h.stamps row (hrows row hrow)).imp fun t ht => ht.2)
    (fun row hrow => h.readable row (hrows row hrow))
  refine ⟨stamps, hread, ?_, ?_⟩
  · have htextsSorted : (stamps.map isoformat).Pairwise (· ≤ ·) := by
      rw [htexts, List.pairwise_map]
      exact hsorted.filter _
    rw [List.pairwise_map] at htextsSorted
    exact htextsSorted.imp fun hle => isoformat_le_iff.mp hle
  · rw [htexts]
    refine List.Perm.map _ ((hperm.filter _).trans (List.Perm.of_eq ?_))
    rw [List.filter_filter, mintsSince]
    refine List.filter_congr fun row hrow => ?_
    rw [Bool.eq_iff_iff]
    simp only [EventRow.minted, EventRow.mintOf, Bool.and_eq_true, decide_eq_true_eq]
    tauto

/-- The mints since a cutoff in the window are as many as the stamps from it on. -/
theorem countP_stamps {events : List EventRow} {ip : String} {start cutoff : Instant}
    (hcutoff : start ≤ cutoff) {stamps : List Instant}
    (hstamps : (stamps.map isoformat).Perm ((mintsSince ip start events).map EventRow.recordedAt)) :
    stamps.countP (fun stamp => cutoff ≤ stamp) = (mintsSince ip cutoff events).length := by
  have hcount : stamps.countP (fun stamp => cutoff ≤ stamp)
      = (stamps.map isoformat).countP fun text => isoformat cutoff ≤ text := by
    rw [List.countP_map]
    exact List.countP_congr fun stamp _ => by simp [isoformat_le_iff]
  have hle : isoformat start ≤ isoformat cutoff := isoformat_le_iff.mpr hcutoff
  rw [hcount, hstamps.countP_eq, List.countP_map, mintsSince, List.countP_filter, mintsSince,
    ← List.countP_eq_length_filter]
  refine List.countP_congr fun row _ => ?_
  simp only [Function.comp, Bool.and_eq_true, decide_eq_true_eq]
  exact ⟨fun ⟨hrow, hmint, _⟩ => ⟨hmint, hrow⟩, fun ⟨hmint, hrow⟩ => ⟨hrow, hmint, hle.trans hrow⟩⟩

/-- The mint that decides leaves the window less than a second from now. -/
def FreesWithinASecond (ip : String) (cap : ℕ) (now : Instant) (store : FeedbackStore) : Prop :=
  ∃ stamps deciding, mintStamps ip now store = some stamps ∧
    stamps[stamps.length - cap]? = some deciding ∧
    deciding.val + sessionMintWindow < now.val + microsPerSecond

theorem secondsUntil_eq_some {ip : String} {cap seconds : ℕ} {now : Instant} {store : FeedbackStore}
    {stamps : List Instant} (hstamps : mintStamps ip now store = some stamps)
    (hseconds : secondsUntilASessionMintFrees ip cap now store = some seconds) :
    cap ≤ stamps.length ∧ ∃ deciding, stamps[stamps.length - cap]? = some deciding ∧
      seconds = max ((deciding.val + sessionMintWindow - now.val) / microsPerSecond) 1 := by
  rw [secondsUntilASessionMintFrees, hstamps] at hseconds
  by_cases hcap : cap ≤ stamps.length
  · change (if cap ≤ stamps.length then _ else _) = _ at hseconds
    rw [if_pos hcap] at hseconds
    obtain ⟨deciding, hdeciding, hwait⟩ := Option.bind_eq_some_iff.mp hseconds
    exact ⟨hcap, deciding, hdeciding, (Option.some.inj hwait).symm⟩
  · change (if cap ≤ stamps.length then _ else _) = _ at hseconds
    rw [if_neg hcap] at hseconds
    cases hseconds

/-- After the advertised wait a mint succeeds exactly if the deciding one was about to leave the
window. -/
theorem LedgerWorld.Stamped.wait_iff {julianday : Text → Option ℚ} {w : LedgerWorld} (h : w.Stamped)
    {ip : String} {cap seconds : ℕ}
    (hseconds : secondsUntilASessionMintFrees ip cap w.clock w.store = some seconds)
    {waiting : List LedgerOp}
    (hwaiting : ∀ op ∈ waiting, ∀ ip accountId cap attempt, op ≠ .mint ip accountId cap attempt)
    {later : LedgerWorld} (hrun : waiting.foldl (LedgerOp.apply julianday) w = later)
    (hclock : later.clock.val = w.clock.val + seconds * microsPerSecond) (attempt : WriteAttempt)
    (accountId : Uuid) :
    answered (tryRecordSessionMint later.clock attempt ip accountId cap) later.store = some true ↔
      FreesWithinASecond ip cap w.clock w.store := by
  obtain ⟨hstamped, hlater, hsame⟩ := @LedgerWorld.Stamped.wait julianday w h _ hwaiting
  obtain ⟨stamps, hstamps, hsorted, hperm⟩ := h.mintStamps ip w.clock
  rw [hrun] at hstamped hlater hsame
  have hback : w.clock.back sessionMintWindow ≤ later.clock.back sessionMintWindow :=
    Instant.back_mono hlater _
  have hcount := hstamped.count ip later.clock
  rw [hsame ip _ le_rfl, ← countP_stamps hback hperm] at hcount
  have hanswer : answered (tryRecordSessionMint later.clock attempt ip accountId cap) later.store
      = some true ↔
      stamps.countP (fun stamp => later.clock.back sessionMintWindow ≤ stamp) < cap := by
    rw [answered]
    rcases tryRecordSessionMint_cases later.clock attempt ip accountId cap later.store with
      ⟨raised, hfound, hrun⟩ | ⟨count, hfound, hcap, hrun⟩ | ⟨count, store', hfound, hcap, hrun, -⟩
    all_goals rw [hcount] at hfound
    · cases hfound
    · obtain rfl := Except.ok.inj hfound
      rw [hrun]
      exact ⟨fun hyes => (by cases hyes), fun hlt => absurd hcap (not_le.mpr hlt)⟩
    · obtain rfl := Except.ok.inj hfound
      rw [hrun]
      exact ⟨fun _ => hcap, fun _ => rfl⟩
  rw [hanswer]
  obtain ⟨hcap, deciding, hdeciding, hwait⟩ := secondsUntil_eq_some hstamps hseconds
  rw [Window.countP_lt_iff_of_sorted hsorted hcap hdeciding]
  have hfrees : FreesWithinASecond ip cap w.clock w.store ↔
      deciding.val + sessionMintWindow < w.clock.val + microsPerSecond := by
    constructor
    · rintro ⟨others, other, hothers, hother, hlt⟩
      rw [hstamps] at hothers
      obtain rfl := Option.some.inj hothers
      rw [hdeciding] at hother
      obtain rfl := Option.some.inj hother
      exact hlt
    · exact fun hlt => ⟨stamps, deciding, hstamps, hdeciding, hlt⟩
  rw [hfrees]
  have hsecond : 0 < microsPerSecond := by decide
  rw [Instant.lt_back_iff, hclock, hwait, Window.lt_wait_iff hsecond]

/-! ### The claim of the cap and of the wait -/

/-- A mint that may proceed has its row exactly where no admitted INSERT fails. In every run that
loses no row of an admitted mint, no window of 24 hours has more mints of an address than their
caps. And a mint at the end of an advertised wait, with none in between, succeeds exactly if the
deciding mint was within a second of leaving the window when the wait was advertised. -/
theorem sessionMints_iff (julianday : Text → Option ℚ) (start : Instant) (ops : List LedgerOp) :
    (∀ now attempt ip accountId cap store, MintRecorded now attempt ip accountId cap store ↔
      ∀ count, sessionMintCountForIp ip now store = .ok count → count < cap → attempt.lands) ∧
    (AllLand julianday start ops → ∀ ip first bound,
      (∀ mint ∈ (runMints julianday start ops).minted, mint.key = ip → first ≤ mint.time →
        mint.time ≤ first + sessionMintWindow → mint.cap ≤ bound) →
      Window.within ip first sessionMintWindow (runMints julianday start ops).minted ≤ bound) ∧
    ∀ ip cap seconds,
      secondsUntilASessionMintFrees ip cap (runMints julianday start ops).ledger.clock
        (runMints julianday start ops).ledger.store = some seconds →
      ∀ (waiting : List LedgerOp) (later : LedgerWorld),
        (∀ op ∈ waiting, ∀ ip accountId cap attempt, op ≠ LedgerOp.mint ip accountId cap attempt) →
        waiting.foldl (LedgerOp.apply julianday) (runMints julianday start ops).ledger = later →
        later.clock.val = (runMints julianday start ops).ledger.clock.val
          + seconds * microsPerSecond →
        ∀ attempt accountId,
          answered (tryRecordSessionMint later.clock attempt ip accountId cap) later.store
            = some true ↔
            FreesWithinASecond ip cap (runMints julianday start ops).ledger.clock
              (runMints julianday start ops).ledger.store := by
  refine ⟨mintRecorded_iff, fun hlands ip first bound hbound => ?_, ?_⟩
  · exact (capped_runMints julianday start ops hlands).granted.within_le ip first bound hbound
  · intro ip cap seconds hseconds waiting later hwaiting hrun hclock attempt accountId
    exact (stamped_runMints julianday start ops).wait_iff hseconds hwaiting hrun hclock
      attempt accountId

/-! A mint whose row is lost and one at noon whose address comes back after the wait that it was
told. -/

def lostMintOps : List LedgerOp :=
  [.mint "192.0.2.1" 3 1 ⟨false, 0⟩, .mint "192.0.2.1" 4 1 ⟨false, 0⟩]

def refusedMintOps : List LedgerOp := [.mint "192.0.2.1" 3 1 ⟨true, 0⟩, .tick 1000000]

def secondOfMintOps : List LedgerOp :=
  [.mint "192.0.2.1" 3 1 ⟨true, 0⟩, .tick (86399 * 1000000 + 500000)]

/-- Two mints are let through against a cap of one, with no row, and a mint at the end of its wait
is refused. -/
theorem lostMint_proceeds :
    (¬MintRecorded noonOfJanuary ⟨false, 0⟩ "192.0.2.1" 3 1 .empty) ∧
      Window.within "192.0.2.1" noonOfJanuary.val sessionMintWindow
        (runMints sampleJulianday noonOfJanuary lostMintOps).minted = 2 ∧
      let w := (runMints sampleJulianday noonOfJanuary refusedMintOps).ledger
      let later := LedgerOp.apply sampleJulianday w (.tick (86399 * 1000000))
      answered (tryRecordSessionMint w.clock ⟨true, 1⟩ "192.0.2.1" 4 1) w.store = some false ∧
        secondsUntilASessionMintFrees "192.0.2.1" 1 w.clock w.store = some 86399 ∧
        later.clock.val = w.clock.val + 86399 * 1000000 ∧
        answered (tryRecordSessionMint later.clock ⟨true, 1⟩ "192.0.2.1" 4 1) later.store
          = some false := by
  refine ⟨?_, by decide +kernel, by decide +kernel⟩
  rw [mintRecorded_iff]
  exact fun hlands => nomatch hlands 0 rfl Nat.zero_lt_one

/-- Half a second before the mint leaves the window, the wait of one second is long enough. -/
theorem sessionMints_iff_secondOfMint :
    Window.within "192.0.2.1" noonOfJanuary.val sessionMintWindow
        (runMints sampleJulianday noonOfJanuary secondOfMintOps).minted ≤ 1 ∧
      let w := (runMints sampleJulianday noonOfJanuary secondOfMintOps).ledger
      let later := LedgerOp.apply sampleJulianday w (.tick 1000000)
      answered (tryRecordSessionMint later.clock ⟨true, 1⟩ "192.0.2.1" 4 1) later.store
        = some true := by
  have hlands : AllLand sampleJulianday noonOfJanuary secondOfMintOps := by
    intro earlier op later hsplit
    have hop : op ∈ secondOfMintOps := by
      rw [hsplit]
      exact List.mem_append_right _ List.mem_cons_self
    rcases List.mem_pair.mp hop with rfl | rfl
    · exact fun _ _ _ => rfl
    · trivial
  constructor
  · refine (sessionMints_iff sampleJulianday noonOfJanuary secondOfMintOps).2.1 hlands _ _ _ ?_
    decide +kernel
  · refine ((sessionMints_iff sampleJulianday noonOfJanuary secondOfMintOps).2.2 "192.0.2.1" 1 1 ?_
      [.tick 1000000] _ ?_ rfl ?_ ⟨true, 1⟩ 4).mpr ⟨[noonOfJanuary], noonOfJanuary, ?_, rfl, ?_⟩
    · decide +kernel
    · intro op hop ip accountId cap attempt heq
      rw [List.mem_singleton] at hop
      rw [hop] at heq
      cases heq
    · decide +kernel
    · decide +kernel
    · decide +kernel

end Quorum
