import Quorum.AccountLives

/-! The spend envelope of a Google subject over any number of account lives. An account of the
subject is metered under one key, and in a timely run every charge of its lives that is still in the
window stands under that key: the pointer that a delete leaves behind lasts as long as the window
sees a charge from before the delete. -/

namespace Quorum

open IsoTime Transaction

/-- A row that opens the charge of a run. -/
def EventRow.Opens (row : EventRow) : Prop :=
  row.recorder = .cost ∧ row.eventType ∈ accountChargeEvents

/-- A row that the meter of an account reads. -/
def EventRow.Billed (row : EventRow) : Prop :=
  row.recorder = .cost ∧ row.eventType ∈ accountChargeEvents ++ correctionEvents

theorem EventRow.Opens.billed {row : EventRow} (h : row.Opens) : row.Billed :=
  ⟨h.1, List.mem_append_left _ h.2⟩

namespace LivesWorld

variable {accountIdFor : Text → Uuid} {julianday : Text → Option ℚ} {subject : Text}
  {world : LivesWorld}

/-- The window of the meters still shows the row. -/
def Shows (world : LivesWorld) (row : EventRow) : Prop :=
  isoformat (world.clock.back spendWindow) ≤ row.recordedAt

theorem mine_iff {row : EventRow} : world.mine row
    ↔ ∃ run ∈ world.runs, row.queryRunId = some run.1 := by
  simp [mine, List.any_eq_true]

/-! ### The ledger -/

/-- The rows of the ledger under the keys of the subject are those of its runs, each run under its
own key. -/
structure Kept (subjectKey : Uuid) (world : LivesWorld) : Prop where
  calendar : world.clock.val + spendKeyCarry < maxDays * microsPerDay
  own : subjectKey ∈ world.keys
  runIds : (world.runs.map Prod.fst).Nodup
  runKeys : ∀ run ∈ world.runs, run.2 ∈ world.keys
  named : ∀ row ∈ world.store.events, row.Billed → ∀ key ∈ world.keys, row.accountId = some key →
    world.mine row
  stamped : ∀ row ∈ world.store.events, row.Billed → world.mine row →
    ∃ recordedAt ≤ world.clock, row.recordedAt = isoformat recordedAt
  keyed : ∀ row ∈ world.store.events, row.Billed → world.Shows row → ∀ run ∈ world.runs,
    row.queryRunId = some run.1 → row.accountId = some run.2

/-- Every charge of the subject's runs in the window stands under the key, and where it is not the
keyed hash of the subject, no run has been read that hash. -/
structure Linked (subjectKey key : Uuid) (world : LivesWorld) : Prop where
  charges : ∀ row ∈ world.store.events, row.Opens → world.Shows row → world.mine row →
    row.accountId = some key
  others : key ≠ subjectKey → ∀ run ∈ world.runs, run.2 ≠ subjectKey

theorem meteredUnder (hkept : world.Kept (accountIdFor subject)) {key : Uuid}
    (hkey : key ∈ world.keys) (hlinked : world.Linked (accountIdFor subject) key) :
    MeteredUnder (world.clock.back spendWindow) key world.mine accountChargeEvents
      world.store.events := by
  have hmetered : ∀ {accountId types} {row : EventRow},
      row.metered (world.clock.back spendWindow) accountId types →
      row.recorder = .cost ∧ row.eventType ∈ types ∧ row.ofAccount accountId ∧ world.Shows row := by
    intro accountId types row hrow
    simp only [EventRow.metered, decide_eq_true_eq] at hrow
    exact hrow
  refine ⟨fun row hrow hseen => ?_, fun row hrow hmine hseen => ?_,
    fun row hrow hmine hseen hother => ?_⟩
  · obtain ⟨hrecorder, htype, haccount, -⟩ := hmetered hseen
    exact hkept.named row hrow ⟨hrecorder, htype⟩ key hkey (of_decide_eq_true haccount)
  · obtain ⟨hrecorder, htype, -, hshows⟩ := hmetered hseen
    exact hlinked.charges row hrow ⟨hrecorder, htype⟩ hshows hmine
  · intro charge hcharge hmine' hseen' queryRunId hrun hrun'
    obtain ⟨hrecorder, htype, -, hshows⟩ := hmetered hseen
    obtain ⟨hrecorder', htype', -, hshows'⟩ := hmetered hseen'
    obtain ⟨run, hmem, hid⟩ := mine_iff.mp hmine
    have hid' : charge.queryRunId = some run.1 := by
      rw [hrun', ← hrun, hid]
    have hbilled : row.Billed := ⟨hrecorder, List.mem_append_right _ htype⟩
    have hopens : charge.Opens := ⟨hrecorder', htype'⟩
    have hcorrected := hkept.keyed row hrow hbilled hshows run hmem hid
    have hcharged := hkept.keyed charge hcharge hopens.billed hshows' run hmem hid'
    rw [hlinked.charges charge hcharge hopens hshows' hmine'] at hcharged
    exact hother (hcorrected.trans hcharged.symm)

/-- Under a key that links the lives, the meter reads what all of them cost. -/
theorem dailySpendFor_of_linked (hkept : world.Kept (accountIdFor subject)) {key : Uuid}
    (hkey : key ∈ world.keys) (hlinked : world.Linked (accountIdFor subject) key) :
    dailySpendFor key world.clock world.store = world.livesSpend :=
  spendTotalLocked_of_runs (meteredUnder hkept hkey hlinked)

/-! ### An operation on the ledger -/

/-- The row that an operation books, if the meters read it, is one of the subject's runs under its
own key, or one of another run under another key. -/
theorem booked_row {op : LedgerOp} {row : EventRow} (hmay : world.MayBook op)
    (hwrites : op.Writes world.toLedgerWorld row) (hbilled : row.Billed) :
    ∃ key queryRunId, row.accountId = some key ∧ row.queryRunId = some queryRunId ∧
      row.recordedAt = isoformat world.clock ∧ (row.Opens → op.charges = some (key, queryRunId)) ∧
      ((queryRunId, key) ∈ world.runs ∨
        (key ∉ world.keys ∧ queryRunId ∉ world.runs.map Prod.fst)) := by
  cases op with
  | tick span => exact hwrites.elim
  | charge request attempt =>
      obtain ⟨rfl, -⟩ := hwrites
      exact ⟨request.accountId, request.queryRunId, rfl, rfl, rfl, fun _ => rfl, hmay (_, _) rfl⟩
  | reconcile request attempt =>
      obtain ⟨rfl, -⟩ := hwrites
      refine ⟨request.accountId, request.queryRunId, rfl, rfl, rfl, fun hopens => ?_,
        hmay (_, _) rfl⟩
      exact absurd hopens.2 (show EventType.costReconciled ∉ accountChargeEvents by decide)
  | void accountId queryRunId attempt =>
      cases hwrites
      refine ⟨accountId, queryRunId, rfl, rfl, rfl, fun hopens => ?_, hmay (_, _) rfl⟩
      exact absurd hopens.2 (show EventType.costChargeVoided ∉ accountChargeEvents by decide)
  | mint ip accountId cap attempt =>
      cases hwrites
      exact absurd hbilled.1 (show Recorder.session ≠ .cost by decide)
  | record recorder name accountId queryRunId payload attempt =>
      cases hwrites
      exact absurd hbilled.2 (by simp [otherRow, accountChargeEvents, correctionEvents])
  | wipe faults => exact hwrites.elim

/-- The world after an operation on the ledger. -/
def book (julianday : Text → Option ℚ) (world : LivesWorld) (op : LedgerOp) : LivesWorld :=
  { world with toLedgerWorld := op.apply julianday world.toLedgerWorld }

theorem book_clock (julianday : Text → Option ℚ) (world : LivesWorld) (op : LedgerOp) :
    (world.book julianday op).clock = world.clock ∨
      ∃ span, op = .tick span ∧ (world.book julianday op).clock = world.clock.ahead span := by
  cases op with
  | tick span => exact .inr ⟨span, rfl, rfl⟩
  | charge request attempt =>
      refine .inl ?_
      show (LedgerOp.apply julianday world.toLedgerWorld (.charge request attempt)).clock =
        world.clock
      rw [LedgerOp.apply]
      split <;> rfl
  | _ => exact .inl rfl

theorem le_book_clock (julianday : Text → Option ℚ) (world : LivesWorld) (op : LedgerOp) :
    world.clock ≤ (world.book julianday op).clock := by
  rcases book_clock julianday world op with hsame | ⟨span, -, hahead⟩
  · rw [hsame]
  · rw [hahead]
    exact Instant.le_ahead _ _

theorem Shows.mono {world' : LivesWorld} (hclock : world.clock ≤ world'.clock) {row : EventRow}
    (h : world'.Shows row) : world.Shows row :=
  (isoformat_le_iff.mpr (Instant.back_mono hclock spendWindow)).trans h

/-- A row of the ledger after an operation, if the meters read it: an earlier one, one that a wipe
took its key from, or the one that the operation booked. -/
inductive Row (world : LivesWorld) (op : LedgerOp) (row : EventRow) : Prop
  | earlier (mem : row ∈ world.store.events)
  | wiped (old : EventRow) (mem : old ∈ world.store.events) (billed : old.Billed)
      (queryRunId : row.queryRunId = old.queryRunId) (recordedAt : row.recordedAt = old.recordedAt)
      (accountId : row.accountId = none) (older : world.mine row → ¬world.Shows row)
  | booked (key queryRunId : Uuid) (accountId : row.accountId = some key)
      (names : row.queryRunId = some queryRunId)
      (recordedAt : row.recordedAt = isoformat world.clock) (opens : row.Opens →
        op.charges = some (key, queryRunId))
      (whose : (queryRunId, key) ∈ world.runs ∨
        (key ∉ world.keys ∧ queryRunId ∉ world.runs.map Prod.fst))

theorem row_of_book {subjectKey : Uuid} (hkept : world.Kept subjectKey) {op : LedgerOp}
    (hmay : world.MayBook op) {row : EventRow} (hrow : row ∈ (world.book julianday op).store.events)
    (hbilled : row.Billed) : world.Row op row := by
  cases op.effect julianday world.toLedgerWorld with
  | idle events clock charges =>
      rw [show (world.book julianday op).store.events = _ from events] at hrow
      exact .earlier hrow
  | append new writes events clock charges =>
      rw [show (world.book julianday op).store.events = _ from events] at hrow
      rcases List.mem_append.mp hrow with hrow | hrow
      · exact .earlier hrow
      · rw [List.mem_singleton.mp hrow] at hbilled ⊢
        obtain ⟨key, queryRunId, haccount, hrun, hstamp, hopens, hwhose⟩ :=
          booked_row hmay writes hbilled
        exact .booked key queryRunId haccount hrun hstamp hopens hwhose
  | wipe events clock charges =>
      rw [show (world.book julianday op).store.events = _ from events] at hrow
      obtain ⟨old, hold, rfl⟩ := List.mem_map.mp hrow
      rcases old.wipe_cases julianday (world.clock.back identifierKeep) with hsame |
        ⟨holder, hsame, haccount⟩
      · rw [hsame]
        exact .earlier hold
      · have hbilled' : old.Billed := ⟨hsame.recorder ▸ hbilled.1, hsame.eventType ▸ hbilled.2⟩
        rcases haccount with ⟨-, haccount⟩ | ⟨hsession, -⟩
        · refine .wiped old hold hbilled' hsame.queryRunId hsame.recordedAt haccount
            fun hmine hshows => ?_
          have hmine' : world.mine old := by
            rw [mine_iff] at hmine ⊢
            exact hmine.imp fun run h => ⟨h.1, hsame.queryRunId.symm.trans h.2⟩
          obtain ⟨t, -, hstamp⟩ := hkept.stamped old hold hbilled' hmine'
          have hbefore : old.recordedAt < isoformat (world.clock.back microsPerDay) :=
            lt_window_of_older
            (le_refl world.clock) (fun hutc =>
              absurd (hstamp ▸ utcOffset_suffix_isoformat t) hutc) holder
          rw [Shows, hsame.recordedAt] at hshows
          exact absurd hshows (not_le.mpr hbefore)
        · cases hsession.symm.trans hbilled'.1

/-- An operation on the ledger keeps the rows of the subject's runs under their keys. -/
theorem Kept.book {subjectKey : Uuid} (h : world.Kept subjectKey) {op : LedgerOp}
    (hmay : world.MayBook op) :
    (world.book julianday op).Kept subjectKey where
  calendar := by
    rcases book_clock julianday world op with hsame | ⟨span, rfl, hahead⟩
    · rw [hsame]
      exact h.calendar
    · rw [hahead]
      have hspan : world.clock.val + span + spendKeyCarry < maxDays * microsPerDay := hmay
      show min (world.clock.val + span) _ + spendKeyCarry < _
      omega
  own := h.own
  runIds := h.runIds
  runKeys := h.runKeys
  named row hrow hbilled key hkey haccount := by
    cases row_of_book h hmay hrow hbilled with
    | earlier mem => exact h.named row mem hbilled key hkey haccount
    | wiped old mem billed queryRunId recordedAt accountId older =>
        cases haccount.symm.trans accountId
    | booked key' queryRunId accountId names recordedAt opens whose =>
        cases haccount.symm.trans accountId
        rcases whose with hmem | hother
        · exact mine_iff.mpr ⟨_, hmem, names⟩
        · exact absurd hkey hother.1
  stamped row hrow hbilled hmine := by
    have hclock := le_book_clock julianday world op
    cases row_of_book h hmay hrow hbilled with
    | earlier mem =>
        obtain ⟨t, ht, hstamp⟩ := h.stamped row mem hbilled hmine
        exact ⟨t, ht.trans hclock, hstamp⟩
    | wiped old mem billed queryRunId recordedAt accountId older =>
        have hmine' : world.mine old := by
          rw [mine_iff] at hmine ⊢
          exact hmine.imp fun run h => ⟨h.1, queryRunId.symm.trans h.2⟩
        obtain ⟨t, ht, hstamp⟩ := h.stamped old mem billed hmine'
        exact ⟨t, ht.trans hclock, recordedAt.trans hstamp⟩
    | booked key queryRunId accountId names recordedAt opens whose =>
        exact ⟨world.clock, hclock, recordedAt⟩
  keyed row hrow hbilled hshows run hrun hid := by
    have hshows' : world.Shows row := hshows.mono (le_book_clock julianday world op)
    cases row_of_book h hmay hrow hbilled with
    | earlier mem => exact h.keyed row mem hbilled hshows' run hrun hid
    | wiped old mem billed queryRunId recordedAt accountId older =>
        exact absurd hshows' (older (mine_iff.mpr ⟨run, hrun, hid⟩))
    | booked key queryRunId accountId names recordedAt opens whose =>
        have hsame : queryRunId = run.1 := Option.some.inj (names.symm.trans hid)
        rcases whose with hmem | hother
        · have heq := List.inj_on_of_nodup_map h.runIds hmem hrun hsame
          rw [accountId, ← heq]
        · exact absurd (List.mem_map.mpr ⟨run, hrun, hsame.symm⟩) hother.2

theorem Linked.book {subjectKey key : Uuid} (h : world.Linked subjectKey key)
    (hkept : world.Kept subjectKey)
    {op : LedgerOp} (hmay : world.MayBook op)
    (htimely : ∀ entry ∈ op.charges,
      (entry.2, entry.1) ∈ world.runs → entry.1 = subjectKey ∨ entry.1 = key) :
    (world.book julianday op).Linked subjectKey key where
  charges row hrow hopens hshows hmine := by
    have hshows' : world.Shows row := hshows.mono (le_book_clock julianday world op)
    cases row_of_book hkept hmay hrow hopens.billed with
    | earlier mem => exact h.charges row mem hopens hshows' hmine
    | wiped old mem billed queryRunId recordedAt accountId older =>
        exact absurd hshows' (older hmine)
    | booked key' queryRunId accountId names recordedAt opens whose =>
        obtain ⟨run, hrun, hid⟩ := mine_iff.mp hmine
        have hsame : queryRunId = run.1 := Option.some.inj (names.symm.trans hid)
        rcases whose with hmem | hother
        · rcases htimely (key', queryRunId) (opens hopens) hmem with hsubject | hkey
          · -- A run under the keyed hash is one that the linking key allows.
            by_contra hne
            have hdiffers : key ≠ subjectKey := fun heq =>
              hne (accountId.trans (congrArg some (hsubject.trans heq.symm)))
            exact h.others hdiffers _ hmem hsubject
          · exact accountId.trans (congrArg some hkey)
        · exact absurd (List.mem_map.mpr ⟨run, hrun, hsame.symm⟩) hother.2
  others := h.others

/-! ### The accounts -/

/-- The rows of the accounts: ids and subjects are unique, and the keyed hash tells the subject
apart. -/
structure Keyed (accountIdFor : Text → Uuid) (subject : Text)
    (accounts : List AccountRow) : Prop where
  ids : (accounts.map AccountRow.accountId).Nodup
  subjects : (accounts.map AccountRow.googleSub).Nodup
  apart : ∀ account ∈ accounts, accountIdFor account.googleSub = accountIdFor subject →
    account.googleSub = subject

/-- An account of the subject is metered under a key that links its lives. -/
structure Holds (subjectKey : Uuid) (world : LivesWorld) (account : AccountRow) : Prop where
  idKnown : account.accountId ∈ world.keys
  keyKnown : account.meteredKey ∈ world.keys
  linked : world.Linked subjectKey account.meteredKey
  drawn : account.accountId = subjectKey → account.meteredKey = subjectKey

/-- The subject has no account, and the key that links its lives is its keyed hash or is kept by a
pointer, or a day has passed since the last charge under it. -/
structure Awaits (subjectKey : Uuid) (world : LivesWorld) (key : Uuid) : Prop where
  known : key ∈ world.keys
  linked : world.Linked subjectKey key
  pointers : ∀ row ∈ world.db.spendKeyCarry, row.subjectKey = subjectKey → row.spendKey = key ∧
    ∃ deletedAt ∈ world.deletedAt, row.until' = isoformat (deletedAt.ahead spendKeyCarry)
  lasts : key ≠ subjectKey → ∃ deletedAt ∈ world.deletedAt, deletedAt ≤ world.clock ∧
    (∀ row ∈ world.store.events,
      row.Opens → world.Shows row → world.mine row → row.recordedAt ≤ isoformat deletedAt) ∧
    ((∃ row ∈ world.db.spendKeyCarry, row.subjectKey = subjectKey) ∨
      deletedAt.ahead spendKeyCarry ≤ world.clock)

/-- Its account holds the key that links the lives of the subject, or the next one will find it. -/
structure Lived (accountIdFor : Text → Uuid) (subject : Text) (world : LivesWorld) : Prop where
  ledger : world.Kept (accountIdFor subject)
  accounts : Keyed accountIdFor subject world.db.accounts
  present : ∀ account ∈ world.db.accounts, account.googleSub = subject →
    world.Holds (accountIdFor subject) account
  absent : (∀ account ∈ world.db.accounts, account.googleSub ≠ subject) →
    ∃ key, world.Awaits (accountIdFor subject) key

theorem subjectAccount_eq_none {db : SessionDb} :
    subjectAccount subject db = none ↔ ∀ account ∈ db.accounts, account.googleSub ≠ subject := by
  simp [subjectAccount, List.find?_eq_none]

theorem of_subjectAccount {db : SessionDb} {account : AccountRow}
    (h : subjectAccount subject db = some account) :
    account ∈ db.accounts ∧ account.googleSub = subject := by
  rw [subjectAccount] at h
  have hsubject := List.find?_some h
  exact ⟨List.mem_of_find?_eq_some h, of_decide_eq_true hsubject⟩

/-- A charge in a timely run is under the keyed hash of the subject or under the key of its
account. -/
theorem Lived.book (h : world.Lived accountIdFor subject) {op : LedgerOp} (hmay : world.MayBook op)
    (htimely : world.Timely accountIdFor subject (.book op)) :
    (world.book julianday op).Lived accountIdFor subject where
  ledger := h.ledger.book hmay
  accounts := h.accounts
  present account hmem hsubject := by
    obtain ⟨hid, hkey, hlinked, hdrawn⟩ := h.present account hmem hsubject
    refine ⟨hid, hkey, hlinked.book h.ledger hmay fun entry hentry hrun => ?_, hdrawn⟩
    refine (htimely entry hentry hrun).imp_right fun hcurrent => ?_
    obtain ⟨current, hfound, hmetered⟩ := Option.map_eq_some_iff.mp hcurrent
    obtain ⟨hmem', hsubject'⟩ := of_subjectAccount hfound
    have hsame :=
      List.inj_on_of_nodup_map h.accounts.subjects hmem' hmem (hsubject'.trans hsubject.symm)
    rw [← hmetered, hsame]
  absent hnone := by
    obtain ⟨key, hkey, hlinked, hpointers, hlasts⟩ := h.absent hnone
    have hnoAccount : ∀ account ∈ world.db.accounts, account.googleSub ≠ subject := hnone
    have htimely' : ∀ entry ∈ op.charges, (entry.2, entry.1) ∈ world.runs →
        entry.1 = accountIdFor subject := by
      intro entry hentry hrun
      rcases htimely entry hentry hrun with hsubject | hcurrent
      · exact hsubject
      · have hcurrent : (subjectAccount subject world.db).map AccountRow.meteredKey =
            some entry.1 := hcurrent
        rw [subjectAccount_eq_none.mpr hnoAccount] at hcurrent
        cases hcurrent
    refine ⟨key, hkey,
      hlinked.book h.ledger hmay fun entry hentry hrun => .inl (htimely' entry hentry hrun),
      hpointers, fun hdiffers => ?_⟩
    obtain ⟨deletedAt, hdeleted, hpast, hbefore, hpointer⟩ := hlasts hdiffers
    have hclock := le_book_clock julianday world op
    refine ⟨deletedAt, hdeleted, hpast.trans hclock, fun row hrow hopens hshows hmine => ?_,
      hpointer.imp_right fun hlapsed => hlapsed.trans hclock⟩
    have hshows' : world.Shows row := hshows.mono hclock
    cases row_of_book h.ledger hmay hrow hopens.billed with
    | earlier mem => exact hbefore row mem hopens hshows' hmine
    | wiped old mem billed queryRunId recordedAt accountId older =>
        exact absurd hshows' (older hmine)
    | booked key' queryRunId accountId names recordedAt opens whose =>
        obtain ⟨run, hrun, hid⟩ := mine_iff.mp hmine
        have hsame : queryRunId = run.1 := Option.some.inj (names.symm.trans hid)
        rcases whose with hmem | hother
        · exact absurd (htimely' _ (opens hopens) hmem) (hlinked.others hdiffers _ hmem)
        · exact absurd (List.mem_map.mpr ⟨run, hrun, hsame.symm⟩) hother.2

/-! ### A run of the subject -/

theorem mine_start {row : EventRow} (run : Uuid × Uuid) (hfresh : row.queryRunId ≠ some run.1) :
    LivesWorld.mine { world with runs := run :: world.runs } row = world.mine row := by
  simp [mine, hfresh]

/-- A new run has no row yet, and it is read the key that the account is metered under or the
account's id. -/
theorem Lived.begin (h : world.Lived accountIdFor subject) {account : AccountRow}
    {queryRunId key : Uuid} (hmem : account ∈ world.db.accounts)
    (hsubject : account.googleSub = subject)
    (hkey : key = account.meteredKey ∨ key = account.accountId)
    (hnew : queryRunId ∉ world.runs.map Prod.fst)
    (hfresh : ∀ row ∈ world.store.events, row.queryRunId ≠ some queryRunId) :
    Lived accountIdFor subject { world with runs := (queryRunId, key) :: world.runs } := by
  have hmine : ∀ row ∈ world.store.events,
      LivesWorld.mine { world with runs := (queryRunId, key) :: world.runs } row = world.mine row :=
    fun row hrow => mine_start (queryRunId, key) (hfresh row hrow)
  have hholds := h.present account hmem hsubject
  refine ⟨⟨h.ledger.calendar, h.ledger.own, List.nodup_cons.mpr ⟨hnew, h.ledger.runIds⟩,
    ?_, ?_, ?_, ?_⟩,
    h.accounts, ?_, ?_⟩
  · intro run hrun
    rcases List.mem_cons.mp hrun with rfl | hrun
    · rcases hkey with heq | heq
      · exact heq ▸ hholds.keyKnown
      · exact heq ▸ hholds.idKnown
    · exact h.ledger.runKeys run hrun
  · intro row hrow hbilled key hkey haccount
    rw [hmine row hrow]
    exact h.ledger.named row hrow hbilled key hkey haccount
  · intro row hrow hbilled hrowMine
    rw [hmine row hrow] at hrowMine
    exact h.ledger.stamped row hrow hbilled hrowMine
  · intro row hrow hbilled hshows run hrun hid
    rcases List.mem_cons.mp hrun with rfl | hrun
    · exact absurd hid (hfresh row hrow)
    · exact h.ledger.keyed row hrow hbilled hshows run hrun hid
  · intro other hother hsubject'
    have hsame : other = account :=
      List.inj_on_of_nodup_map h.accounts.subjects hother hmem (hsubject'.trans hsubject.symm)
    subst hsame
    refine ⟨hholds.idKnown, hholds.keyKnown,
      ⟨fun row hrow hopens hshows hrowMine => ?_, fun hdiffers run hrun => ?_⟩,
      hholds.drawn⟩
    · rw [hmine row hrow] at hrowMine
      exact hholds.linked.charges row hrow hopens hshows hrowMine
    · rcases List.mem_cons.mp hrun with rfl | hrun
      · rcases hkey with heq | heq
        · exact heq ▸ hdiffers
        · exact fun hid => hdiffers (hholds.drawn (heq.symm.trans hid))
      · exact hholds.linked.others hdiffers run hrun
  · intro hnone
    exact absurd hsubject (hnone account hmem)

/-- The key that is read for an account is the one it is metered under, or its id. -/
theorem spendKeyFor_key {handle : StoreHandle} {faults : SqlFaults} {account : AccountRow}
    {db : SessionDb} {key : Uuid} (hids : (db.accounts.map AccountRow.accountId).Nodup)
    (hmem : account ∈ db.accounts)
    (h : answered (spendKeyFor handle faults account.accountId) db = some (some key)) :
    key = account.meteredKey ∨ key = account.accountId := by
  by_cases hready : handle.accountsReady = true
  · obtain ⟨found, hfound⟩ := exists_accountOf ⟨account, hmem, rfl⟩
    have hsame : found = account := by
      have hfound' := hfound
      rw [accountOf] at hfound'
      have hid := List.find?_some hfound'
      exact List.inj_on_of_nodup_map hids (List.mem_of_find?_eq_some hfound') hmem
        (of_decide_eq_true hid)
    rw [spendKeyFor_answer hready h, hfound, hsame]
    exact .inl rfl
  · rw [spendKeyFor, if_pos hready] at h
    exact .inr (Option.some.inj (Option.some.inj h)).symm

theorem Lived.start (h : world.Lived accountIdFor subject) (handle : StoreHandle)
    (faults : SqlFaults) (queryRunId : Uuid) :
    (world.start subject handle faults queryRunId).Lived accountIdFor subject := by
  rw [LivesWorld.start]
  split
  · exact h
  · rename_i account hfound
    obtain ⟨hmem, hsubject⟩ := of_subjectAccount hfound
    split
    · rename_i key hread
      split_ifs with hfresh
      · exact h.begin hmem hsubject (spendKeyFor_key h.accounts.ids hmem hread) hfresh.1 hfresh.2
      · exact h
    · exact h

/-! ### Sign-ins -/

/-- The ids and keys that are drawn are not in the ledger. -/
theorem Kept.draw {subjectKey : Uuid} (h : world.Kept subjectKey) {keys : List Uuid}
    (hkeys : world.keys ⊆ keys)
    (hdrawn : ∀ key ∈ keys, key ∈ world.keys ∨ ∀ row ∈ world.store.events, row.accountId ≠ some key)
    (db : SessionDb) (deletedAt : Option Instant) :
    Kept subjectKey { world with db := db, keys := keys, deletedAt := deletedAt } := by
  refine ⟨h.calendar, hkeys h.own, h.runIds, fun run hrun => hkeys (h.runKeys run hrun), ?_,
    h.stamped, h.keyed⟩
  intro row hrow hbilled key hkey haccount
  rcases hdrawn key hkey with hknown | hfresh
  · exact h.named row hrow hbilled key hknown haccount
  · exact absurd haccount (hfresh row hrow)

theorem Holds.draw {subjectKey : Uuid} {account account' : AccountRow}
    (h : world.Holds subjectKey account) (hid : account'.accountId = account.accountId)
    (hkey : account'.meteredKey = account.meteredKey) {keys : List Uuid} (hkeys : world.keys ⊆ keys)
    (db : SessionDb) (deletedAt : Option Instant) :
    Holds subjectKey { world with db := db, keys := keys, deletedAt := deletedAt } account' := by
  refine ⟨hid ▸ hkeys h.idKnown, hkey ▸ hkeys h.keyKnown, ?_, ?_⟩
  · rw [hkey]
    exact ⟨h.linked.charges, h.linked.others⟩
  · rw [hid, hkey]
    exact h.drawn

/-- The key is still kept where only pointers that have lapsed are dropped. -/
theorem Awaits.purge {subjectKey key : Uuid} (h : world.Awaits subjectKey key) {db : SessionDb}
    {keys : List Uuid}
    (hkeys : world.keys ⊆ keys)
    (hold : ∀ row ∈ db.spendKeyCarry, row.subjectKey = subjectKey → row ∈ world.db.spendKeyCarry)
    (hlasting : ∀ row ∈ world.db.spendKeyCarry,
      row.subjectKey = subjectKey → ¬row.until' ≤ isoformat world.clock →
      row ∈ db.spendKeyCarry) :
    Awaits subjectKey { world with db := db, keys := keys } key := by
  refine ⟨hkeys h.known, ⟨h.linked.charges, h.linked.others⟩, fun row hrow hsubject => ?_,
    fun hdiffers => ?_⟩
  · exact h.pointers row (hold row hrow hsubject) hsubject
  · obtain ⟨deletedAt, hdeleted, hpast, hbefore, hpointer⟩ := h.lasts hdiffers
    refine ⟨deletedAt, hdeleted, hpast, hbefore, ?_⟩
    rcases hpointer with ⟨row, hrow, hsubject⟩ | hlapsed
    · by_cases hgone : row.until' ≤ isoformat world.clock
      · obtain ⟨-, deletedAt', hdeleted', huntil⟩ := h.pointers row hrow hsubject
        cases hdeleted.symm.trans hdeleted'
        rw [huntil, isoformat_le_iff] at hgone
        exact .inr hgone
      · exact .inl ⟨row, hlasting row hrow hsubject hgone, hsubject⟩
    · exact .inr hlapsed

theorem mem_unlapsed {now : Instant} {db : SessionDb} {row : SpendKeyCarryRow} :
    row ∈ unlapsed now db ↔ row ∈ db.spendKeyCarry ∧ ¬row.until' ≤ isoformat now := by
  rw [unlapsed, List.mem_filter, decide_eq_true_iff]

/-- A stamp from before a delete that is still in the window when the pointer of the delete has
lapsed is of the instant of the delete, a day ago. -/
theorem eq_of_lapsed {clock deletedAt : Instant} {recordedAt : Text}
    (hcalendar : clock.val + spendKeyCarry < maxDays * microsPerDay) (hpast : deletedAt ≤ clock)
    (hlapsed : deletedAt.ahead spendKeyCarry ≤ clock) (hbefore : recordedAt ≤ isoformat deletedAt)
    (hshows : isoformat (clock.back spendWindow) ≤ recordedAt) :
    clock = deletedAt.ahead spendKeyCarry ∧ recordedAt = isoformat deletedAt := by
  have hback : clock.back spendWindow ≤ deletedAt := isoformat_le_iff.mp (hshows.trans hbefore)
  have hpast' : deletedAt.val ≤ clock.val := hpast
  have hlapsed' : min (deletedAt.val + spendKeyCarry) (maxDays * microsPerDay - 1)
      ≤ clock.val := hlapsed
  have hback' : clock.val - spendKeyCarry ≤ deletedAt.val := hback
  have hval : clock.val = deletedAt.val + spendKeyCarry := by omega
  have hsame : clock.back spendWindow = deletedAt := by
    apply Fin.ext
    show clock.val - spendKeyCarry = deletedAt.val
    omega
  refine ⟨?_, le_antisymm hbefore ?_⟩
  · apply Fin.ext
    show clock.val = min (deletedAt.val + spendKeyCarry) (maxDays * microsPerDay - 1)
    omega
  · rw [← hsame]
    exact hshows

/-- A new account of the subject finds the key that links its lives, or the keyed hash once no
charge under another key is in the window. -/
theorem Awaits.carried {key : Uuid} (h : world.Awaits (accountIdFor subject) key)
    (hkept : world.Kept (accountIdFor subject))
    (htimely : ∀ deletedAt ∈ world.deletedAt, world.clock = deletedAt.ahead spendKeyCarry →
      ∀ row ∈ world.store.events, world.mine row → row.Opens →
        row.recordedAt = isoformat deletedAt →
        row.accountId = some (accountIdFor subject)) :
    carriedKey (accountIdFor subject) world.db.spendKeyCarry ∈ world.keys ∧
      world.Linked (accountIdFor subject)
        (carriedKey (accountIdFor subject) world.db.spendKeyCarry) := by
  rw [carriedKey]
  cases hfind : world.db.spendKeyCarry.find? fun row => row.subjectKey = accountIdFor subject with
  | some row =>
      have hsubject := List.find?_some hfind
      have hkey := (h.pointers row (List.mem_of_find?_eq_some hfind) (of_decide_eq_true hsubject)).1
      rw [Option.map_some, Option.getD_some, hkey]
      exact ⟨h.known, h.linked⟩
  | none =>
      rw [Option.map_none, Option.getD_none]
      refine ⟨hkept.own, ?_⟩
      by_cases hsame : key = accountIdFor subject
      · exact hsame ▸ h.linked
      · refine ⟨fun row hrow hopens hshows hmine => ?_, fun hdiffers => absurd rfl hdiffers⟩
        obtain ⟨deletedAt, hdeleted, hpast, hbefore, ⟨pointer, hpointer, hsubject⟩ | hlapsed⟩ :=
          h.lasts hsame
        · rw [List.find?_eq_none] at hfind
          exact absurd (decide_eq_true hsubject) (hfind pointer hpointer)
        · obtain ⟨hclock, hstamp⟩ := eq_of_lapsed hkept.calendar hpast hlapsed
            (hbefore row hrow hopens hshows hmine) hshows
          exact htimely deletedAt hdeleted hclock row hrow hmine hopens hstamp

theorem googleSub_meteredKey_signIn (googleSub email stamp : Text) (account : AccountRow) :
    (account.signIn googleSub email stamp).googleSub = account.googleSub ∧
      (account.signIn googleSub email stamp).meteredKey = account.meteredKey := by
  rw [AccountRow.signIn]
  split <;> exact ⟨rfl, rfl⟩

theorem Keyed.again {accounts : List AccountRow} (h : Keyed accountIdFor subject accounts)
    (googleSub email stamp : Text) :
    Keyed accountIdFor subject (accounts.map (AccountRow.signIn googleSub email stamp)) := by
  have hids : (AccountRow.accountId ∘ AccountRow.signIn googleSub email stamp) =
      AccountRow.accountId := by
    funext account
    exact accountId_signIn googleSub email stamp account
  have hsubjects : (AccountRow.googleSub ∘ AccountRow.signIn googleSub email stamp) =
      AccountRow.googleSub := by
    funext account
    exact (googleSub_meteredKey_signIn googleSub email stamp account).1
  refine ⟨?_, ?_, fun account hmem hsame => ?_⟩
  · rw [List.map_map, hids]
    exact h.ids
  · rw [List.map_map, hsubjects]
    exact h.subjects
  · obtain ⟨old, hold, rfl⟩ := List.mem_map.mp hmem
    rw [(googleSub_meteredKey_signIn googleSub email stamp old).1] at hsame ⊢
    exact h.apart old hold hsame

theorem Keyed.created {accounts : List AccountRow} (h : Keyed accountIdFor subject accounts)
    {account : AccountRow}
    (hfree : ∀ other ∈ accounts,
      other.accountId ≠ account.accountId ∧ other.googleSub ≠ account.googleSub)
    (happart : accountIdFor account.googleSub = accountIdFor subject →
      account.googleSub = subject) :
    Keyed accountIdFor subject (accounts ++ [account]) := by
  refine ⟨?_, ?_, fun other hmem hsame => ?_⟩
  · rw [List.map_append, List.map_singleton]
    refine h.ids.append (List.nodup_singleton _) ?_
    rw [List.disjoint_singleton]
    intro hmem
    obtain ⟨other, hother, hid⟩ := List.mem_map.mp hmem
    exact (hfree other hother).1 hid
  · rw [List.map_append, List.map_singleton]
    refine h.subjects.append (List.nodup_singleton _) ?_
    rw [List.disjoint_singleton]
    intro hmem
    obtain ⟨other, hother, hsub⟩ := List.mem_map.mp hmem
    exact (hfree other hother).2 hsub
  · rcases List.mem_append.mp hmem with hmem | hmem
    · exact h.apart other hmem hsame
    · rw [List.mem_singleton.mp hmem] at hsame ⊢
      exact happart hsame

theorem Lived.signIn (h : world.Lived accountIdFor subject) {handle : StoreHandle}
    {faults : SqlFaults} {googleSub email : Text} {fresh : Uuid}
    (htimely : world.Timely accountIdFor subject (.signIn handle faults googleSub email fresh)) :
    (world.signIn accountIdFor subject handle faults googleSub email fresh).Lived
      accountIdFor subject := by
  rw [LivesWorld.signIn]
  split
  swap
  · exact h
  rename_i hguard
  obtain ⟨hfresh, hrows, happart⟩ := hguard
  have heffect := upsertGoogleAccount_signsIn accountIdFor handle faults googleSub email world.clock
    world.clock fresh
    world.db
  generalize Transaction.after
    (upsertGoogleAccount accountIdFor handle faults googleSub email world.clock world.clock
    fresh) world.db = db at heffect
  generalize hkeysEq : (if googleSub = subject then fresh :: world.keys else world.keys) = keys
  have hkeys : world.keys ⊆ keys := by
    rw [← hkeysEq]
    split_ifs
    · exact List.subset_cons_self _ _
    · exact List.Subset.refl _
  have hdrawn : ∀ key ∈ keys, key ∈ world.keys ∨ ∀ row ∈ world.store.events,
      row.accountId ≠ some key := by
    intro key hkey
    rw [← hkeysEq] at hkey
    split_ifs at hkey
    · rcases List.mem_cons.mp hkey with rfl | hkey
      · exact .inr hrows
      · exact .inl hkey
    · exact .inl hkey
  have hledger := h.ledger.draw hkeys hdrawn db world.deletedAt
  have hpurge : db.spendKeyCarry = unlapsed world.clock world.db → ∀ key,
      world.Awaits (accountIdFor subject) key →
        Awaits (accountIdFor subject) { world with db := db, keys := keys } key := by
    intro hcarry key hawaits
    refine hawaits.purge hkeys (fun row hrow _ => ?_) fun row hrow _ hlasts => ?_
    · rw [hcarry, mem_unlapsed] at hrow
      exact hrow.1
    · rw [hcarry, mem_unlapsed]
      exact ⟨hrow, hlasts⟩
  cases heffect with
  | idle same =>
      subst same
      refine ⟨hledger, h.accounts, fun account hmem hsubject => ?_, fun hnone => ?_⟩
      · exact (h.present account hmem hsubject).draw rfl rfl hkeys world.db world.deletedAt
      · obtain ⟨key, hawaits⟩ := h.absent hnone
        exact ⟨key, hawaits.purge hkeys (fun _ hrow _ => hrow) fun _ hrow _ _ => hrow⟩
  | again account found accounts carry =>
      refine ⟨hledger, accounts ▸ h.accounts.again googleSub email _, fun other hmem hsubject => ?_,
        fun hnone => ?_⟩
      · rw [show LivesWorld.db { world with db := db, keys := keys } = db
          from rfl, accounts] at hmem
        obtain ⟨old, hold, rfl⟩ := List.mem_map.mp hmem
        obtain ⟨hsub, hkey⟩ :=
          googleSub_meteredKey_signIn googleSub email (isoformat world.clock) old
        exact (h.present old hold (hsub ▸ hsubject)).draw (accountId_signIn _ _ _ old) hkey hkeys db
          world.deletedAt
      · have hnone' : ∀ old ∈ world.db.accounts, old.googleSub ≠ subject := by
          intro old hold
          have hmem : old.signIn googleSub email (isoformat world.clock) ∈ db.accounts := by
            rw [accounts]
            exact List.mem_map_of_mem hold
          have hne := hnone _ hmem
          rwa [(googleSub_meteredKey_signIn googleSub email (isoformat world.clock) old).1] at hne
        obtain ⟨key, hawaits⟩ := h.absent hnone'
        exact ⟨key, hpurge carry key hawaits⟩
  | created absent free accounts carry =>
      refine ⟨hledger, accounts ▸ h.accounts.created free happart, fun other hmem hsubject => ?_,
        fun hnone => ?_⟩
      · rw [show LivesWorld.db { world with db := db, keys := keys } = db
          from rfl, accounts] at hmem
        rcases List.mem_append.mp hmem with hmem | hmem
        · exact (h.present other hmem hsubject).draw rfl rfl hkeys db world.deletedAt
        · rw [List.mem_singleton.mp hmem] at hsubject ⊢
          have hsame : googleSub = subject := hsubject
          rw [hsame] at free absent
          have hnone : ∀ old ∈ world.db.accounts, old.googleSub ≠ subject :=
            fun old hold => (free old hold).2
          obtain ⟨key, hawaits⟩ := h.absent hnone
          obtain ⟨hknown, hlinked⟩ := (hpurge carry key hawaits).carried hledger
            fun deletedAt hdeleted hclock row hrow hmine hopens hstamp =>
              htimely hsame (subjectAccount_eq_none.mpr hnone) deletedAt hdeleted hclock row hrow
                hmine hopens.1 hopens.2
                hstamp
          rw [show LivesWorld.db { world with db := db, keys := keys } = db
            from rfl, carry] at hknown hlinked
          refine ⟨?_, hsame ▸ hknown, hsame ▸ hlinked, fun hid => absurd h.ledger.own ?_⟩
          · rw [← hkeysEq, if_pos hsame]
            exact List.mem_cons_self
          · rw [← show fresh = accountIdFor subject from hid]
            exact hfresh
      · have hnone' : ∀ old ∈ world.db.accounts, old.googleSub ≠ subject := fun old hold =>
          hnone old (by
            rw [show LivesWorld.db { world with db := db, keys := keys } = db from rfl, accounts]
            exact List.mem_append_left _ hold)
        obtain ⟨key, hawaits⟩ := h.absent hnone'
        exact ⟨key, hpurge carry key hawaits⟩

/-! ### Deletes -/

theorem Keyed.filter {accounts : List AccountRow} (h : Keyed accountIdFor subject accounts)
    (p : AccountRow → Bool) :
    Keyed accountIdFor subject (accounts.filter p) where
  ids := h.ids.sublist (List.filter_sublist.map _)
  subjects := h.subjects.sublist (List.filter_sublist.map _)
  apart account hmem := h.apart account (List.mem_filter.mp hmem).1

theorem of_accountOf {accountId : Uuid} {db : SessionDb} {account : AccountRow}
    (h : accountOf accountId db = some account) : account ∈ db.accounts ∧
    account.accountId = accountId := by
  rw [accountOf] at h
  have hid := List.find?_some h
  exact ⟨List.mem_of_find?_eq_some h, of_decide_eq_true hid⟩

/-- A delete of the subject's account leaves its key behind for a day. -/
theorem Holds.awaits {account : AccountRow} (h : world.Holds (accountIdFor subject) account)
    (hkept : world.Kept (accountIdFor subject)) (hsubject : account.googleSub = subject)
    {db : SessionDb} (hfound : accountOf account.accountId world.db = some account)
    (hcarry : db.spendKeyCarry = carriedAfter accountIdFor account.accountId world.clock world.db) :
    Awaits (accountIdFor subject) { world with db := db, deletedAt := some world.clock } account.meteredKey := by
  rw [carriedAfter, hfound] at hcarry
  refine ⟨h.keyKnown, ⟨h.linked.charges, h.linked.others⟩, fun row hrow hkey => ?_, fun _ => ?_⟩
  · rw [show LivesWorld.db { world with db := db, deletedAt := some world.clock } = db
      from rfl, hcarry] at hrow
    rcases List.mem_append.mp hrow with hrow | hrow
    · have hne := (List.mem_filter.mp hrow).2
      rw [hsubject] at hne
      exact absurd hkey (of_decide_eq_true hne)
    · rw [List.mem_singleton.mp hrow]
      exact ⟨rfl, world.clock, rfl, rfl⟩
  · refine ⟨world.clock, rfl, le_refl world.clock, fun row hrow hopens _ hmine => ?_, .inl ?_⟩
    · obtain ⟨t, ht, hstamp⟩ := hkept.stamped row hrow hopens.billed hmine
      rw [hstamp]
      exact isoformat_le_iff.mpr ht
    · refine ⟨⟨accountIdFor account.googleSub, account.meteredKey,
        isoformat (world.clock.ahead spendKeyCarry)⟩, ?_,
        congrArg accountIdFor hsubject⟩
      rw [show LivesWorld.db { world with db := db, deletedAt := some world.clock } = db
        from rfl, hcarry]
      exact List.mem_append_right _ (List.mem_singleton.mpr rfl)

theorem Lived.delete (h : world.Lived accountIdFor subject) (handle : StoreHandle)
    (faults : SqlFaults) (accountId : Uuid) :
    (world.delete accountIdFor subject handle faults accountId).Lived accountIdFor subject := by
  rw [LivesWorld.delete]
  by_cases hdone : answered (deleteAccount accountIdFor handle faults accountId world.clock)
    world.db = some true
  swap
  · rw [deleteAccount_undone accountIdFor hdone, if_neg fun hboth => hdone hboth.1]
    exact h
  have haccounts := (deleteAccount_done accountIdFor hdone).1
  have hcarry := deleteAccount_carry hdone
  generalize Transaction.after (deleteAccount accountIdFor handle faults accountId world.clock)
    world.db = db
    at haccounts hcarry
  have hkeyed : Keyed accountIdFor subject db.accounts := haccounts ▸ h.accounts.filter _
  have hpresent : ∀ deletedAt, ∀ account ∈ db.accounts, account.googleSub = subject →
      Holds (accountIdFor subject) { world with db := db, deletedAt := deletedAt } account := by
    intro deletedAt account hmem hsubject
    rw [haccounts] at hmem
    exact (h.present account (List.mem_filter.mp hmem).1 hsubject).draw rfl rfl
      (List.Subset.refl _) db deletedAt
  by_cases hsubject : (accountOf accountId world.db).any fun account => account.googleSub = subject
  · rw [if_pos ⟨hdone, hsubject⟩]
    obtain ⟨account, hfound, hsub⟩ := (Option.any_eq_true _ _).mp hsubject
    have hsub : account.googleSub = subject := of_decide_eq_true hsub
    obtain ⟨hmem, rfl⟩ := of_accountOf hfound
    refine ⟨h.ledger.draw (List.Subset.refl _) (fun _ => .inl) db _, hkeyed, hpresent _, fun _ => ?_⟩
    exact ⟨account.meteredKey, (h.present account hmem hsub).awaits h.ledger hsub hfound hcarry⟩
  · rw [if_neg fun hboth => hsubject hboth.2]
    refine ⟨h.ledger.draw (List.Subset.refl _) (fun _ => .inl) db _, hkeyed, hpresent _,
      fun hnone => ?_⟩
    have hnone' : ∀ account ∈ world.db.accounts, account.googleSub ≠ subject := by
      intro account hmem hsub
      by_cases hid : account.accountId = accountId
      · obtain ⟨found, hfound⟩ := exists_accountOf ⟨account, hmem, hid⟩
        obtain ⟨hmem', hid'⟩ := of_accountOf hfound
        have hsame := List.inj_on_of_nodup_map h.accounts.ids hmem' hmem (hid'.trans hid.symm)
        refine hsubject ((Option.any_eq_true _ _).mpr ⟨found, hfound, decide_eq_true ?_⟩)
        rw [hsame, hsub]
      · refine hnone account ?_ hsub
        rw [show LivesWorld.db { world with db := db } = db from rfl, haccounts]
        exact List.mem_filter.mpr ⟨hmem, decide_eq_true hid⟩
    obtain ⟨key, hawaits⟩ := h.absent hnone'
    refine ⟨key,
      hawaits.purge (List.Subset.refl _) (fun row hrow hkey => ?_) fun row hrow hkey hlasts => ?_⟩
    · rw [hcarry, carriedAfter] at hrow
      cases hfound : accountOf accountId world.db with
      | none =>
          rw [hfound] at hrow
          exact (mem_unlapsed.mp hrow).1
      | some account =>
          rw [hfound] at hrow
          rcases List.mem_append.mp hrow with hrow | hrow
          · exact (mem_unlapsed.mp (List.mem_filter.mp hrow).1).1
          · rw [List.mem_singleton.mp hrow] at hkey
            have hmem := (of_accountOf hfound).1
            exact absurd (h.accounts.apart account hmem hkey) (hnone' account hmem)
    · rw [hcarry, carriedAfter]
      have hmem' : row ∈ unlapsed world.clock world.db := mem_unlapsed.mpr ⟨hrow, hlasts⟩
      cases hfound : accountOf accountId world.db with
      | none => exact hmem'
      | some account =>
          refine List.mem_append_left _ (List.mem_filter.mpr ⟨hmem',
            decide_eq_true fun hsame => ?_⟩)
          have hmem := (of_accountOf hfound).1
          exact absurd (h.accounts.apart account hmem (hsame.symm.trans hkey)) (hnone' account hmem)

/-! ### Runs -/

theorem Lived.step (h : world.Lived accountIdFor subject) {turn : LivesTurn}
    (htimely : world.Timely accountIdFor subject turn) :
    (world.step accountIdFor julianday subject turn).Lived accountIdFor subject := by
  cases turn with
  | signIn handle faults googleSub email fresh => exact h.signIn htimely
  | delete handle faults accountId => exact h.delete handle faults accountId
  | start handle faults queryRunId => exact h.start handle faults queryRunId
  | book op =>
      rw [LivesWorld.step]
      split_ifs with hmay
      · exact h.book hmay htimely
      · exact h

/-- Each turn is timely where it is taken. -/
def TimelyRun (accountIdFor : Text → Uuid) (julianday : Text → Option ℚ) (subject : Text)
    (world : LivesWorld) :
    List LivesTurn → Prop
  | [] => True
  | turn :: turns => world.Timely accountIdFor subject turn ∧
      TimelyRun accountIdFor julianday subject
        (world.step accountIdFor julianday subject turn) turns

/-- Decided at the one instant, not over the calendar. -/
instance decidableForallDeletedAt (deletedAt : Option Instant) (p : Instant → Prop)
    [DecidablePred p] :
    Decidable (∀ t ∈ deletedAt, p t) :=
  match deletedAt with
  | none => .isTrue fun _ h => nomatch h
  | some t => decidable_of_iff (p t) ⟨fun h _ ht => Option.some.inj ht ▸ h, fun h => h t rfl⟩

instance (turn : LivesTurn) : Decidable (world.Timely accountIdFor subject turn) := by
  cases turn <;> unfold Timely
  case book op =>
    exact Option.decidableForallMem op.charges
  all_goals infer_instance

instance decidableTimelyRun : (turns : List LivesTurn) → (world : LivesWorld) →
    Decidable (world.TimelyRun accountIdFor julianday subject turns)
  | [], _ => .isTrue trivial
  | turn :: turns, world =>
      have := decidableTimelyRun turns (world.step accountIdFor julianday subject turn)
      inferInstanceAs (Decidable (_ ∧ _))

theorem Lived.run (h : world.Lived accountIdFor subject) {turns : List LivesTurn}
    (htimely : world.TimelyRun accountIdFor julianday subject turns) :
    (world.after accountIdFor julianday subject turns).Lived accountIdFor subject := by
  induction turns generalizing world with
  | nil => exact h
  | cons turn turns ih => exact ih (h.step htimely.1) htimely.2

/-- A start: at most one account of the subject, new or from before the spend key, no pointer of it,
and nothing spent under its keys. -/
structure Begins (accountIdFor : Text → Uuid) (subject : Text) (clock : Instant)
    (store : FeedbackStore) (db : SessionDb) : Prop where
  calendar : clock.val + spendKeyCarry < maxDays * microsPerDay
  accounts : Keyed accountIdFor subject db.accounts
  drawn : ∀ account ∈ db.accounts, account.googleSub = subject →
    account.accountId = accountIdFor subject →
    account.meteredKey = accountIdFor subject
  pointers : ∀ row ∈ db.spendKeyCarry, row.subjectKey ≠ accountIdFor subject
  unspent : ∀ row ∈ store.events, ∀ key ∈ (boot accountIdFor subject clock store db).keys,
    row.accountId ≠ some key

theorem lived_boot {clock : Instant} {store : FeedbackStore} {db : SessionDb}
    (h : Begins accountIdFor subject clock store db) :
    (boot accountIdFor subject clock store db).Lived accountIdFor subject := by
  have hnoRun : ∀ row : EventRow, ¬(boot accountIdFor subject clock store db).mine row := by
    intro row hmine
    obtain ⟨run, hrun, -⟩ := mine_iff.mp hmine
    cases hrun
  refine ⟨⟨h.calendar, List.mem_cons_self, List.nodup_nil,
    fun _ hrun => (List.not_mem_nil hrun).elim, ?_, ?_, ?_⟩,
    h.accounts, fun account hmem hsubject => ?_, fun hnone => ?_⟩
  · exact fun row hrow _ key hkey haccount => absurd haccount (h.unspent row hrow key hkey)
  · exact fun row _ _ hmine => absurd hmine (hnoRun row)
  · exact fun row _ _ _ run hrun => (List.not_mem_nil hrun).elim
  · have hfound : subjectAccount subject db = some account := by
      cases hfind : subjectAccount subject db with
      | none => exact absurd hsubject (subjectAccount_eq_none.mp hfind account hmem)
      | some found =>
          obtain ⟨hmem', hsubject'⟩ := of_subjectAccount hfind
          rw [List.inj_on_of_nodup_map h.accounts.subjects hmem' hmem
            (hsubject'.trans hsubject.symm)]
    have hkeys : (boot accountIdFor subject clock store db).keys =
        [accountIdFor subject, account.accountId, account.meteredKey] := by
      rw [boot, hfound]
      rfl
    refine ⟨by simp [hkeys], by simp [hkeys], ⟨fun row _ _ _ hmine => absurd hmine (hnoRun row), ?_⟩,
      h.drawn account hmem hsubject⟩
    exact fun _ run hrun => (List.not_mem_nil hrun).elim
  · refine ⟨accountIdFor subject, List.mem_cons_self,
      ⟨fun row _ _ _ hmine => absurd hmine (hnoRun row), ?_⟩, ?_, ?_⟩
    · exact fun _ run hrun => (List.not_mem_nil hrun).elim
    · exact fun row hrow hkey => absurd hkey (h.pointers row hrow)
    · exact fun hdiffers => absurd rfl hdiffers

theorem spendKeyFor_ready {handle : StoreHandle} {account : AccountRow} {db : SessionDb}
    (hready : handle.accountsReady = true) (hopen : handle.closed = false)
    (hids : (db.accounts.map AccountRow.accountId).Nodup) (hmem : account ∈ db.accounts) :
    answered (spendKeyFor handle (fun _ => none) account.accountId) db =
      some (some account.meteredKey) := by
  obtain ⟨found, hfound⟩ := exists_accountOf ⟨account, hmem, rfl⟩
  obtain ⟨hmem', hid⟩ := of_accountOf hfound
  have hsame := List.inj_on_of_nodup_map hids hmem' hmem hid
  rw [spendKeyFor, if_neg (not_not.mpr hready), if_neg (by rw [hopen]; exact Bool.false_ne_true)]
  show some (some (((accountOf account.accountId db).bind
    AccountRow.spendKey).getD account.accountId)) = _
  rw [hfound, hsame]
  rfl

end LivesWorld

open LivesWorld

/-- In a timely run over any number of account lives of a subject, an account that it has, so also
one just made, is metered at what the runs of all its lives cost in the last day; and neither a
sign-in nor a delete changes that cost. -/
theorem spend_envelope_survives (accountIdFor : Text → Uuid) (julianday : Text → Option ℚ)
    (subject : Text)
    {clock : Instant} {store : FeedbackStore} {db : SessionDb}
    (hbegins : Begins accountIdFor subject clock store db)
    (turns : List LivesTurn)
    (htimely : (boot accountIdFor subject clock store db).TimelyRun accountIdFor
      julianday subject turns) :
    let world :=
      (boot accountIdFor subject clock store db).after accountIdFor julianday subject turns
    (∀ account ∈ world.db.accounts, account.googleSub = subject → ∀ handle : StoreHandle,
      handle.accountsReady = true → handle.closed = false →
        ∃ key, answered (spendKeyFor handle (fun _ => none) account.accountId) world.db =
          some (some key) ∧
          dailySpendFor key world.clock world.store = world.livesSpend) ∧
    (∀ handle faults googleSub email fresh,
      (world.step accountIdFor julianday subject
        (.signIn handle faults googleSub email fresh)).livesSpend =
        world.livesSpend) ∧
    ∀ handle faults accountId,
      (world.step accountIdFor julianday subject (.delete handle faults accountId)).livesSpend =
        world.livesSpend := by
  intro world
  have hlived : world.Lived accountIdFor subject := (lived_boot hbegins).run htimely
  refine ⟨fun account hmem hsubject handle hready hopen => ?_,
    fun handle faults googleSub email fresh => ?_,
    fun handle faults accountId => rfl⟩
  · have hholds := hlived.present account hmem hsubject
    exact ⟨account.meteredKey, spendKeyFor_ready hready hopen hlived.accounts.ids hmem,
      dailySpendFor_of_linked hlived.ledger hholds.keyKnown hholds.linked⟩
  · rw [LivesWorld.step, LivesWorld.signIn]
    split <;> rfl

/-! An account from before the spend key, which is metered under its own id. -/

def openHandle : StoreHandle := ⟨true, true, true, false⟩

def legacyAccounts : SessionDb :=
  { SessionDb.empty with accounts := [⟨1, "sub".toList, "mail".toList, [], [], some 1, none⟩] }

abbrev legacyWorld : LivesWorld :=
  boot (fun _ => 9) "sub".toList noonOfJanuary .empty legacyAccounts

def legacyCharge : LivesTurn := .book (.charge ⟨1, 7, 1 / 5, 1, 5, true⟩ ⟨true, 0⟩)

def signInAgain : LivesTurn := .signIn openHandle (fun _ => none) "sub".toList "mail".toList 2

theorem begins_legacy : Begins (fun _ => 9) "sub".toList noonOfJanuary .empty legacyAccounts := by
  refine ⟨by decide +kernel, ⟨by decide, by decide, fun account hmem _ => ?_⟩, fun account hmem _ hid => ?_,
    fun row hrow => (List.not_mem_nil hrow).elim, fun row hrow => (List.not_mem_nil hrow).elim⟩
  · rw [List.mem_singleton.mp hmem]
  · rw [List.mem_singleton.mp hmem] at hid
    exact absurd hid (by decide)

/-- The meter that a world reads for the subject's account. -/
def LivesWorld.accountSpend (world : LivesWorld) (subject : Text) :
    Option (Except LedgerError Amount) :=
  (subjectAccount subject world.db).map fun account =>
    dailySpendFor account.meteredKey world.clock world.store

/-- A run, its delete, and a sign-in an hour later. -/
def hourTurns : List LivesTurn :=
  [.start openHandle (fun _ => none) 7, legacyCharge, .delete openHandle (fun _ => none) 1,
    .book (.tick (3600 * microsPerSecond)), signInAgain]

/-- Made again within the day, the account is metered at what its earlier life spent. -/
theorem spend_envelope_survives_hour :
    (legacyWorld.after (fun _ => 9) sampleJulianday "sub".toList hourTurns).livesSpend =
      .ok (1 / 5) ∧
      ∀ account ∈ (legacyWorld.after (fun _ => 9)
        sampleJulianday "sub".toList hourTurns).db.accounts,
        account.googleSub = "sub".toList → ∃ key,
          answered (spendKeyFor openHandle (fun _ => none) account.accountId)
            (legacyWorld.after (fun _ => 9) sampleJulianday "sub".toList hourTurns).db =
              some (some key) ∧
          dailySpendFor key
            (legacyWorld.after (fun _ => 9) sampleJulianday "sub".toList hourTurns).clock
            (legacyWorld.after (fun _ => 9) sampleJulianday "sub".toList hourTurns).store =
              .ok (1 / 5) := by
  have hspend : (legacyWorld.after (fun _ => 9) sampleJulianday "sub".toList hourTurns).livesSpend =
      .ok (1 / 5) := by
    decide +kernel
  have htimely : legacyWorld.TimelyRun (fun _ => 9) sampleJulianday "sub".toList hourTurns := by
    decide +kernel
  have hworld : boot (fun _ => 9) "sub".toList noonOfJanuary .empty legacyAccounts =
      legacyWorld := rfl
  have henvelope :=
    (spend_envelope_survives (fun _ => 9) sampleJulianday "sub".toList begins_legacy
      hourTurns htimely).1
  rw [hworld] at henvelope
  refine ⟨hspend, fun account hmem hsubject => ?_⟩
  obtain ⟨key, hread, hmetered⟩ := henvelope account hmem hsubject openHandle rfl rfl
  exact ⟨key, hread, hmetered.trans hspend⟩

/-- Made again a day to the instant after a delete at whose instant it was charged, or after a
charge that came an instant behind the delete, an account from before the spend key is metered at
nothing. -/
theorem spend_envelope_lost :
    Begins (fun _ => 9) "sub".toList noonOfJanuary .empty legacyAccounts ∧
    (let world := legacyWorld.after (fun _ => 9) sampleJulianday "sub".toList
      [.start openHandle (fun _ => none) 7, legacyCharge, .delete openHandle (fun _ => none) 1,
        .book (.tick spendWindow), signInAgain]
    world.accountSpend "sub".toList = some (.ok 0) ∧ world.livesSpend = .ok (1 / 5)) ∧
    (let world := legacyWorld.after (fun _ => 9) sampleJulianday "sub".toList
      [.start openHandle (fun _ => none) 7, .delete openHandle (fun _ => none) 1,
        .book (.tick 1), legacyCharge,
        .book (.tick (spendWindow - 1)), signInAgain]
    world.accountSpend "sub".toList = some (.ok 0) ∧ world.livesSpend = .ok (1 / 5)) :=
  ⟨begins_legacy, by decide +kernel, by decide +kernel⟩

end Quorum
