import Quorum.FetchRun

/-! The whole run of the fetch of cited pages: what it may ask, how many requests it makes, and what
its rows say. The loop's invariant ties the readings of robots.txt that are held to the fetches that
made them. -/

namespace Quorum

open Inquiry Transaction

section

variable {t : FetchTables} {outside : Outside FetchAnswer} {call : FetchCall} {deadline : ℚ}
  {urls : List Text}

/-! ### Readings of robots.txt -/

theorem RobotsRead.persists (origin : Text) (reading : RobotsReading) :
    Persists (RobotsRead t outside call deadline origin reading) := by
  rintro history event ⟨earlier, read, later, hread, rfl⟩
  exact ⟨earlier, read, later ++ [event], hread, List.append_assoc _ _ _⟩

theorem RobotsSaid.persists (verdict : RobotsVerdict) (url : Text) (target : PageTarget) :
    Persists (RobotsSaid t outside call deadline verdict url target) := by
  rintro history event ⟨reading, hread, hverdict⟩
  exact ⟨reading, RobotsRead.persists _ _ history event hread, hverdict⟩

theorem Persists.and {P Q : FetchHistory → Prop} (hP : Persists P) (hQ : Persists Q) :
    Persists fun history => P history ∧ Q history :=
  fun history event h => ⟨hP history event h.1, hQ history event h.2⟩

/-- What is held of the origins was read from them. -/
def RobotsKnown (t : FetchTables) (outside : Outside FetchAnswer) (call : FetchCall) (deadline : ℚ)
    (robots : Dict Text RobotsReading) (history : FetchHistory) : Prop :=
  ∀ origin reading, robots.get? origin = some reading →
    RobotsRead t outside call deadline origin reading history

theorem RobotsKnown.persists (robots : Dict Text RobotsReading) :
    Persists (RobotsKnown t outside call deadline robots) :=
  fun history event h origin reading hget =>
    RobotsRead.persists origin reading history event (h origin reading hget)

theorem RobotsKnown.set {robots : Dict Text RobotsReading} {history : FetchHistory}
    (h : RobotsKnown t outside call deadline robots history) {origin : Text}
    {reading : RobotsReading} (hread : RobotsRead t outside call deadline origin reading history) :
    RobotsKnown t outside call deadline (robots.set origin reading) history := by
  intro other otherReading hget
  rw [Dict.get?_set] at hget
  split_ifs at hget with heq
  · obtain rfl := Option.some.inj hget
    rw [heq]
    exact hread
  · exact h other otherReading hget

/-- The origins of the cited pages that may be fetched. -/
def citedOrigins (t : FetchTables) (urls : List Text) : List Text :=
  urls.filterMap fun raw => (t.acceptUrl (t.canonicalAddress raw)).toOption.map (·.origin)

theorem mem_citedOrigins {raw : Text} (hraw : raw ∈ urls) {target : PageTarget}
    (hurl : t.acceptUrl (t.canonicalAddress raw) = .ok target) :
    target.origin ∈ citedOrigins t urls :=
  List.mem_filterMap.mpr ⟨raw, hraw, by rw [hurl]; rfl⟩

/-- What is held after a page of what was held before it. -/
structure Learnt (t : FetchTables) (call : FetchCall) (urls : List Text)
    (robots learnt : Dict Text RobotsReading) : Prop where
  size : learnt.size ≤ robots.size + if call.respectRobots = true then 1 else 0
  origins : ∀ origin ∈ learnt.keys, origin ∈ citedOrigins t urls

theorem Learnt.size_le {robots learnt : Dict Text RobotsReading}
    (h : Learnt t call urls robots learnt) {pages : ℕ}
    (hrobots : robots.size ≤ if call.respectRobots = true then pages else 0) :
    learnt.size ≤ if call.respectRobots = true then pages + 1 else 0 := by
  have hsize := h.size
  split_ifs at hsize hrobots ⊢ <;> omega

theorem Counted.mono {K : FetchHistory → Prop} {bound bound' : ℕ} (h : bound ≤ bound')
    {history : FetchHistory} (hcounted : Counted K bound history) : Counted K bound' history :=
  ⟨hcounted.1, hcounted.2.trans h⟩

/-- The robots.txt of a cited page's origin is read with one request. -/
theorem keeps_readRobots {K : FetchHistory → Prop} (hK : Persists K) (bound : ℕ)
    (hrespect : call.respectRobots = true) {raw : Text} (hraw : raw ∈ urls) {target : PageTarget}
    (hurl : t.acceptUrl (t.canonicalAddress raw) = .ok target) :
    Keeps (callPolicy t outside call deadline urls) (Counted K bound)
      (readRobots t outside call deadline target.origin)
      (fun reading history => Counted K (bound + 1) history ∧
        RobotsRead t outside call deadline target.origin reading history)
      (fun _ => Counted K (bound + 1)) := by
  have hsends : ∀ robots (_ : Unit),
      t.acceptUrl (target.origin ++ "/robots.txt".toList) = .ok robots →
      Sends (dialGate t outside call deadline urls) (call.robotsLimits deadline) (·.GoesTo robots)
        (Counted K bound)
        (Counted K (bound + 1)) :=
    fun robots _ hrobots => hK.sends
      (fun _ dial hdial _ => ⟨raw, hraw,
        .inl ⟨rfl, hrespect, target, robots, hurl, hrobots, hdial⟩⟩) bound
  have hfetch : Keeps (egress t (call.robotsLimits deadline)
      (dialGate t outside call deadline urls)) (Counted K bound)
      (fetchOne t outside (call.robotsLimits deadline) () (fun _ => pure (.allowed, ()))
        (target.origin ++ "/robots.txt".toList)) _ (fun _ => Counted K (bound + 1)) :=
    keeps_fetchOne (P := Counted K bound) (Q := fun _ _ _ => Counted K bound)
      (hK.quiet bound).settled.still
      (fun _ _ _ => (hK.quiet bound).settled.still) (fun _ _ => Keeps.pure fun _ h => h) hsends
        fun _ _ _ _ _ h => h
  have hrun : Keeps (callPolicy t outside call deadline urls) (Counted K bound)
      (readRobots t outside call deadline target.origin) (fun _ => Counted K (bound + 1))
      (fun _ => Counted K (bound + 1)) := by
    rw [readRobots]
    refine Keeps.bind hfetch fun fetched => Keeps.pure fun history h => ?_
    cases h.2 with
    | refused _ _ _ h => exact h.mono (Nat.le_succ bound)
    | stopped _ _ h => exact h.mono (Nat.le_succ bound)
    | fetched _ _ h => exact h
  refine hrun.ran.weaken fun reading history h => ⟨h.1, ?_⟩
  obtain ⟨earlier, hread⟩ := h.2
  exact ⟨earlier, history, [], hread, (List.append_nil _).symm⟩

/-! ### One page -/

/-- What is known of a page once robots.txt was asked about it, beside what held before. -/
structure Spoken (t : FetchTables) (outside : Outside FetchAnswer) (call : FetchCall) (deadline : ℚ)
    (urls : List Text) (K : FetchHistory → Prop) (robots : Dict Text RobotsReading) (url : Text)
    (target : PageTarget) (verdict : RobotsVerdict) (learnt : Dict Text RobotsReading)
    (history : FetchHistory) : Prop where
  kept : K history
  held : Learnt t call urls robots learnt
  known : RobotsKnown t outside call deadline learnt history
  said : call.respectRobots = true → RobotsSaid t outside call deadline verdict url target history
  unasked : call.respectRobots = false → verdict = .allowed

theorem Spoken.persists {K : FetchHistory → Prop} (hK : Persists K)
    (robots : Dict Text RobotsReading) (url : Text) (target : PageTarget) (verdict : RobotsVerdict)
    (learnt : Dict Text RobotsReading) :
    Persists (Spoken t outside call deadline urls K robots url target verdict learnt) :=
  fun history event h =>
    ⟨hK history event h.kept, h.held, RobotsKnown.persists learnt history event h.known,
      fun hrespect =>
        RobotsSaid.persists verdict url target history event (h.said hrespect), h.unasked⟩

/-- A raise in the middle of a page. -/
def RaisedInPage (t : FetchTables) (call : FetchCall) (urls : List Text)
    (robots : Dict Text RobotsReading) (pages : ℕ) (history : FetchHistory) : Prop :=
  ∃ learnt, Learnt t call urls robots learnt ∧ requests history ≤ pages + 1 + learnt.size

section

variable {robots : Dict Text RobotsReading}
  (hrobots : ∀ origin ∈ robots.keys, origin ∈ citedOrigins t urls) {raw : Text} (hraw : raw ∈ urls)
  (pages : ℕ) {K : FetchHistory → Prop} (hK : Persists K)

theorem learnt_refl (hrobots : ∀ origin ∈ robots.keys, origin ∈ citedOrigins t urls) :
    Learnt t call urls robots robots :=
  ⟨Nat.le_add_right _ _, hrobots⟩

include hrobots hraw hK

theorem keeps_permit {target : PageTarget}
    (hurl : t.acceptUrl (t.canonicalAddress raw) = .ok target) :
    Keeps (callPolicy t outside call deadline urls)
      (Counted (fun history => RobotsKnown t outside call deadline robots history ∧ K history)
        (pages + robots.size))
      (if call.respectRobots then permit t outside call deadline robots
        (t.canonicalAddress raw) target
        else pure (.allowed, robots))
      (fun verdict => Counted
        (Spoken t outside call deadline urls K robots (t.canonicalAddress raw) target
          verdict.1 verdict.2)
        (pages + verdict.2.size))
      (fun _ => RaisedInPage t call urls robots pages) := by
  have hrefl : Learnt t call urls robots robots := learnt_refl hrobots
  have hknown : Persists fun history => RobotsKnown t outside call deadline robots history ∧
      K history :=
    (RobotsKnown.persists robots).and hK
  refine Keeps.ite (fun hrespect => ?_) fun hrespect => Keeps.pure fun history h => ?_
  · rw [permit]
    cases hget : robots.get? target.origin with
    | some reading =>
        refine Keeps.pure fun history h => ⟨⟨h.1.2, hrefl, h.1.1, fun _ => ?_, fun hnot => ?_⟩, h.2⟩
        · exact ⟨reading, h.1.1 target.origin reading hget, rfl⟩
        · rw [hrespect] at hnot
          cases hnot
    | none =>
        refine Keeps.bind (R := fun reading history =>
          Counted (fun history => RobotsKnown t outside call deadline robots history ∧ K history)
            (pages + robots.size + 1) history ∧
              RobotsRead t outside call deadline target.origin reading history)
          (Triple.consequence (keeps_readRobots hknown _ hrespect hraw hurl)
            (fun _ h => h) (fun _ _ h => h) ?_) fun reading => Keeps.pure fun history h => ?_
        · exact fun raised history h => ⟨h.1, robots, hrefl, by have := h.2.2; omega⟩
        · have hsize : (robots.set target.origin reading).size = robots.size + 1 :=
            Dict.size_set_of_absent hget reading
          refine ⟨⟨h.1.1.2, ⟨?_, ?_⟩, h.1.1.1.set h.2, fun _ => ⟨reading, h.2, rfl⟩,
            fun hnot => ?_⟩, ?_⟩
          · rw [hsize, if_pos hrespect]
          · intro origin horigin
            rcases Dict.mem_keys_set.mp horigin with rfl | hold
            · exact mem_citedOrigins hraw hurl
            · exact hrobots origin hold
          · rw [hrespect] at hnot
            cases hnot
          · have hcount := h.1.2
            show requests history ≤ pages + (robots.set target.origin reading).size
            omega
  · exact ⟨⟨h.1.2, hrefl, h.1.1, fun h => absurd h hrespect, fun _ => rfl⟩, h.2⟩

end

/-- The answer behind a row: that of a request for the row's address, with the status that the row
says, and the cap of the type that its head names. -/
def PageServed (t : FetchTables) (call : FetchCall) (deadline : ℚ) (url : Text)
    (progress : FetchProgress) (cap : ℕ) (history : FetchHistory) : Prop :=
  ∃ target head, t.acceptUrl url = .ok target ∧
    Served t (call.limits deadline) (·.GoesTo target) head cap history ∧
    progress.finalStatus = some head.status

theorem PageServed.persists (url : Text) (progress : FetchProgress) (cap : ℕ) :
    Persists (PageServed t call deadline url progress cap) := by
  rintro history event ⟨target, head, hurl, hserved, hstatus⟩
  exact ⟨target, head, hurl, hserved.concat event, hstatus⟩

/-- What a row of the fetch says. -/
structure RowWell (t : FetchTables) (outside : Outside FetchAnswer) (call : FetchCall)
    (deadline : ℚ) (url : Text) (facts : PageFacts) (history : FetchHistory) : Prop where
  bytes : facts.progress.bytesRead ≠ 0 →
    ∃ cap, PageServed t call deadline url facts.progress cap history ∧
      facts.progress.bytesRead ≤ cap + 1
  text : facts.text ≠ [] → facts.outcome = .fetched
  fetched : facts.outcome = .fetched →
    (∃ cap, PageServed t call deadline url facts.progress cap history ∧
      facts.progress.bytesRead ≤ cap) ∧
      ∃ status, facts.progress.finalStatus = some status ∧ status < 300
  heard : facts.progress.finalStatus ≠ none →
    ∃ target, PageAllowed t outside call deadline url target history
  refused : facts.outcome = .refusedRobots → call.respectRobots = true ∧
    ∃ target, t.acceptUrl url = .ok target ∧
      RobotsSaid t outside call deadline .refused url target history

theorem RowWell.persists (url : Text) (facts : PageFacts) :
    Persists (RowWell t outside call deadline url facts) := by
  intro history event h
  refine ⟨fun hbytes => ?_, h.text, fun hfetched => ⟨?_, (h.fetched hfetched).2⟩, fun hheard => ?_,
    fun hrefused => ?_⟩
  · obtain ⟨cap, hserved, hle⟩ := h.bytes hbytes
    exact ⟨cap, PageServed.persists _ _ cap history event hserved, hle⟩
  · obtain ⟨cap, hserved, hle⟩ := (h.fetched hfetched).1
    exact ⟨cap, PageServed.persists _ _ cap history event hserved, hle⟩
  · obtain ⟨target, hurl, hsaid⟩ := h.heard hheard
    exact ⟨target, hurl, fun hrespect => RobotsSaid.persists _ _ _ history event (hsaid hrespect)⟩
  · obtain ⟨hrespect, target, hurl, hsaid⟩ := h.refused hrefused
    exact ⟨hrespect, target, hurl, RobotsSaid.persists _ _ _ history event hsaid⟩

/-- A row that no response is behind. -/
theorem rowWell_silent {url : Text} {outcome : FetchOutcome} {history : FetchHistory}
    (houtcome : outcome ≠ .fetched)
    (hrefused : outcome = .refusedRobots → call.respectRobots = true ∧
      ∃ target, t.acceptUrl url = .ok target ∧
        RobotsSaid t outside call deadline .refused url target history) :
    RowWell t outside call deadline url { outcome } history :=
  ⟨fun h => absurd rfl h, fun h => absurd rfl h, fun h => absurd h houtcome,
    fun h => absurd rfl h, hrefused⟩

section

variable {robots : Dict Text RobotsReading}
  (hrobots : ∀ origin ∈ robots.keys, origin ∈ citedOrigins t urls) {raw : Text} (hraw : raw ∈ urls)
  (pages : ℕ) {K : FetchHistory → Prop} (hK : Persists K)

include hrobots hraw hK

theorem keeps_fetchPage :
    Keeps (callPolicy t outside call deadline urls)
      (Counted (fun history => RobotsKnown t outside call deadline robots history ∧ K history)
        (pages + robots.size))
      (fetchPage t outside call deadline robots (t.canonicalAddress raw))
      (fun result history => result.1.url = t.canonicalAddress raw ∧
        RowWell t outside call deadline (t.canonicalAddress raw) result.1.facts history ∧
        Learnt t call urls robots result.2 ∧
        Counted (fun history => RobotsKnown t outside call deadline result.2 history ∧ K history)
          (pages + 1 + result.2.size) history)
      (fun _ => RaisedInPage t call urls robots pages) := by
  have hknown : Persists fun history => RobotsKnown t outside call deadline robots history ∧
      K history :=
    (RobotsKnown.persists robots).and hK
  have hspoken : ∀ target verdict learnt, Persists (Spoken t outside call deadline urls K robots
      (t.canonicalAddress raw) target verdict learnt) := fun _ _ _ => Spoken.persists hK _ _ _ _ _
  have hsends : ∀ target learnt, t.acceptUrl (t.canonicalAddress raw) = .ok target →
      Sends (dialGate t outside call deadline urls) (call.limits deadline) (·.GoesTo target)
        (Counted (Spoken t outside call deadline urls K robots (t.canonicalAddress raw) target
          .allowed learnt)
          (pages + learnt.size))
        (Counted (Spoken t outside call deadline urls K robots (t.canonicalAddress raw) target
          .allowed learnt)
          (pages + learnt.size + 1)) :=
    fun target learnt hurl => (hspoken target .allowed learnt).sends
      (fun history dial hdial h => ⟨raw, hraw, .inr ⟨rfl, target, ⟨hurl, h.said⟩, hdial⟩⟩) _
  have hfetch : Keeps (callPolicy t outside call deadline urls)
      (Counted (fun history => RobotsKnown t outside call deadline robots history ∧ K history)
        (pages + robots.size))
      (fetchPage t outside call deadline robots (t.canonicalAddress raw)) _
      (fun _ => RaisedInPage t call urls robots pages) :=
    keeps_fetchOne (Q := fun target verdict learnt =>
      Counted (Spoken t outside call deadline urls K robots
      (t.canonicalAddress raw) target verdict learnt) (pages + learnt.size))
      (hknown.quiet (pages + robots.size)).settled.still
      (fun target verdict learnt => ((hspoken target verdict learnt).quiet _).settled.still)
      (fun target hurl => keeps_permit hrobots hraw pages hK hurl) hsends
      (fun target learnt raised history hurl h => ⟨learnt, h.1.held, by have := h.2; omega⟩)
  refine Keeps.weaken hfetch fun result history h => ⟨h.1, ?_⟩
  cases h.2 with
  | refused hurl hfacts hlearnt hcount =>
      rw [hfacts, hlearnt]
      rcases FetchTables.acceptUrl_refuses t hurl with rfl | rfl
      · exact ⟨rowWell_silent (by simp) (by simp), learnt_refl hrobots, hcount.mono (by omega)⟩
      · exact ⟨rowWell_silent (by simp) (by simp), learnt_refl hrobots, hcount.mono (by omega)⟩
  | @stopped target verdict hurl hfacts hcount =>
      refine ⟨?_, hcount.1.held, ⟨hcount.1.known, hcount.1.kept⟩, hcount.2.trans (by omega)⟩
      have hrespect : verdict ≠ .allowed → call.respectRobots = true := fun hverdict => by
        by_contra hnot
        exact hverdict (hcount.1.unasked (by simpa using hnot))
      rcases hfacts with ⟨rfl, hfacts⟩ | ⟨rfl, hfacts⟩
      · rw [hfacts]
        refine rowWell_silent (by simp) fun _ => ?_
        exact ⟨hrespect (by simp), target, hurl, hcount.1.said (hrespect (by simp))⟩
      · rw [hfacts]
        exact rowWell_silent (by simp) (by simp)
  | @fetched target hurl hfacts hcount =>
      refine ⟨⟨fun hbytes => ?_, hfacts.text, fun hfetched => ?_,
        fun _ => ⟨target, hurl, hcount.1.said⟩,
        fun hrefused => ?_⟩, hcount.1.held, ⟨hcount.1.known, hcount.1.kept⟩,
          hcount.2.trans (by omega)⟩
      · obtain ⟨head, cap, hserved, hstatus, hle⟩ := hfacts.bytes hbytes
        exact ⟨cap, ⟨target, head, hurl, hserved, hstatus⟩, hle⟩
      · obtain ⟨head, cap, hserved, hstatus, hle⟩ := hfacts.fetched hfetched
        exact ⟨⟨cap, ⟨target, head, hurl, hserved, hstatus⟩, hle⟩, head.status, hstatus,
          hserved.status⟩
      · exact absurd (hrefused ▸ List.mem_cons_self) hfacts.dialled

end

/-! ### The loop -/

/-- A row that the caps did not skip. -/
def FetchedRow.tried (row : FetchedRow) : Bool := row.outcome ≠ .skippedCap

/-- What the loop holds, and what was asked for it. -/
structure LoopWell (t : FetchTables) (outside : Outside FetchAnswer) (call : FetchCall)
    (deadline : ℚ) (urls : List Text) (loop : FetchLoop) (history : FetchHistory) : Prop where
  known : RobotsKnown t outside call deadline loop.robots history
  requests : requests history ≤ loop.attempted + loop.robots.size
  robots : loop.robots.size ≤ if call.respectRobots = true then loop.attempted else 0
  origins : ∀ origin ∈ loop.robots.keys, origin ∈ citedOrigins t urls
  attempted : loop.attempted ≤ call.maxPages
  rows : ∀ row ∈ loop.rows, RowWell t outside call deadline row.url row.facts history
  seen : loop.rows.map (fun row => row.url) = loop.seen
  tried : loop.rows.countP FetchedRow.tried ≤ loop.attempted
  perHost : ∀ host, loop.rows.countP (fun row => row.tried && decide (t.hostKey row.url = host)) ≤
    (loop.perHost.get? host).getD 0
  host : ∀ host, (loop.perHost.get? host).getD 0 ≤ maxPagesPerHost

/-- The most requests of a call: one for each page, and one for each origin that robots.txt was
asked of. -/
def requestBound (t : FetchTables) (call : FetchCall) (urls : List Text) : ℕ :=
  call.maxPages + if call.respectRobots
    = true then min call.maxPages (citedOrigins t urls).toFinset.card else 0

theorem size_le_origins {robots : Dict Text RobotsReading}
    (h : ∀ origin ∈ robots.keys, origin ∈ citedOrigins t urls) :
    robots.size ≤ (citedOrigins t urls).toFinset.card := by
  have hsubset : robots.keys.toFinset ⊆ (citedOrigins t urls).toFinset := fun origin horigin =>
    List.mem_toFinset.mpr (h origin (List.mem_toFinset.mp horigin))
  have hcard := Finset.card_le_card hsubset
  have hnodup : robots.keys.Nodup := robots.nodup
  rw [List.toFinset_card_of_nodup hnodup, Dict.keys, List.length_map] at hcard
  exact hcard

theorem le_requestBound {robots : Dict Text RobotsReading} {pages : ℕ}
    (hpages : pages ≤ call.maxPages)
    (hsize : robots.size ≤ if call.respectRobots = true then pages else 0)
    (horigins : ∀ origin ∈ robots.keys, origin ∈ citedOrigins t urls) :
    pages + robots.size ≤ requestBound t call urls := by
  rw [requestBound]
  refine Nat.add_le_add hpages ?_
  split_ifs at hsize ⊢
  · exact le_min (hsize.trans hpages) (size_le_origins horigins)
  · exact hsize

/-- The addresses that have a row, in the order in which they were first seen. -/
def remember (t : FetchTables) (seen : List Text) (raw : Text) : List Text :=
  if t.canonicalAddress raw = [] ∨ t.canonicalAddress raw ∈ seen then seen
  else seen ++ [t.canonicalAddress raw]

theorem LoopWell.still (loop : FetchLoop) : Still (LoopWell t outside call deadline urls loop) := by
  intro history event hexchange _ h
  refine { h with known := RobotsKnown.persists _ history event h.known, requests := ?_, rows := fun row hrow => ?_ }
  · rw [Quorum.requests, asked_concat, FetchQuestion.not_isRequest hexchange,
      if_neg Bool.false_ne_true]
    exact h.requests
  · exact RowWell.persists _ _ history event (h.rows row hrow)

theorem keeps_capsSpent {P : FetchHistory → Prop} {E : FetchRaise → FetchHistory → Prop}
    (hP : Still P) (loop : FetchLoop) (host : Text) :
    Keeps (callPolicy t outside call deadline urls) P (capsSpent outside call deadline loop host)
      (fun spent history => P history ∧
        (spent = false → loop.attempted < call.maxPages ∧
          (loop.perHost.get? host).getD 0 < maxPagesPerHost)) E := by
  rw [capsSpent]
  refine Keeps.ite (fun _ => Keeps.pure fun history h => ⟨h, fun hspent => by cases hspent⟩)
    fun hpages => ?_
  refine Keeps.bind (keeps_ask hP rfl rfl fun _ _ => trivial) fun now =>
    Keeps.pure fun history h => ?_
  refine ⟨h, fun hspent => ?_⟩
  have hnot := of_decide_eq_false hspent
  exact ⟨not_le.mp hpages, not_le.mp fun hhost => hnot (.inr hhost)⟩

/-- A row more. -/
theorem countP_concat_row (p : FetchedRow → Bool) (rows : List FetchedRow) (row : FetchedRow) :
    (rows ++ [row]).countP p = rows.countP p + if p row then 1 else 0 := by
  rw [List.countP_append, List.countP_singleton]

theorem LoopWell.skip {loop : FetchLoop} {history : FetchHistory}
    (h : LoopWell t outside call deadline urls loop history) {row : FetchedRow} {url : Text}
    (hurl : row.url = url) (hfacts : row.facts = { outcome := .skippedCap }) :
    LoopWell t outside call deadline urls { loop with rows := loop.rows ++ [row], seen := loop.seen ++ [url] }
      history := by
  have htried : row.tried = false := by
    have houtcome : row.outcome = .skippedCap := congrArg PageFacts.outcome hfacts
    rw [FetchedRow.tried, houtcome]
    rfl
  refine { h with rows := fun other hother => ?_, seen := ?_, tried := ?_, perHost := fun host => ?_ }
  · rcases List.mem_append.mp hother with hold | hnew
    · exact h.rows other hold
    · obtain rfl := List.mem_singleton.mp hnew
      rw [hfacts]
      exact rowWell_silent (by simp) (by simp)
  · rw [List.map_append, h.seen, List.map_singleton, hurl]
  · rw [countP_concat_row, htried, if_neg Bool.false_ne_true]
    exact h.tried
  · rw [countP_concat_row, htried, Bool.false_and, if_neg Bool.false_ne_true]
    exact h.perHost host

theorem LoopWell.page {loop : FetchLoop} {history before : FetchHistory}
    (h : LoopWell t outside call deadline urls loop before)
    (hrows : ∀ row ∈ loop.rows, RowWell t outside call deadline row.url row.facts history)
    {row : FetchedRow} {url : Text} {learnt : Dict Text RobotsReading} (hurl : row.url = url)
    (hrow : RowWell t outside call deadline url row.facts history)
    (hlearnt : Learnt t call urls loop.robots learnt)
    (hknown : RobotsKnown t outside call deadline learnt history)
    (hcount : Quorum.requests history ≤ loop.attempted + 1 + learnt.size)
    (hpages : loop.attempted < call.maxPages)
    (hhost : (loop.perHost.get? (t.hostKey url)).getD 0 < maxPagesPerHost) :
    LoopWell t outside call deadline urls
      { rows := loop.rows ++ [row], seen := loop.seen ++ [url], attempted := loop.attempted + 1,
        robots := learnt
        perHost := loop.perHost.set (t.hostKey url)
          ((loop.perHost.get? (t.hostKey url)).getD 0 + 1) } history where
  known := hknown
  requests := hcount
  robots := hlearnt.size_le h.robots
  origins := hlearnt.origins
  attempted := hpages
  rows := fun other hother => by
    rcases List.mem_append.mp hother with hold | hnew
    · exact hrows other hold
    · obtain rfl := List.mem_singleton.mp hnew
      rw [hurl]
      exact hrow
  seen := by rw [List.map_append, h.seen, List.map_singleton, hurl]
  tried := by
    have hold := h.tried
    rw [countP_concat_row]
    dsimp only
    split_ifs <;> omega
  perHost := fun host => by
    have hold := h.perHost host
    rw [countP_concat_row, Dict.get?_set, hurl]
    by_cases heq : host = t.hostKey url
    · rw [if_pos heq, ← heq, Option.getD_some]
      split_ifs <;> omega
    · rw [if_neg heq, decide_eq_false (Ne.symm heq), Bool.and_false, if_neg Bool.false_ne_true]
      exact hold
  host := fun host => by
    rw [Dict.get?_set]
    split_ifs
    · exact hhost
    · exact h.host host

theorem keeps_fetchStep {raw : Text} (hraw : raw ∈ urls) (loop : FetchLoop) :
    Keeps (callPolicy t outside call deadline urls) (LoopWell t outside call deadline urls loop)
      (fetchStep t outside call deadline loop raw)
      (fun next history => next.seen = remember t loop.seen raw ∧
        LoopWell t outside call deadline urls next history)
      (fun _ history => requests history ≤ requestBound t call urls) := by
  have hstill : Still (LoopWell t outside call deadline urls loop) := LoopWell.still loop
  rw [fetchStep]
  dsimp only
  refine Keeps.ite (fun hold => Keeps.pure fun _ h => ⟨(if_pos hold).symm, h⟩) fun hnew => ?_
  have hseen : remember t loop.seen raw = loop.seen ++ [t.canonicalAddress raw] := if_neg hnew
  refine Keeps.bind (keeps_ask hstill rfl rfl fun _ _ => trivial) fun started => ?_
  refine Keeps.bind (keeps_capsSpent hstill loop _) fun spent => ?_
  cases spent with
  | true =>
      refine Keeps.bind (keeps_fetchRow ?_ (t.canonicalAddress raw) started _) fun row => Keeps.pure fun _ h => ?_
      · exact fun history event hexchange hread h => ⟨hstill history event hexchange hread h.1, h.2⟩
      · exact ⟨hseen.symm, h.1.1.skip h.2.1 h.2.2⟩
  | false =>
      intro history hhistory
      obtain ⟨hobeys, hwell, hcaps⟩ := hhistory
      obtain ⟨hpages, hhost⟩ := hcaps rfl
      have hrows : Persists fun history => ∀ row ∈ loop.rows,
          RowWell t outside call deadline row.url row.facts history :=
        fun history event h row hrow => RowWell.persists _ _ history event (h row hrow)
      have hraise : ∀ (raised : FetchRaise) after,
          (Obeys (callPolicy t outside call deadline urls) after ∧
          RaisedInPage t call urls loop.robots loop.attempted after) →
          Obeys (callPolicy t outside call deadline urls) after ∧
          requests after ≤ requestBound t call urls := by
        rintro raised after ⟨hafter, learnt, hlearnt, hcount⟩
        refine ⟨hafter, hcount.trans (le_requestBound hpages ?_ hlearnt.origins)⟩
        exact hlearnt.size_le hwell.robots
      have hpage :=
        Triple.consequence (keeps_fetchPage hwell.origins hraw loop.attempted hrows) (fun _ h => h)
        (fun _ _ h => h) hraise
      refine Keeps.bind hpage (fun fetched => Keeps.pure fun after h => ?_) history
        ⟨hobeys, ⟨hwell.known, hwell.rows⟩, hwell.requests⟩
      obtain ⟨hurl, hrow, hlearnt, ⟨hknown, hold⟩, hcount⟩ := h
      exact ⟨hseen.symm, hwell.page hold hurl hrow hlearnt hknown hcount hpages hhost⟩

theorem keeps_fetchLoop (remaining : List Text) (hremaining : ∀ raw ∈ remaining, raw ∈ urls) :
    ∀ loop : FetchLoop,
    Keeps (callPolicy t outside call deadline urls) (LoopWell t outside call deadline urls loop)
      (fetchLoop t outside call deadline loop remaining)
      (fun last history => last.seen = remaining.foldl (remember t) loop.seen ∧
        LoopWell t outside call deadline urls last history)
      (fun _ history => requests history ≤ requestBound t call urls) := by
  induction remaining with
  | nil => exact fun loop => Keeps.pure fun _ h => ⟨rfl, h⟩
  | cons raw remaining ih =>
      intro loop
      rw [fetchLoop]
      refine Keeps.bind (keeps_fetchStep (hremaining raw List.mem_cons_self) loop) fun next => ?_
      refine Keeps.of_fact fun hseen => ?_
      rw [List.foldl_cons, ← hseen]
      exact ih (fun other hother => hremaining other (List.mem_cons_of_mem _ hother)) next

/-! ### The whole run -/

theorem foldl_remember (urls : List Text) :
    urls.foldl (remember t) [] = ((urls.map t.canonicalAddress).filter (· ≠ [])).eraseDups := by
  induction urls using List.reverseRecOn with
  | nil => rfl
  | append_singleton urls raw ih =>
      have hmem : t.canonicalAddress
          raw ∈ ((urls.map t.canonicalAddress).filter (· ≠ [])).eraseDups ↔
          t.canonicalAddress raw ∈ (urls.map t.canonicalAddress).filter (· ≠ []) :=
        List.mem_eraseDups
      rw [List.foldl_append, List.foldl_cons, List.foldl_nil, ih, List.map_append,
        List.filter_append, List.eraseDups_append, List.map_singleton, remember]
      by_cases hempty : t.canonicalAddress raw = []
      · rw [if_pos (.inl hempty)]
        simp [hempty]
      · by_cases hseen : t.canonicalAddress raw ∈ (urls.map t.canonicalAddress).filter (· ≠ [])
        · rw [if_pos (.inr (hmem.mpr hseen))]
          simp [hempty, List.cons_removeAll, List.mem_map.mp (List.mem_of_mem_filter hseen)]
        · rw [if_neg (not_or.mpr ⟨hempty, fun h => hseen (hmem.mp h)⟩)]
          have hnot : ¬∃ other ∈ urls, t.canonicalAddress other = t.canonicalAddress raw := fun h =>
            hseen (List.mem_filter.mpr ⟨List.mem_map.mpr h, by simpa using hempty⟩)
          simp [hempty, List.cons_removeAll, hnot, List.eraseDups_cons]

/-- The deadline of a call: the budget from its first look at the clock. -/
def callDeadline (outside : Outside FetchAnswer) (call : FetchCall) : ℚ :=
  let now : ℚ := outside [] .clock
  now + call.budgetSeconds

variable (t outside call urls) in
theorem keeps_fetchCitedPages :
    Keeps (callPolicy t outside call (callDeadline outside call) urls) (fun history => history = [])
      (fetchCitedPages t outside call urls)
      (fun rows history => requests history ≤ requestBound t call urls ∧ ∃ loop : FetchLoop,
        rows = loop.rows ∧
        loop.seen = urls.foldl (remember t) [] ∧
        LoopWell t outside call (callDeadline outside call) urls loop history)
      (fun _ history => requests history ≤ requestBound t call urls) := by
  rw [fetchCitedPages]
  refine Keeps.bind (R := fun now history => now = outside [] .clock ∧
    history = [⟨.clock, outside [] .clock⟩]) ?_
    fun now => Keeps.of_fact fun hnow => ?_
  · rintro history ⟨hobeys, rfl⟩
    exact ⟨hobeys.concat trivial, rfl, rfl⟩
  · subst hnow
    refine Keeps.bind (Keeps.strengthen (keeps_fetchLoop urls (fun _ h => h) _) ?_) fun loop =>
      Keeps.pure ?_
    · rintro history rfl
      exact
        { known := fun _ _ h => by cases h
          requests := Nat.zero_le _
          robots := Nat.zero_le _
          origins := fun _ h => absurd h List.not_mem_nil
          attempted := Nat.zero_le _
          rows := fun _ h => absurd h List.not_mem_nil
          seen := rfl
          tried := Nat.zero_le _
          perHost := fun _ => Nat.zero_le _
          host := fun _ => Nat.zero_le _ }
    · rintro history ⟨hseen, hwell⟩
      exact ⟨hwell.requests.trans (le_requestBound hwell.attempted hwell.robots hwell.origins),
        loop, rfl, hseen, hwell⟩

end

section

variable (t : FetchTables) (outside : Outside FetchAnswer) (call : FetchCall) (urls : List Text)

/-- Whatever the clock, the resolver, the servers and the PDF reader answer, and however the call
ends: a host is resolved and an address dialled only while the budget lasts; what is dialled is the
first of the addresses that were just resolved for its host, all of them allowed; it is a cited page
that robots.txt allows, where robots.txt is respected, or the robots.txt of one; of its answer no
more bytes are asked for than one past the cap of the type that the head names (that of a PDF only
for a page, where long pages are read); and there is one request at most for each page, and one for
each origin. -/
theorem fetch_cited_pages_egress :
    Obeys (callPolicy t outside call (callDeadline outside call) urls)
        (Transaction.after (fetchCitedPages t outside call urls) []) ∧
      requests (Transaction.after (fetchCitedPages t outside call urls) []) ≤
        requestBound t call urls := by
  have hrun := keeps_fetchCitedPages t outside call urls [] ⟨obeys_nil _, rfl⟩
  rw [Transaction.after]
  cases hx : fetchCitedPages t outside call urls [] with
  | ok rows history =>
      rw [hx] at hrun
      exact ⟨hrun.1, hrun.2.1⟩
  | error raised history => rwa [hx] at hrun

/-- The rows of a call that answers: one for each address, once, in the order in which they are
first cited; no more of them tried than the caps allow, of all and of each host; and each of them a
row of what was read under the cap of the type that its answer's head names, with text only of a
page that was fetched, and a response only from an address that robots.txt was read to allow. -/
theorem fetch_cited_pages_rows :
    match fetchCitedPages t outside call urls [] with
    | .error _ _ => True
    | .ok rows history =>
        rows.map (fun row => row.url) = ((urls.map t.canonicalAddress).filter (· ≠ [])).eraseDups ∧
          rows.countP FetchedRow.tried ≤ call.maxPages ∧
          (∀ host, rows.countP (fun row => row.tried && decide (t.hostKey row.url = host)) ≤
            maxPagesPerHost) ∧
          ∀ row ∈ rows,
            RowWell t outside call (callDeadline outside call) row.url row.facts history := by
  have hrun := keeps_fetchCitedPages t outside call urls [] ⟨obeys_nil _, rfl⟩
  cases hx : fetchCitedPages t outside call urls [] with
  | error raised history => exact trivial
  | ok rows history =>
      rw [hx] at hrun
      obtain ⟨-, -, loop, rfl, hseen, hwell⟩ := hrun
      exact ⟨by rw [hwell.seen, hseen, foldl_remember], hwell.tried.trans hwell.attempted,
        fun host => (hwell.perHost host).trans (hwell.host host), hwell.rows⟩

end

end Quorum
