import Quorum.FetchPage

/-! What one fetch may ask for. A host is resolved, and an address dialled, only while the budget
lasts; what is dialled is the first address of an answer in which every address is allowed; and of
an answer no more bytes are read than the cap of the type that its head names. A gate says which
requests the caller lets through, and under which limits. -/

namespace Quorum

open Inquiry Transaction

/-! ### Policies of a fetch -/

def FetchQuestion.isRequest : FetchQuestion → Bool
  | .request _ => true
  | _ => false

/-- A request, or the wait for its response. -/
def FetchQuestion.isExchange : FetchQuestion → Bool
  | .request _ | .response => true
  | _ => false

theorem FetchQuestion.not_isRequest {question : FetchQuestion} (h : question.isExchange = false) :
    question.isRequest = false := by
  cases question with
  | request dial => cases h
  | _ => rfl

def FetchQuestion.isRead : FetchQuestion → Bool
  | .read _ => true
  | _ => false

/-- The bytes that an event brought. -/
def bytesOf : Event FetchAnswer → ℕ
  | ⟨.read size, .ok sent⟩ => (sent.take size).length
  | _ => 0

/-- The bytes since the last request. -/
def received (history : FetchHistory) : ℕ :=
  history.foldl (fun bytes event => if event.question.isRequest then 0 else bytes + bytesOf event) 0

theorem received_concat (history : FetchHistory) (event : Event FetchAnswer) :
    received (history ++ [event]) = if event.question.isRequest then 0 else received history
      + bytesOf event := by
  rw [received, List.foldl_append]
  rfl

theorem received_read (history : FetchHistory) (size : ℕ)
    (answer : Except NetworkRaise (List UInt8)) :
    received (history ++ [⟨.read size, answer⟩]) =
      received history + match answer with
        | .ok sent => (sent.take size).length
        | .error _ => 0 := by
  rw [received_concat]
  cases answer <;> rfl

/-! ### The cap of an answer -/

/-- The type that a head names. -/
def FetchTables.contentType (t : FetchTables) (head : ResponseHead) : Text :=
  t.lower (t.strip (((head.getheader "Content-Type").getD []).takeWhile (· ≠ ';')))

/-- An answer is read as a PDF only where long pages are read, and never raw. -/
def FetchTables.readsPdf (t : FetchTables) (limits : FetchLimits) (head : ResponseHead) : Prop :=
  limits.longPages = true ∧ limits.raw = false ∧
    t.contentType head ∈ pdfContentType :: pdfDownloadContentTypes

instance (t : FetchTables) (limits : FetchLimits) (head : ResponseHead) :
    Decidable (t.readsPdf limits head) :=
  inferInstanceAs (Decidable (_ ∧ _ ∧ _))

/-- The cap of the type that a head names; none where nothing is read. -/
def FetchTables.responseCap (t : FetchTables) (limits : FetchLimits)
    (head : ResponseHead) : Option ℕ :=
  if 300 ≤ head.status then none
  else if t.contentType head ∈ readableContentTypes then some limits.maxBytes
  else if t.readsPdf limits head then some limits.maxPdfBytes
  else none

theorem not_readable_of_pdf {contentType : Text}
    (h : contentType ∈ pdfContentType :: pdfDownloadContentTypes) :
    contentType ∉ readableContentTypes := by
  have hdisjoint : ∀ name ∈ pdfContentType :: pdfDownloadContentTypes,
      name ∉ readableContentTypes := by decide
  exact hdisjoint contentType h

theorem FetchTables.responseCap_pdf {t : FetchTables} {limits : FetchLimits} {head : ResponseHead}
    (hstatus : head.status < 300) (hpdf : t.readsPdf limits head) :
    t.responseCap limits head = some limits.maxPdfBytes := by
  rw [responseCap, if_neg (not_le.mpr hstatus), if_neg (not_readable_of_pdf hpdf.2.2), if_pos hpdf]

theorem FetchTables.responseCap_readable {t : FetchTables} {limits : FetchLimits}
    {head : ResponseHead} (hstatus : head.status < 300)
    (hreadable : t.contentType head ∈ readableContentTypes) :
    t.responseCap limits head = some limits.maxBytes := by
  rw [responseCap, if_neg (not_le.mpr hstatus), if_pos hreadable]

/-! ### Where a run has come to -/

/-- It held, and since then nothing was requested or answered. -/
def Lately (P : FetchHistory → Prop) (history : FetchHistory) : Prop :=
  ∃ before later, P before ∧ history = before ++ later ∧
    ∀ event ∈ later, event.question.isExchange = false

/-- The last request, and the history before it. -/
def Requested (earlier : FetchHistory) (dial : Dial) : FetchHistory → Prop :=
  Lately fun history => ∃ sent, history = earlier ++ [⟨.request dial, sent⟩]

/-- The last request has been answered with this head. -/
def Responded (earlier : FetchHistory) (dial : Dial) (head : ResponseHead) : FetchHistory → Prop :=
  Lately fun history => ∃ before, Requested earlier dial before ∧
    history = before ++ [⟨.response, .ok head⟩]

/-- Which requests a caller lets through, after which history, and under which limits their answers
are read. -/
abbrev DialGate := FetchHistory → Dial → FetchLimits → Prop

/-- What stands before a request: an answer of the resolver for its host, and the time, before the
deadline. -/
def DialReady (t : FetchTables) (limits : FetchLimits) (before : FetchHistory)
    (dial : Dial) : Prop :=
  ∃ earlier found patience now, before =
      earlier ++ [⟨.resolve dial.host dial.port patience, .addresses found⟩, ⟨.clock, now⟩] ∧
    found.head? = some dial.pinned ∧ (∀ address ∈ found, t.addressIsAllowed address = true) ∧
    now < limits.deadline ∧ dial.timeout = min limits.perRecvSeconds (limits.deadline - now)

/-- A host is resolved for as long as the budget lasts. -/
def ResolveReady (limits : FetchLimits) (before : FetchHistory) (patience : ℚ) : Prop :=
  ∃ earlier now, before = earlier ++ [⟨.clock, now⟩] ∧ now < limits.deadline ∧
    patience = limits.deadline - now

/-- A read stands in the answer to a request that was let through, and asks for no more than one
byte past the cap of the type that its head names. -/
def ReadReady (t : FetchTables) (gate : DialGate) (before : FetchHistory) (size : ℕ) : Prop :=
  size ≤ readChunkBytes ∧ ∃ earlier dial limits head cap, gate earlier dial limits ∧
    Responded earlier dial head before ∧
    t.responseCap limits head = some cap ∧ received before + size ≤ cap + 1

/-- The text of a PDF is asked of an answer that names its type, and of no more than the PDF cap. -/
def PdfReady (t : FetchTables) (gate : DialGate) (before : FetchHistory)
    (body : List UInt8) : Prop :=
  ∃ earlier dial limits head, gate earlier dial limits ∧ Responded earlier dial head before ∧
    t.readsPdf limits head ∧
    body.length ≤ limits.maxPdfBytes

/-- What a fetch may ask. -/
def egress (t : FetchTables) (limits : FetchLimits) (gate : DialGate) : Policy FetchAnswer :=
  fun before question =>
    match question with
    | .resolve _ _ patience => ResolveReady limits before patience
    | .request dial => DialReady t limits before dial ∧ ∃ limits', gate before dial limits'
    | .read size => ReadReady t gate before size
    | .pdfText body _ => PdfReady t gate before body
    | _ => True

/-- No event matters to it but a request. -/
def Quiet (P : FetchHistory → Prop) : Prop :=
  ∀ history event, event.question.isRequest = false → P history → P (history ++ [event])

/-- No event matters to it but a request and its response. -/
def Settled (P : FetchHistory → Prop) : Prop :=
  ∀ history event, event.question.isExchange = false → P history → P (history ++ [event])

/-- No event matters to it but a request, its response and a read. -/
def Still (P : FetchHistory → Prop) : Prop :=
  ∀ history event, event.question.isExchange = false → event.question.isRead = false → P history →
    P (history ++ [event])

theorem Quiet.settled {P : FetchHistory → Prop} (h : Quiet P) : Settled P :=
  fun history event hexchange => h history event (FetchQuestion.not_isRequest hexchange)

theorem Settled.still {P : FetchHistory → Prop} (h : Settled P) : Still P :=
  fun history event hexchange _ => h history event hexchange

theorem Settled.and {P R : FetchHistory → Prop} (hP : Settled P) (hR : Settled R) :
    Settled fun history => P history ∧ R history :=
  fun history event hexchange h => ⟨hP history event hexchange h.1, hR history event hexchange h.2⟩

theorem Lately.settled (P : FetchHistory → Prop) : Settled (Lately P) := by
  rintro history event hexchange ⟨before, later, hP, rfl, hlater⟩
  refine ⟨before, later ++ [event], hP, List.append_assoc _ _ _, fun other hother => ?_⟩
  rcases List.mem_append.mp hother with hold | hnew
  · exact hlater other hold
  · rw [List.mem_singleton.mp hnew]
    exact hexchange

theorem Lately.refl {P : FetchHistory → Prop} {history : FetchHistory} (h : P history) :
    Lately P history :=
  ⟨history, [], h, (List.append_nil history).symm, fun _ hevent => absurd hevent List.not_mem_nil⟩

theorem bytesOf_of_not_read {event : Event FetchAnswer} (h : event.question.isRead = false) :
    bytesOf event = 0 := by
  obtain ⟨question, answer⟩ := event
  cases question with
  | read size => cases h
  | _ => rfl

/-- How many bytes have come is still, beside what is settled. -/
theorem Settled.still_received {P : FetchHistory → Prop} (h : Settled P) (bytes : ℕ) :
    Still fun history => P history ∧ received history = bytes := by
  intro history event hexchange hread hP
  refine ⟨h history event hexchange hP.1, ?_⟩
  rw [received_concat, FetchQuestion.not_isRequest hexchange, if_neg Bool.false_ne_true,
    bytesOf_of_not_read hread, add_zero]
  exact hP.2

/-! ### What a fetch found -/

/-- A permitted request was answered with this head, and the type that it names has this cap. -/
structure Served (t : FetchTables) (limits : FetchLimits) (permitted : Dial → Prop)
    (head : ResponseHead) (cap : ℕ) (history : FetchHistory) : Prop where
  capped : t.responseCap limits head = some cap
  responded : ∃ earlier dial before later, permitted dial ∧ Responded earlier dial head before ∧
    history = before ++ later

theorem Served.status {t : FetchTables} {limits : FetchLimits} {permitted : Dial → Prop}
    {head : ResponseHead} {cap : ℕ} {history : FetchHistory}
    (h : Served t limits permitted head cap history) : head.status < 300 := by
  have hcapped := h.capped
  rw [FetchTables.responseCap] at hcapped
  split_ifs at hcapped with hlate
  · exact not_le.mp hlate
  · exact not_le.mp hlate

theorem Served.concat {t : FetchTables} {limits : FetchLimits} {permitted : Dial → Prop}
    {head : ResponseHead} {cap : ℕ} {history : FetchHistory}
    (h : Served t limits permitted head cap history) (event : Event FetchAnswer) :
    Served t limits permitted head cap (history ++ [event]) := by
  obtain ⟨hcapped, earlier, dial, before, later, hdial, hresponded, rfl⟩ := h
  exact ⟨hcapped, earlier, dial, before, later ++ [event], hdial, hresponded,
    List.append_assoc _ _ _⟩

/-- What was read came with a head, and is no more than one byte past the cap of the type that it
names. -/
def BytesWell (t : FetchTables) (limits : FetchLimits) (permitted : Dial → Prop)
    (progress : FetchProgress) (history : FetchHistory) : Prop :=
  progress.bytesRead ≠ 0 → ∃ head cap, Served t limits permitted head cap history ∧
    progress.finalStatus = some head.status ∧ progress.bytesRead ≤ cap + 1

/-- What is known of what a fetch found. -/
structure FactsWell (t : FetchTables) (limits : FetchLimits) (permitted : Dial → Prop)
    (facts : PageFacts) (history : FetchHistory) : Prop where
  bytes : BytesWell t limits permitted facts.progress history
  text : facts.text ≠ [] → facts.outcome = .fetched
  fetched : facts.outcome = .fetched → ∃ head cap, Served t limits permitted head cap history ∧
    facts.progress.finalStatus = some head.status ∧ facts.progress.bytesRead ≤ cap
  dialled : facts.outcome ∉ [.refusedRobots, .robotsUnchecked]

section

variable {t : FetchTables} {limits : FetchLimits} {permitted : Dial → Prop}
  {progress : FetchProgress} {facts : PageFacts} {history : FetchHistory}

theorem bytesWell_zero (h : progress.bytesRead = 0) :
    BytesWell t limits permitted progress history :=
  fun hne => absurd h hne

theorem BytesWell.concat (h : BytesWell t limits permitted progress history)
    (event : Event FetchAnswer) :
    BytesWell t limits permitted progress (history ++ [event]) := by
  intro hne
  obtain ⟨head, cap, hserved, hrest⟩ := h hne
  exact ⟨head, cap, hserved.concat event, hrest⟩

theorem FactsWell.concat (h : FactsWell t limits permitted facts history)
    (event : Event FetchAnswer) :
    FactsWell t limits permitted facts (history ++ [event]) := by
  refine ⟨h.bytes.concat event, h.text, fun hfetched => ?_, h.dialled⟩
  obtain ⟨head, cap, hserved, hrest⟩ := h.fetched hfetched
  exact ⟨head, cap, hserved.concat event, hrest⟩

theorem factsWell_of_outcome (hbytes : BytesWell t limits permitted facts.progress history)
    (htext : facts.text = [])
    (houtcome : facts.outcome ∉ [.fetched, .refusedRobots, .robotsUnchecked]) :
    FactsWell t limits permitted facts history :=
  ⟨hbytes, fun h => absurd htext h, fun h => absurd (h ▸ List.mem_cons_self) houtcome,
    fun h => houtcome (List.mem_cons_of_mem _ h)⟩

end

/-- The run has come to the answer of a permitted request that was let through. -/
def Answering (gate : DialGate) (limits : FetchLimits) (permitted : Dial → Prop)
    (head : ResponseHead) (history : FetchHistory) : Prop :=
  ∃ earlier dial, permitted dial ∧ gate earlier dial limits ∧ Responded earlier dial head history

theorem Answering.settled (gate : DialGate) (limits : FetchLimits) (permitted : Dial → Prop)
    (head : ResponseHead) :
    Settled (Answering gate limits permitted head) := by
  rintro history event hexchange ⟨earlier, dial, hdial, hgate, hresponded⟩
  exact ⟨earlier, dial, hdial, hgate, Lately.settled _ history event hexchange hresponded⟩

theorem Answering.served {t : FetchTables} {gate : DialGate} {limits : FetchLimits}
    {permitted : Dial → Prop} {head : ResponseHead} {cap : ℕ} {history : FetchHistory}
    (h : Answering gate limits permitted head history)
    (hcap : t.responseCap limits head = some cap) : Served t limits permitted head cap history := by
  obtain ⟨earlier, dial, hdial, -, hresponded⟩ := h
  exact ⟨hcap, earlier, dial, history, [], hdial, hresponded, (List.append_nil history).symm⟩

section

variable {t : FetchTables} {outside : Outside FetchAnswer} {limits : FetchLimits} {gate : DialGate}
  {permitted : Dial → Prop} {P : FetchHistory → Prop} {ε : Type} {E : ε → FetchHistory → Prop}

/-- A question that the policy does not restrict. -/
theorem keeps_ask (hP : Still P) {question : FetchQuestion}
    (hexchange : question.isExchange = false) (hread : question.isRead = false)
    (hpolicy : ∀ history, P history → egress t limits gate history question) :
    Keeps (egress t limits gate) P (ask outside question) (fun _ => P) E :=
  Keeps.ask hpolicy fun history answer h => hP history ⟨question, answer⟩ hexchange hread h

/-- A fetch that is over and has read no page. -/
theorem keeps_unread {R : FetchHistory → Prop} {facts : PageFacts}
    (hbytes : ∀ history, R history → BytesWell t limits permitted facts.progress history)
    (htext : facts.text = [])
    (houtcome : facts.outcome ∉ [.fetched, .refusedRobots, .robotsUnchecked])
    (hR : ∀ history, R history → P history) :
    Keeps (egress t limits gate) R (pure facts)
      (fun facts history => P history ∧ FactsWell t limits permitted facts history) E :=
  Keeps.pure fun history h => ⟨hR history h, factsWell_of_outcome (hbytes history h) htext houtcome⟩

theorem keeps_deadlinePassed (hP : Still P) :
    Keeps (egress t limits gate) P (deadlinePassed outside limits) (fun _ => P) E := by
  rw [deadlinePassed]
  refine Keeps.bind (keeps_ask hP rfl rfl fun _ _ => trivial) fun fired => ?_
  refine Keeps.ite (fun _ => Keeps.pure fun _ h => h) fun _ => ?_
  exact Keeps.bind (keeps_ask hP rfl rfl fun _ _ => trivial) fun now => Keeps.pure fun _ h => h

/-- What a raise of the connection says. -/
def MidwayWell (t : FetchTables) (limits : FetchLimits) (permitted : Dial → Prop)
    (P : FetchHistory → Prop) (raised : RaisedMidway) (history : FetchHistory) : Prop :=
  P history ∧ BytesWell t limits permitted raised.progress history

theorem keeps_unlessRaised {α : Type} {progress : FetchProgress} {answer : Except NetworkRaise α}
    {R : FetchHistory → Prop}
    (hprogress : ∀ history, P history → BytesWell t limits permitted progress history)
    (hR : ∀ history, P history → R history) :
    Keeps (egress t limits gate) P (unlessRaised progress answer)
      (fun found history => answer = .ok found ∧ P history) (MidwayWell t limits permitted R) := by
  cases answer with
  | ok answer => exact Keeps.pure fun history h => ⟨rfl, h⟩
  | error kind => exact Keeps.throw fun history h => ⟨hR history h, hprogress history h⟩

variable (t limits permitted) in
/-- How a read body ends. -/
def BodyWell (cap : ℕ) (read : BodyRead) (history : FetchHistory) : Prop :=
  match read with
  | .ended facts => FactsWell t limits permitted facts history
  | .body chunks truncated _ => chunks.length ≤ cap + 1 ∧ (truncated = false → chunks.length ≤ cap)

section

variable {head : ResponseHead} {cap : ℕ} (hcap : t.responseCap limits head = some cap)
  (hanswering : ∀ history, P history → Answering gate limits permitted head history)

include hcap hanswering

theorem bytesWell_upto {progress : FetchProgress}
    (hstatus : progress.finalStatus = some head.status) {bytes : ℕ} (hbytes : bytes ≤ cap + 1)
    (history : FetchHistory) (h : P history) :
    BytesWell t limits permitted { progress with bytesRead := bytes } history :=
  fun _ => ⟨head, cap, (hanswering history h).served hcap, hstatus, hbytes⟩

theorem keeps_readPageBody (hP : Settled P) (progress : FetchProgress)
    (hstatus : progress.finalStatus = some head.status) (unchecked : Bool) (body : List UInt8)
    (hbody : body.length ≤ cap) :
    Keeps (egress t limits gate) (fun history => P history ∧ received history = body.length)
      (readPageBody outside limits progress cap unchecked body)
      (fun read history => P history ∧ BodyWell t limits permitted cap read history)
      (MidwayWell t limits permitted P) := by
  have hstill := hP.still_received body.length
  have hbytes := fun {bytes : ℕ} (hle : bytes ≤ cap + 1) =>
    bytesWell_upto hcap hanswering hstatus hle
  have hlength : body.length ≤ cap + 1 := hbody.trans (Nat.le_succ cap)
  rw [readPageBody]
  dsimp only
  refine Keeps.bind (keeps_ask hstill rfl rfl fun _ _ => trivial) fun closed => ?_
  refine Keeps.ite (fun _ => Keeps.pure fun _ h => ⟨h.1, hlength, fun _ => hbody⟩) fun _ => ?_
  refine Keeps.bind (keeps_deadlinePassed hstill) fun passed => ?_
  refine Keeps.ite (fun _ => Keeps.pure fun history h =>
    ⟨h.1, factsWell_of_outcome (hbytes hlength history h.1) rfl (by simp)⟩) fun _ => ?_
  -- the read: what was asked for fits under the cap, and what came is no more than that
  refine Keeps.bind (R := fun answer history => P history ∧
      received history = body.length + match (answer : Except NetworkRaise (List UInt8)) with
        | .ok sent => (sent.take (min readChunkBytes (cap + 1 - body.length))).length
        | .error _ => 0) (Keeps.ask ?_ ?_) fun answer => ?_
  · intro history h
    obtain ⟨earlier, dial, -, hgate, hresponded⟩ := hanswering history h.1
    refine ⟨min_le_left _ _, earlier, dial, limits, head, cap, hgate, hresponded, hcap, ?_⟩
    rw [h.2]
    omega
  · intro history answer h
    refine ⟨hP history _ rfl h.1, ?_⟩
    rw [← h.2]
    exact received_read history _ answer
  · refine Keeps.bind (keeps_unlessRaised (fun history h => hbytes hlength history h.1)
      fun _ h => h.1) fun sent =>
      Keeps.of_fact ?_
    rintro rfl
    dsimp only
    split_ifs with hchunk hmagic hlong
    · exact Keeps.pure fun _ h => ⟨h.1, hlength, fun _ => hbody⟩
    · refine Keeps.pure fun history h => ⟨h.1,
        factsWell_of_outcome (hbytes ?_ history h.1) rfl (by simp)⟩
      rw [List.length_append, List.length_take]
      omega
    · refine Keeps.pure fun _ h => ⟨h.1, ?_, fun h => by cases h⟩
      rw [List.length_append, List.length_take]
      omega
    · refine Keeps.strengthen
        (keeps_readPageBody hP { progress with bytesRead := body.length } hstatus _ _
        (not_lt.mp hlong)) ?_
      intro history h
      rw [List.length_append]
      exact h
termination_by cap + 1 - body.length
decreasing_by
  have hpos : 0 < (sent.take (min readChunkBytes (cap + 1 - body.length))).length :=
    List.length_pos_iff.mpr hchunk
  rw [List.length_append]
  omega

theorem keeps_finishBody (hP : Settled P) {progress : FetchProgress}
    (hstatus : progress.finalStatus = some head.status) {contentType params : Text}
    {encoding : Option Text} {isPdf : Bool}
    (hpdf : isPdf = true → t.readsPdf limits head ∧ cap = limits.maxPdfBytes) {chunks : List UInt8}
    {truncated unchecked : Bool} (hchunks : truncated = false → chunks.length ≤ cap) :
    Keeps (egress t limits gate) P
      (finishBody t outside limits progress contentType params encoding cap isPdf chunks
        truncated unchecked)
      (fun facts history => P history ∧ FactsWell t limits permitted facts history)
      (MidwayWell t limits permitted P) := by
  have hkept : (if truncated then cap else chunks.length) ≤ cap := by
    cases truncated with
    | true => exact le_rfl
    | false => exact hchunks rfl
  have hbytes := bytesWell_upto hcap hanswering hstatus (hkept.trans (Nat.le_succ cap))
  have hread : ∀ truncated' text history, P history → FactsWell t limits permitted
      { outcome := .fetched, truncated := truncated', text
        progress := { progress with bytesRead := if truncated then cap else chunks.length } }
          history :=
    fun _ _ history h => ⟨hbytes history h, fun _ => rfl,
      fun _ => ⟨head, cap, (hanswering history h).served hcap, hstatus, hkept⟩, by simp⟩
  rw [finishBody]
  dsimp only
  refine Keeps.bind (keeps_ask hP.still rfl rfl fun _ _ => trivial) fun fired => ?_
  refine Keeps.ite (fun _ => keeps_unread hbytes rfl (by simp) fun _ h => h) fun _ => ?_
  refine Keeps.ite (fun _ => keeps_unread hbytes rfl (by simp) fun _ h => h) fun _ => ?_
  refine Keeps.ite (fun _ => keeps_unread hbytes rfl (by simp) fun _ h => h) fun _ => ?_
  refine Keeps.ite (fun _ => keeps_unread hbytes rfl (by simp) fun _ h => h) fun _ => ?_
  refine Keeps.ite (fun hisPdf => ?_) fun _ =>
    Keeps.ite (fun _ => Keeps.pure fun _ h => ⟨h, hread _ _ _ h⟩) fun _ => ?_
  · refine Keeps.bind (keeps_ask hP.still rfl rfl fun _ _ => trivial) fun now => ?_
    refine Keeps.bind (keeps_ask hP.still rfl rfl fun history h => ?_) fun reply => ?_
    · obtain ⟨earlier, dial, -, hgate, hresponded⟩ := hanswering history h
      obtain ⟨hreads, rfl⟩ := hpdf hisPdf
      exact ⟨earlier, dial, limits, head, hgate, hresponded, hreads, List.length_take_le _ _⟩
    · cases (reply : Text × PdfOutcome).2 with
      | fetched => exact Keeps.pure fun _ h => ⟨h, hread _ _ _ h⟩
      | unusable => exact keeps_unread hbytes rfl (by simp) fun _ h => h
      | timeout => exact keeps_unread hbytes rfl (by simp) fun _ h => h
  · exact Keeps.ite (fun _ => Keeps.pure fun _ h => ⟨h, hread _ _ _ h⟩)
      fun _ => keeps_unread hbytes rfl (by simp) fun _ h => h

end

/-- The type that decides the cap is that of the answer's head. -/
theorem keeps_readResponse (hP : Settled P) (head : ResponseHead)
    (hanswering : ∀ history, P history → Answering gate limits permitted head history) :
    Keeps (egress t limits gate) (fun history => P history ∧ received history = 0)
      (readResponse t outside limits head)
      (fun facts history => P history ∧ FactsWell t limits permitted facts history)
      (MidwayWell t limits permitted P) := by
  have hzero : ∀ progress : FetchProgress, progress.bytesRead = 0 → ∀ history,
      P history ∧ received history = 0 →
      BytesWell t limits permitted progress history := fun _ hnone _ _ => bytesWell_zero hnone
  rw [readResponse]
  dsimp only
  generalize htype : t.lower
    (t.strip (((head.getheader "Content-Type").getD []).takeWhile (· ≠ ';'))) = contentType
  generalize hisPdf : (limits.longPages && !limits.raw
    && decide (contentType ∈ pdfDownloadContentTypes) ||
    limits.longPages && !limits.raw && decide (contentType = pdfContentType)) = isPdf
  have hpdf : isPdf = true ↔ t.readsPdf limits head := by
    rw [← hisPdf, FetchTables.readsPdf, FetchTables.contentType, htype, List.mem_cons]
    simp only [Bool.or_eq_true, Bool.and_eq_true, Bool.not_eq_true', decide_eq_true_eq]
    tauto
  refine Keeps.ite (fun _ => keeps_unread (hzero _ rfl) rfl (by simp) fun _ h => h.1)
    fun hnot3 => ?_
  refine Keeps.ite (fun _ => keeps_unread (hzero _ rfl) rfl (by simp) fun _ h => h.1)
    fun hnot4 => ?_
  refine Keeps.ite (fun _ => keeps_unread (hzero _ rfl) rfl (by simp) fun _ h => h.1)
    fun hreads => ?_
  have hstatus : head.status < 300 := by omega
  have hcap : t.responseCap limits head =
      some (if isPdf = true then limits.maxPdfBytes else limits.maxBytes) := by
    split_ifs with hpage
    · exact FetchTables.responseCap_pdf hstatus (hpdf.mp hpage)
    · refine FetchTables.responseCap_readable hstatus (not_not.mp fun hnot => hreads ⟨?_,
        Bool.eq_false_iff.mpr hpage⟩)
      rwa [FetchTables.contentType, htype] at hnot
  refine Keeps.bind (keeps_unlessRaised (hzero _ rfl) fun _ h => h.1) fun length =>
    Keeps.of_fact fun _ => ?_
  refine Keeps.ite (fun _ => keeps_unread (hzero _ rfl) rfl (by simp) fun _ h => h.1) fun _ => ?_
  refine Keeps.bind (keeps_readPageBody hcap hanswering hP _ rfl _ [] (Nat.zero_le _))
    fun read => ?_
  cases read with
  | ended facts => exact Keeps.pure fun _ h => h
  | body chunks truncated unchecked =>
      refine Keeps.strengthen (Keeps.of_fact fun hbody : _ ∧ _ => ?_) fun history h => ⟨h.2, h.1⟩
      refine keeps_finishBody hcap hanswering hP rfl (fun hpage =>
        ⟨hpdf.mp hpage, if_pos hpage⟩) hbody.2

/-! ### A fetch -/

variable {P' : FetchHistory → Prop}

/-- A request takes what held before it to what holds after it. -/
structure Sends (gate : DialGate) (limits : FetchLimits) (permitted : Dial → Prop)
    (P P' : FetchHistory → Prop) : Prop where
  quiet : Quiet P
  quiet' : Quiet P'
  weaken : ∀ history, P history → P' history
  gate : ∀ history dial, permitted dial → P history → gate history dial limits
  sent : ∀ history dial answer, P history → P' (history ++ [⟨.request dial, answer⟩])

theorem keeps_exchange (hsends : Sends gate limits permitted P P') {dial : Dial}
    (hdial : permitted dial) :
    Keeps (egress t limits gate) (fun history => P history ∧ DialReady t limits history dial)
      (exchange t outside limits dial) (fun facts history => P' history ∧
        FactsWell t limits permitted facts history)
      (MidwayWell t limits permitted P') := by
  -- the request was let through and nothing has come of it
  let R : FetchHistory → Prop := fun history =>
    P' history ∧ ∃ earlier, gate earlier dial limits ∧ Requested earlier dial history
  have hR : Settled R := by
    rintro history event hexchange ⟨h, earlier, hgate, hrequested⟩
    exact ⟨hsends.quiet'.settled history event hexchange h, earlier, hgate,
      Lately.settled _ history event hexchange hrequested⟩
  have hzero : ∀ {S : FetchHistory → Prop} history,
      S history → BytesWell t limits permitted {} history :=
    fun _ _ => bytesWell_zero rfl
  have hstill := hR.still_received 0
  rw [exchange]
  refine Keeps.bind (R := fun _ history => R history ∧ received history = 0) (Keeps.ask ?_ ?_)
    fun sent => ?_
  · exact fun history h => ⟨h.2, limits, hsends.gate history dial hdial h.1⟩
  · exact fun history answer h =>
      ⟨⟨hsends.sent history dial answer h.1, history, hsends.gate history dial hdial h.1,
      Lately.refl ⟨answer, rfl⟩⟩, received_concat history _⟩
  refine Keeps.bind (keeps_unlessRaised hzero fun _ h => h.1.1) fun _ => Keeps.of_fact fun _ => ?_
  refine Keeps.bind (keeps_ask hstill rfl rfl fun _ _ => trivial) fun fired => ?_
  refine Keeps.ite (fun _ => keeps_unread hzero rfl (by simp) fun _ h => h.1.1) fun _ => ?_
  -- the response: its head is the one that the rest is read under
  refine Keeps.bind (R := fun answer history => (P' history ∧ ∀ head, answer = .ok head →
      Answering gate limits permitted head history) ∧ received history = 0) (Keeps.ask ?_ ?_)
        fun response => ?_
  · exact fun _ _ => trivial
  · rintro history answer ⟨⟨h, earlier, hgate, hrequested⟩, hreceived⟩
    refine ⟨⟨hsends.quiet' history _ rfl h, ?_⟩, (received_concat history _).trans ?_⟩
    · rintro head rfl
      exact ⟨earlier, dial, hdial, hgate, Lately.refl ⟨history, hrequested, rfl⟩⟩
    · exact hreceived
  refine Keeps.bind (keeps_unlessRaised hzero fun _ h => h.1.1) fun head => Keeps.of_fact ?_
  rintro rfl
  have hanswering : Settled fun history => P' history ∧
      Answering gate limits permitted head history :=
    hsends.quiet'.settled.and (Answering.settled gate limits permitted head)
  refine Keeps.strengthen (P := fun history =>
    (P' history ∧ Answering gate limits permitted head history) ∧
    received history = 0) ?_ fun history h => ⟨⟨h.1.1, h.1.2 head rfl⟩, h.2⟩
  refine Keeps.bind (keeps_ask (hanswering.still_received 0) rfl rfl fun _ _ => trivial)
    fun fired => ?_
  refine Keeps.ite (fun _ => keeps_unread hzero rfl (by simp) fun _ h => h.1.1) fun _ => ?_
  refine Triple.consequence (keeps_readResponse hanswering head fun _ h => h.2) (fun _ h => h) ?_ ?_
  · exact fun facts history h => ⟨h.1, h.2.1.1, h.2.2⟩
  · exact fun raised history h => ⟨h.1, h.2.1.1, h.2.2⟩

theorem keeps_caughtExchange (hsends : Sends gate limits permitted P P') {dial : Dial}
    (hdial : permitted dial) :
    Keeps (egress t limits gate) (fun history => P history ∧ DialReady t limits history dial)
      (caughtExchange t outside limits dial)
      (fun facts history => P' history ∧ FactsWell t limits permitted facts history)
      (fun _ history => P' history) := by
  intro history hhistory
  have hexchange : Keeps (egress t limits gate) _ (exchange t outside limits dial) _ _ :=
    keeps_exchange hsends hdial
  have hrun := hexchange history hhistory
  rw [caughtExchange]
  cases hx : exchange t outside limits dial history with
  | ok facts after => rwa [hx] at hrun
  | error raised after =>
      rw [hx] at hrun
      obtain ⟨hobeys, hafter, hbytes⟩ := hrun
      dsimp only
      cases raised.kind with
      | timeout => exact ⟨hobeys, hafter, factsWell_of_outcome hbytes rfl (by simp)⟩
      | uncaught => exact ⟨hobeys, hafter⟩
      | network =>
          have hstill : Still fun history => P' history ∧
              BytesWell t limits permitted raised.progress history :=
            fun before event hexchange _ h =>
              ⟨hsends.quiet'.settled before event hexchange h.1, BytesWell.concat h.2 event⟩
          refine Keeps.bind (keeps_deadlinePassed (E := fun _ => P') hstill)
            (fun passed => ?_) after
            ⟨hobeys, hafter, hbytes⟩
          refine Keeps.pure fun _ h => ⟨h.1, factsWell_of_outcome h.2 rfl ?_⟩
          cases passed <;> simp

theorem keeps_fetchTarget (hsends : Sends gate limits permitted P P') {target : PageTarget}
    (htarget : ∀ dial : Dial,
      dial.secure = target.secure → dial.host = target.host → dial.port = target.port →
      dial.path = target.path → permitted dial) :
    Keeps (egress t limits gate) P (fetchTarget t outside limits target)
      (fun facts history => P' history ∧ FactsWell t limits permitted facts history)
      (fun _ history => P' history) := by
  have hover : ∀ {outcome : FetchOutcome} {R : FetchHistory → Prop},
      outcome ∉ [FetchOutcome.fetched, .refusedRobots, .robotsUnchecked] →
      (∀ history, R history → P history) → Keeps (egress t limits gate) R
        (pure { outcome } : FetchScript FetchRaise PageFacts)
        (fun facts history => P' history ∧ FactsWell t limits permitted facts history)
        (fun _ history => P' history) :=
    fun houtcome hR => keeps_unread (fun _ _ => bytesWell_zero rfl) rfl houtcome
      fun history h => hsends.weaken history (hR history h)
  rw [fetchTarget]
  -- the time, just before the host is resolved
  refine Keeps.bind (R := fun now history => P history ∧ ∃ earlier,
    history = earlier ++ [⟨.clock, now⟩])
    (Keeps.ask (fun _ _ => trivial) fun history now h =>
      ⟨hsends.quiet history _ rfl h, history, rfl⟩) fun now => ?_
  refine Keeps.ite (fun _ => hover (by simp) fun _ h => h.1) fun hleft => ?_
  refine Keeps.bind (R := fun resolution history => P history ∧ ∃ earlier, history =
      earlier ++ [⟨.resolve target.host target.port (limits.deadline - now), resolution⟩])
        (Keeps.ask ?_ ?_)
    fun resolution => ?_
  · rintro history ⟨-, earlier, rfl⟩
    exact ⟨earlier, now, rfl, by linarith [not_le.mp hleft], rfl⟩
  · exact fun history resolution h => ⟨hsends.quiet history _ rfl h.1, history, rfl⟩
  · cases resolution with
    | timedOut => exact hover (by simp) fun _ h => h.1
    | failed => exact hover (by simp) fun _ h => h.1
    | uncaught => exact Keeps.throw fun history h => hsends.weaken history h.1
    | addresses found =>
        dsimp only
        cases hpinned : classifyHost t found with
        | none => exact hover (by simp) fun _ h => h.1
        | some pinned =>
            obtain ⟨hallowed, hhead⟩ : (∀ address ∈ found, t.addressIsAllowed address = true) ∧
                found.head? = some pinned := by
              rw [classifyHost] at hpinned
              split_ifs at hpinned with hall
              exact ⟨List.all_eq_true.mp hall, hpinned⟩
            -- the time, just before the address is dialled
            refine Keeps.bind (R := fun now history => P history ∧ ∃ earlier patience, history =
                earlier ++ [⟨.resolve target.host target.port patience,
                  .addresses found⟩, ⟨.clock, now⟩])
              (Keeps.ask (fun _ _ => trivial) ?_) fun now => ?_
            · rintro history now ⟨h, earlier, rfl⟩
              exact ⟨hsends.quiet _ _ rfl h, earlier, _, List.append_assoc _ _ _⟩
            · refine Keeps.ite (fun _ => hover (by simp) fun _ h => h.1) fun hleft => ?_
              refine Keeps.strengthen (keeps_caughtExchange hsends (htarget _ rfl rfl rfl rfl)) ?_
              rintro history ⟨h, earlier, patience, rfl⟩
              exact ⟨h, earlier, found, patience, now, rfl, hhead, hallowed,
                by linarith [not_le.mp hleft], rfl⟩

end

end Quorum
