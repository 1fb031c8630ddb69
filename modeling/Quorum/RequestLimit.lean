import Quorum.BaseDialogue
import Quorum.BaseJson
import Quorum.BaseUtf8

/-! The limit on request bodies. The middleware counts the bytes of a body as they arrive, whatever
its headers say, and answers 413 for one over the limit; any other body reaches the app as one
message, followed by what the server sends next. -/

namespace Quorum

open Dialogue

abbrev ByteString := List UInt8

/-- The text as ASCII bytes. -/
def ascii (text : String) : ByteString := encodeUtf8 text.toList

/-- `MAX_REQUEST_BODY_BYTES`. -/
def maxRequestBodyBytes : ℕ := 1048576

/-- `_LIMIT_DIGITS`. -/
def limitDigits : ℕ := (Nat.repr maxRequestBodyBytes).length

/-! ### Messages -/

inductive ScopeType
  | http
  | other (name : Option String)
deriving DecidableEq

structure Scope where
  type : ScopeType
  headers : Option (List (ByteString × ByteString))

/-- A message of the server: a part of the body, or one of another type. -/
inductive ReceiveMessage
  | httpRequest (body : Option ByteString) (moreBody : Option Bool)
  | other (type : Option String)
deriving DecidableEq

inductive SendMessage
  | responseStart (status : ℕ) (headers : List (ByteString × ByteString))
  | responseBody (body : ByteString) (moreBody : Bool)
deriving DecidableEq

abbrev App := Scope → Program ReceiveMessage SendMessage

/-- What comes of a request: what the app received in each call of it, what was sent, and what is
unread. -/
structure Exchange where
  calls : List (List ReceiveMessage)
  sent : List SendMessage
  unread : List ReceiveMessage

/-! ### The middleware -/

def isDigitByte (byte : UInt8) : Bool := 48 ≤ byte ∧ byte ≤ 57

/-- `value.isdigit()`. -/
def isDigits (value : ByteString) : Bool := value ≠ [] ∧ value.all isDigitByte

def lowerByte (byte : UInt8) : UInt8 := if 65 ≤ byte ∧ byte ≤ 90 then byte + 32 else byte

/-- `name.lower()`. -/
def lowerBytes (name : ByteString) : ByteString := name.map lowerByte

/-- `int(digits)`. -/
def digitsValue (digits : ByteString) : ℕ :=
  digits.foldl (fun value byte => 10 * value + (byte.toNat - 48)) 0

/-- `value.lstrip(b"0")`. -/
def lstripZeros (value : ByteString) : ByteString := value.dropWhile (· = 48)

/-- A header that says, in plain digits, that the body is over the limit. -/
def declaresOverLimit (header : ByteString × ByteString) : Bool :=
  lowerBytes header.1 = ascii "content-length" ∧ isDigits header.2 ∧
    (limitDigits < (lstripZeros header.2).length
      ∨ maxRequestBodyBytes < digitsValue (lstripZeros header.2))

/-- `_declares_too_large`. -/
def declaresTooLarge (headers : List (ByteString × ByteString)) : Bool :=
  headers.any declaresOverLimit

/-- `_TOO_LARGE_BODY`. -/
def tooLargeBody : ByteString :=
  encodeUtf8 (braced ("\"detail\":".toList ++ braced ("\"code\":\"REQUEST_TOO_LARGE\",".toList
    ++ "\"message\":\"The request is larger than the 1 MB limit.\"".toList)))

/-- `_send_too_large`. -/
def sendTooLarge : List SendMessage :=
  [.responseStart 413 [(ascii "content-type", ascii "application/json"),
      (ascii "content-length", ascii (Nat.repr tooLargeBody.length))],
    .responseBody tooLargeBody false]

/-- The answer without the app. -/
def tooLarge (unread : List ReceiveMessage) : Exchange := ⟨[], sendTooLarge, unread⟩

section

variable (app : App) (scope : Scope)

/-- The app over the messages of a server. -/
def serve (messages : List ReceiveMessage) : Exchange :=
  let run := (app scope).run answerList messages
  ⟨[run.received], run.sent, run.source⟩

/-- The app over `_ReplayReceive`: the pending messages, and then the server's. -/
def callReplay (pending incoming : List ReceiveMessage) : Exchange :=
  let run := (app scope).run (answerAfter answerList) (pending, incoming)
  ⟨[run.received], run.sent, run.source.1 ++ run.source.2⟩

/-- The loop that reads the body. None where the server has nothing more to receive. -/
def readBody (buffer : ByteString) : List ReceiveMessage → Option Exchange
  | [] => none
  | .other type :: incoming =>
      let pending := [.other type]
      let pending :=
        if buffer ≠ [] then .httpRequest (some buffer) (some true) :: pending else pending
      some (callReplay app scope pending incoming)
  | .httpRequest body moreBody :: incoming =>
      let buffer := buffer ++ body.getD []
      if maxRequestBodyBytes < buffer.length then some (tooLarge incoming)
      else if moreBody.getD false then readBody buffer incoming
      else some (callReplay app scope [.httpRequest (some buffer) (some false)] incoming)

/-- `RequestBodyLimitMiddleware.__call__`. -/
def requestBodyLimit (incoming : List ReceiveMessage) : Option Exchange :=
  if scope.type ≠ .http then some (serve app scope incoming)
  else if declaresTooLarge (scope.headers.getD []) then some (tooLarge incoming)
  else readBody app scope [] incoming

end

/-! ### Numbers in headers -/

theorem foldl_digits (digits : ByteString) (start : ℕ) :
    digits.foldl (fun value byte => 10 * value + (byte.toNat - 48)) start =
      10 ^ digits.length * start + digitsValue digits := by
  induction digits generalizing start with
  | nil => simp [digitsValue]
  | cons byte digits ih =>
      have hcons : digitsValue (byte :: digits) = 10 ^ digits.length * (byte.toNat - 48)
          + digitsValue digits := by
        rw [digitsValue, List.foldl_cons, ih]
        simp
      rw [List.foldl_cons, ih, hcons, List.length_cons, pow_succ]
      ring

theorem digitsValue_cons (byte : UInt8) (digits : ByteString) :
    digitsValue (byte :: digits) = 10 ^ digits.length * (byte.toNat - 48) + digitsValue digits := by
  rw [digitsValue, List.foldl_cons, foldl_digits]
  simp

/-- Leading zeros do not count. -/
theorem digitsValue_lstripZeros (value : ByteString) :
    digitsValue (lstripZeros value) = digitsValue value := by
  induction value with
  | nil => rfl
  | cons byte value ih =>
      rw [lstripZeros]
      by_cases hzero : byte = 48
      · subst hzero
        rw [List.dropWhile_cons_of_pos rfl, digitsValue_cons]
        simpa [lstripZeros] using ih
      · rw [List.dropWhile_cons_of_neg (by simpa using hzero)]

theorem le_digitsValue {byte : UInt8} (hdigit : isDigitByte byte) (hzero : byte ≠ 48)
    (digits : ByteString) :
    10 ^ digits.length ≤ digitsValue (byte :: digits) := by
  have hbounds : 48 ≤ byte.toNat ∧ byte.toNat ≤ 57 := by
    simpa [isDigitByte, UInt8.le_iff_toNat_le] using hdigit
  have hne : byte.toNat ≠ 48 := fun heq => hzero (UInt8.toNat_inj.mp heq)
  have hone : 1 ≤ byte.toNat - 48 := by omega
  rw [digitsValue_cons]
  exact (Nat.le_mul_of_pos_right _ hone).trans (Nat.le_add_right _ _)

/-- More digits than the limit has are a number over it. -/
theorem over_of_limitDigits {value : ByteString} (hdigits : isDigits value)
    (h : limitDigits < (lstripZeros value).length) : maxRequestBodyBytes < digitsValue value := by
  rw [← digitsValue_lstripZeros]
  cases hstrip : lstripZeros value with
  | nil =>
      rw [hstrip] at h
      exact absurd h (Nat.not_lt_zero _)
  | cons byte digits =>
      have hzero : byte ≠ 48 := by
        have hhead := List.head?_dropWhile_not (fun byte : UInt8 => decide (byte = 48)) value
        rw [show value.dropWhile _ = byte :: digits from hstrip] at hhead
        simpa using hhead
      have hmem : byte ∈ value :=
        (List.dropWhile_suffix _).subset (show byte ∈ lstripZeros value by rw [hstrip]; simp)
      have hdigit : isDigitByte byte := by
        rw [isDigits, decide_eq_true_iff] at hdigits
        exact List.all_eq_true.mp hdigits.2 byte hmem
      rw [hstrip, List.length_cons] at h
      have hlen : 7 ≤ digits.length := by
        have hlimit : limitDigits = 7 := by decide
        omega
      calc maxRequestBodyBytes < 10 ^ 7 := by decide
        _ ≤ 10 ^ digits.length := Nat.pow_le_pow_right (by decide) hlen
        _ ≤ digitsValue (byte :: digits) := le_digitsValue hdigit hzero digits

/-- A content-length header of ASCII digits over the limit. -/
def DeclaredOver (headers : List (ByteString × ByteString)) : Prop :=
  ∃ header ∈ headers, lowerBytes header.1 = ascii "content-length" ∧ isDigits header.2 ∧
    maxRequestBodyBytes < digitsValue header.2

theorem declaresTooLarge_iff (headers : List (ByteString × ByteString)) :
    declaresTooLarge headers ↔ DeclaredOver headers := by
  rw [declaresTooLarge, List.any_eq_true]
  constructor
  · rintro ⟨header, hmem, hover⟩
    rw [declaresOverLimit, decide_eq_true_iff] at hover
    obtain ⟨hname, hdigits, hlong | hlarge⟩ := hover
    · exact ⟨header, hmem, hname, hdigits, over_of_limitDigits hdigits hlong⟩
    · rw [digitsValue_lstripZeros] at hlarge
      exact ⟨header, hmem, hname, hdigits, hlarge⟩
  · rintro ⟨header, hmem, hname, hdigits, hlarge⟩
    refine ⟨header, hmem, ?_⟩
    rw [declaresOverLimit, decide_eq_true_iff, digitsValue_lstripZeros]
    exact ⟨hname, hdigits, .inr hlarge⟩

/-! ### Bodies -/

/-- The message ends the body, or is not a part of one. -/
def ReceiveMessage.ends : ReceiveMessage → Bool
  | .httpRequest _ moreBody => moreBody.getD false = false
  | .other _ => true

def ReceiveMessage.bytes : ReceiveMessage → ByteString
  | .httpRequest body _ => body.getD []
  | .other _ => []

/-- The server sends parts of a body, then its last part or another message, and then the rest. -/
structure Delivers (messages : List ReceiveMessage) (chunks : List (Option ByteString))
    (last : ReceiveMessage) (rest : List ReceiveMessage) : Prop where
  messages : messages = chunks.map (fun body => .httpRequest body (some true)) ++ last :: rest
  ends : last.ends

/-- All bytes of the body that arrive. -/
def bodyBytes (chunks : List (Option ByteString)) (last : ReceiveMessage) : ByteString :=
  (chunks.map fun body => body.getD []).flatten ++ last.bytes

/-- The body in one message, or what was read of it and the message that came in its place. -/
def replayed (body : ByteString) : ReceiveMessage → List ReceiveMessage
  | .httpRequest _ _ => [.httpRequest (some body) (some false)]
  | .other type =>
      (if body ≠ [] then [.httpRequest (some body) (some true)] else []) ++ [.other type]

theorem callReplay_eq (app : App) (scope : Scope) (pending incoming : List ReceiveMessage) :
    callReplay app scope pending incoming = serve app scope (pending ++ incoming) := by
  have hrun := (app scope).run_answerAfter pending incoming
  rw [serve, ← hrun]
  rfl

/-- The body over the limit is refused at the message that crosses it. -/
theorem readBody_over (app : App) (scope : Scope) {chunks : List (Option ByteString)}
    {last : ReceiveMessage} {rest : List ReceiveMessage} {buffer : ByteString}
    (hbuffer : buffer.length ≤ maxRequestBodyBytes)
    (h : maxRequestBodyBytes < (buffer ++ bodyBytes chunks last).length) :
    ∃ unread, readBody app scope buffer
      (chunks.map (fun body => .httpRequest body (some true)) ++ last :: rest) =
      some (tooLarge unread) := by
  induction chunks generalizing buffer with
  | nil =>
      rw [show bodyBytes [] last = last.bytes from rfl] at h
      cases last with
      | httpRequest body moreBody => exact ⟨rest, if_pos h⟩
      | other type =>
          rw [ReceiveMessage.bytes, List.append_nil] at h
          omega
  | cons body chunks ih =>
      rw [List.map_cons, List.cons_append, readBody]
      by_cases hover : maxRequestBodyBytes < (buffer ++ body.getD []).length
      · exact ⟨_, if_pos hover⟩
      · have hassoc : buffer ++ bodyBytes (body :: chunks) last = (buffer ++ body.getD [])
            ++ bodyBytes chunks last := by
          simp [bodyBytes]
        rw [hassoc] at h
        rw [if_neg hover]
        exact ih (not_lt.mp hover) h

/-- Any other body reaches the app whole. -/
theorem readBody_within (app : App) (scope : Scope) {chunks : List (Option ByteString)}
    {last : ReceiveMessage} {rest : List ReceiveMessage} {buffer : ByteString} (hends : last.ends)
    (h : (buffer ++ bodyBytes chunks last).length ≤ maxRequestBodyBytes) :
    readBody app scope buffer
      (chunks.map (fun body => .httpRequest body (some true)) ++ last :: rest) =
      some (serve app scope (replayed (buffer ++ bodyBytes chunks last) last ++ rest)) := by
  induction chunks generalizing buffer with
  | nil =>
      rw [show bodyBytes [] last = last.bytes from rfl] at h ⊢
      cases last with
      | httpRequest body moreBody =>
          have hmore : moreBody.getD false = false := of_decide_eq_true hends
          rw [ReceiveMessage.bytes] at h ⊢
          rw [List.map_nil, List.nil_append, readBody, if_neg (not_lt.mpr h), hmore,
            if_neg Bool.false_ne_true, callReplay_eq]
          rfl
      | other type =>
          rw [ReceiveMessage.bytes, List.append_nil, List.map_nil, List.nil_append, readBody,
            callReplay_eq, replayed]
          split_ifs <;> rfl
  | cons body chunks ih =>
      have hassoc : buffer ++ bodyBytes (body :: chunks) last = (buffer ++ body.getD [])
          ++ bodyBytes chunks last := by
        simp [bodyBytes]
      rw [hassoc] at h ⊢
      have hwithin : ¬maxRequestBodyBytes < (buffer ++ body.getD []).length := by
        rw [List.length_append] at h
        omega
      rw [List.map_cons, List.cons_append, readBody, if_neg hwithin]
      exact ih h

/-- A request is refused with one 413, without a call of the app, exactly when a plain
content-length or the bytes that arrive are over the limit. Any other request reaches the app once:
it receives the whole body in one message, or what was read and the message that came in its place,
and then the server's own messages. -/
theorem request_body_limit (app : App) {scope : Scope} (hhttp : scope.type = .http)
    {messages : List ReceiveMessage} {chunks : List (Option ByteString)} {last : ReceiveMessage}
    {rest : List ReceiveMessage} (hdelivers : Delivers messages chunks last rest) :
    let body := bodyBytes chunks last
    let refused := DeclaredOver (scope.headers.getD []) ∨ maxRequestBodyBytes < body.length
    (refused ↔ ∃ unread, requestBodyLimit app scope messages = some ⟨[], sendTooLarge, unread⟩) ∧
      (∃ headers, sendTooLarge = [.responseStart 413 headers, .responseBody tooLargeBody false]) ∧
      (¬refused → ∃ received sent unread,
        requestBodyLimit app scope messages = some ⟨[received], sent, unread⟩ ∧
        received ++ unread = replayed body last ++ rest ∧
        requestBodyLimit app scope messages =
          some (serve app scope (replayed body last ++ rest))) := by
  intro body refused
  have hlimit : requestBodyLimit app scope messages =
      if declaresTooLarge (scope.headers.getD []) then some (tooLarge messages)
      else readBody app scope [] messages := by
    rw [requestBodyLimit, if_neg (not_not.mpr hhttp)]
  have hrefused : refused → ∃ unread, requestBodyLimit app scope messages = some ⟨[],
      sendTooLarge, unread⟩ := by
    intro hcause
    rw [hlimit]
    by_cases hdeclared : declaresTooLarge (scope.headers.getD [])
    · exact ⟨messages, if_pos hdeclared⟩
    · rw [if_neg hdeclared, hdelivers.messages]
      rw [declaresTooLarge_iff] at hdeclared
      exact readBody_over app scope (Nat.zero_le _) (hcause.resolve_left hdeclared)
  have hcalled : ¬refused →
      requestBodyLimit app scope messages =
        some (serve app scope (replayed body last ++ rest)) := by
    intro hcause
    obtain ⟨hdeclared, hwithin⟩ := not_or.mp hcause
    rw [← declaresTooLarge_iff] at hdeclared
    rw [hlimit, if_neg hdeclared, hdelivers.messages]
    exact readBody_within app scope hdelivers.ends (not_lt.mp hwithin)
  refine ⟨⟨hrefused, fun ⟨unread, hsent⟩ => ?_⟩, ⟨_, rfl⟩, fun hcause => ?_⟩
  · by_contra hcause
    rw [hcalled hcause] at hsent
    have hcalls := congrArg Exchange.calls (Option.some.inj hsent)
    cases hcalls
  · exact ⟨_, _, _, hcalled hcause, (app scope).run_answerList _, hcalled hcause⟩

/-- An app that reads twice and answers. -/
def twoReads : App := fun _ => .receive fun _ => .receive fun _ =>
  .send (.responseStart 400 []) .finish

/-- A client that leaves after two bytes. -/
theorem request_body_limit_disconnect :
    let messages := [.httpRequest (some [104]) (some true), .httpRequest (some [105]) (some true),
      .other (some "http.disconnect")]
    requestBodyLimit twoReads ⟨.http, none⟩ messages =
      some ⟨[[.httpRequest (some [104, 105]) (some true),
      .other (some "http.disconnect")]], [.responseStart 400 []], []⟩ := by
  have hdelivers : Delivers [.httpRequest (some [104]) (some true),
      .httpRequest (some [105]) (some true),
      .other (some "http.disconnect")] [some [104], some [105]] (.other (some "http.disconnect"))
        [] := ⟨rfl, rfl⟩
  have hcause : ¬(DeclaredOver [] ∨ maxRequestBodyBytes <
      (bodyBytes [some [104], some [105]] (.other (some "http.disconnect"))).length) := by
    rintro (⟨header, hmem, -⟩ | hover)
    · cases hmem
    · exact absurd hover (by decide)
  obtain ⟨received, sent, unread, -, -, hserve⟩ :=
    (request_body_limit twoReads (show (⟨.http, none⟩ : Scope).type = .http from rfl) hdelivers).2.2
      hcause
  exact hserve

end Quorum
