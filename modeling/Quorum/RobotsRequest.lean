import Quorum.RobotsRules

/-! What robots.txt judges and what is requested. The fetch asks about an address and requests its
path and query as `quote` encodes them; the matcher reads both in a form of its own, which leaves
more characters alone. -/

namespace Quorum

/-! ### The address and the request line -/

/-- `_FORBIDDEN_IN_A_URL` finds nothing. -/
def noneForbidden (url : Text) : Bool := url.all fun ch => 32 < ch.toNat && ch.toNat ≠ 127

/-- What the fetch reads of `urlsplit`. -/
structure SplitResult where
  scheme : Text
  netloc : Text
  path : Text
  query : Text

def isSchemeChar (ch : Char) : Bool := ch.isAlphanum || ch ∈ ['+', '-', '.']

/-- The scheme in lower case, where one stands before the first colon, and what follows it. -/
def splitScheme (url : Text) : Text × Text :=
  let scheme := url.takeWhile (· ≠ ':')
  if ':' ∈ url ∧ (scheme.head?.map Char.isAlpha).getD false ∧ scheme.all isSchemeChar then
    (scheme.map Char.toLower, url.drop (scheme.length + 1))
  else ([], url)

def isNetlocChar (ch : Char) : Bool := ch ∉ ['/', '?', '#']

/-- `_splitnetloc`, where two slashes stand first. -/
def splitNetloc (url : Text) : Text × Text :=
  match url with
  | '/' :: '/' :: rest => (rest.takeWhile isNetlocChar, rest.dropWhile isNetlocChar)
  | _ => ([], url)

/-- What `urlsplit` takes off an address before it reads it. -/
def stripControls (url : Text) : Text :=
  (url.dropWhile fun ch => ch.toNat ≤ 32).filter fun ch => ch ∉ ['\t', '\r', '\n']

/-- `urlsplit`, where it does not raise; the fetch refuses the address where it does. -/
def urlsplit (url : Text) : SplitResult :=
  let (scheme, url) := splitScheme (stripControls url)
  let (netloc, url) := splitNetloc url
  let url := url.takeWhile (· ≠ '#')
  { scheme, netloc, path := url.takeWhile (· ≠ '?'), query := (url.dropWhile (· ≠ '?')).drop 1 }

/-- A character that `quote` leaves alone. -/
def isSafe (safe : List Char) (ch : Char) : Bool := isUnreserved ch || ch ∈ safe

def quoteChar (safe : List Char) (ch : Char) : Text :=
  if isSafe safe ch then [ch] else (encodeUtf8 [ch]).flatMap percentByte

/-- `urllib.parse.quote`. -/
def quote (safe : List Char) (text : Text) : Text := text.flatMap (quoteChar safe)

/-- What the request line leaves alone in a path. -/
def pathSafe : List Char := "/%:@!$&'()*+,;=~-._".toList

/-- What the request line leaves alone in a query. -/
def querySafe : List Char := "/%:@!$&()*+,;=~-._?".toList

/-- The path and the query on the request line. -/
def requestPath (parts : SplitResult) : Text :=
  quote pathSafe (if parts.path ≠ [] then parts.path else ['/'])
    ++ if parts.query ≠ [] then '?' :: quote querySafe parts.query else []

/-- The address with the path and the query of the request line. -/
def requestedUrl (url : Text) : Text :=
  let parts := urlsplit url
  parts.scheme ++ "://".toList ++ parts.netloc ++ requestPath parts

/-- What the fetch checks of an address before it asks robots.txt: nothing forbidden, the scheme, a
host. -/
structure Fetchable (url : Text) : Prop where
  plain : noneForbidden url
  scheme : (urlsplit url).scheme ∈ ["http".toList, "https".toList]
  host : (urlsplit url).netloc ≠ []

/-- `robots_verdict`, of an address that is read as the fetch reads it. -/
def verdictOn (t : TextTables) (robotsStatus : Option ℕ) (robotsBody : Option Text)
    (url userAgent : Text) : RobotsVerdict :=
  robotsVerdict t (fun url => ((urlsplit url).path, (urlsplit url).query)) robotsStatus
    robotsBody url userAgent

/-- Every ASCII character of the address stands on the request line as it is. -/
def SentAsRead (url : Text) : Prop :=
  (∀ ch ∈ (urlsplit url).path, ch.toNat < 128 → isSafe pathSafe ch)
    ∧ ∀ ch ∈ (urlsplit url).query, ch.toNat < 128 → isSafe querySafe ch

/-! ### Escapes -/

theorem isUnreserved_hexDigit : ∀ n < 16, isUnreserved (hexDigit n) = true
    ∧ isHexDigit (hexDigit n) = true := by
  decide

theorem forall_ascii {p : Char → Prop} (h : ∀ n < 128, p (Char.ofNat n)) (ch : Char)
    (hch : ch.toNat < 128) : p ch := by
  have := h ch.toNat hch
  rwa [Char.ofNat_toNat] at this

theorem isUnreserved_ascii {ch : Char} (h : isUnreserved ch = true) : ch.toNat < 128 := by
  have hletters : ch.isAlphanum = (((decide (ch.val ≥ 'A'.val ∧ ch.val ≤ 'Z'.val))
      || (decide (ch.val ≥ 'a'.val) && decide (ch.val ≤ 'z'.val)))
      || (decide (ch.val ≥ '0'.val) && decide (ch.val ≤ '9'.val))) := rfl
  simp only [isUnreserved, hletters, Bool.or_eq_true, Bool.and_eq_true, decide_eq_true_eq,
    ge_iff_le, UInt32.le_iff_toNat_le] at h
  have hnat : ch.toNat = ch.val.toNat := rfl
  rcases h with ((⟨-, h⟩ | ⟨-, h⟩) | ⟨-, h⟩) | h
  · exact Nat.lt_of_le_of_lt h (by decide)
  · exact Nat.lt_of_le_of_lt h (by decide)
  · exact Nat.lt_of_le_of_lt h (by decide)
  · simp only [List.mem_cons, List.not_mem_nil, or_false] at h
    rcases h with rfl | rfl | rfl | rfl <;> decide

theorem isHexDigit_ascii {ch : Char} (h : isHexDigit ch = true) : ch.toNat < 128 := by
  simp only [isHexDigit, Char.isDigit, Bool.and_eq_true, decide_eq_true_eq, ge_iff_le, Char.le_def,
    UInt32.le_iff_toNat_le] at h
  rcases h with ⟨-, h⟩ | ⟨-, h⟩ | ⟨-, h⟩
  · exact Nat.lt_of_le_of_lt h (by decide)
  · exact Nat.lt_of_le_of_lt h (by decide)
  · exact Nat.lt_of_le_of_lt h (by decide)

theorem isUnreserved_of_isHexDigit {ch : Char} (h : isHexDigit ch = true) :
    isUnreserved ch = true := by
  apply forall_ascii (p := fun ch => isHexDigit ch = true → isUnreserved ch = true) _ ch
    (isHexDigit_ascii h) h
  decide +kernel

theorem normaliseEscapes_cons {ch : Char} (h : ch ≠ '%') (rest : Text) :
    normaliseEscapes (ch :: rest) = ch :: normaliseEscapes rest := by
  rw [normaliseEscapes]
  exact fun _ _ _ hch => absurd hch h

/-- A percent sign that begins no escape stays. -/
theorem normaliseEscapes_percent {rest : Text}
    (h : ∀ high low more,
      rest = high :: low :: more → isHexDigit high = true → isHexDigit low = false) :
    normaliseEscapes ('%' :: rest) = '%' :: normaliseEscapes rest := by
  match rest with
  | [] => rfl
  | [ch] => rfl
  | high :: low :: more =>
      rw [normaliseEscapes]
      have hnone := h high low more rfl
      cases hhigh : isHexDigit high with
      | false => rfl
      | true => simp [hnone hhigh]

/-- What no hex digit begins does not take part in the escapes before it. -/
theorem normaliseEscapes_append {ch : Char} (h : isHexDigit ch = false) (before after : Text) :
    normaliseEscapes (before ++ ch :: after) = normaliseEscapes before
      ++ normaliseEscapes (ch :: after) := by
  fun_induction normaliseEscapes before with
  | case1 high low rest hhex ih =>
      rw [List.cons_append, List.cons_append, List.cons_append, normaliseEscapes, if_pos hhex, ih,
        List.append_assoc]
  | case2 high low rest hhex ih =>
      rw [List.cons_append, List.cons_append, List.cons_append, normaliseEscapes, if_neg hhex,
        List.cons_append, ← ih]
      rfl
  | case3 first rest hshort ih =>
      by_cases hfirst : first = '%'
      · subst hfirst
        rw [List.cons_append, normaliseEscapes_percent, ih, List.cons_append]
        intro high low more hrest hhigh
        match rest, hrest with
        | [], hrest =>
            obtain ⟨rfl, -⟩ := List.cons.inj hrest
            rw [h] at hhigh
            cases hhigh
        | [_], hrest =>
            obtain ⟨-, hrest⟩ := List.cons.inj hrest
            obtain ⟨rfl, -⟩ := List.cons.inj hrest
            exact h
        | _ :: _ :: _, hrest => exact absurd rfl (fun h => hshort _ _ _ rfl h)
      · rw [List.cons_append, normaliseEscapes_cons hfirst, ih, List.cons_append]
  | case4 => rfl

/-! ### Both forms of a text -/

/-- The characters that the form of robots.txt may hold stay on the request line. -/
structure KeepsForm (safe : List Char) : Prop where
  percent : '%' ∈ safe
  ascii : ∀ ch ∈ safe, ch.toNat < 128

theorem isSafe_ascii {safe : List Char} (hsafe : KeepsForm safe) {ch : Char}
    (h : isSafe safe ch = true) : ch.toNat < 128 := by
  rw [isSafe, Bool.or_eq_true, decide_eq_true_eq] at h
  exact h.elim isUnreserved_ascii (hsafe.ascii ch)

theorem mem_percentByte {byte : UInt8} {ch : Char} (h : ch ∈ percentByte byte) :
    ch = '%' ∨ isUnreserved ch = true := by
  have hbyte := byte.toNat_lt
  simp only [percentByte, List.mem_cons, List.not_mem_nil, or_false] at h
  rcases h with rfl | rfl | rfl
  · exact Or.inl rfl
  · exact Or.inr (isUnreserved_hexDigit _ (by omega)).1
  · exact Or.inr (isUnreserved_hexDigit _ (by omega)).1

section
variable {safe : List Char}

theorem isSafe_percentByte (hsafe : KeepsForm safe) {byte : UInt8} {ch : Char}
    (h : ch ∈ percentByte byte) :
    isSafe safe ch = true := by
  rw [isSafe, Bool.or_eq_true, decide_eq_true_eq]
  rcases mem_percentByte h with rfl | h
  · exact Or.inr hsafe.percent
  · exact Or.inl h

theorem quoteChar_safe {ch : Char} (h : isSafe safe ch = true) :
    quoteChar safe ch = [ch] := if_pos h

theorem isSafe_of_mem_quote (hsafe : KeepsForm safe) {text : Text} {ch : Char}
    (h : ch ∈ quote safe text) :
    isSafe safe ch = true := by
  obtain ⟨source, -, hch⟩ := List.mem_flatMap.mp h
  rw [quoteChar] at hch
  split_ifs at hch with hsource
  · rwa [List.mem_singleton.mp hch]
  · obtain ⟨byte, -, hbyte⟩ := List.mem_flatMap.mp hch
    exact isSafe_percentByte hsafe hbyte

theorem quote_of_safe {text : Text} (h : ∀ ch ∈ text, isSafe safe ch = true) :
    quote safe text = text := by
  induction text with
  | nil => rfl
  | cons ch text ih =>
      rw [quote, List.flatMap_cons, quoteChar_safe (h ch List.mem_cons_self)]
      exact congrArg (ch :: ·) (ih fun other hother => h other (List.mem_cons_of_mem _ hother))

theorem encodeNonAscii_append (left right : Text) :
    encodeNonAscii (left ++ right) = encodeNonAscii left ++ encodeNonAscii right :=
  List.flatMap_append

theorem encodeNonAscii_of_ascii {text : Text} (h : ∀ ch ∈ text, ch.toNat < 128) :
    encodeNonAscii text = text := by
  induction text with
  | nil => rfl
  | cons ch text ih =>
      rw [encodeNonAscii, List.flatMap_cons, if_pos (h ch List.mem_cons_self)]
      exact congrArg (ch :: ·) (ih fun other hother => h other (List.mem_cons_of_mem _ hother))

theorem encodeNonAscii_ascii (text : Text) : ∀ ch ∈ encodeNonAscii text, ch.toNat < 128 := by
  intro ch hch
  obtain ⟨source, -, hch⟩ := List.mem_flatMap.mp hch
  split_ifs at hch with hsource
  · rwa [List.mem_singleton.mp hch]
  · obtain ⟨byte, -, hbyte⟩ := List.mem_flatMap.mp hch
    rcases mem_percentByte hbyte with rfl | h
    · decide
    · exact isUnreserved_ascii h

/-- The request line encodes what the matcher's form encodes, and then its own. -/
theorem quote_encodeNonAscii (hsafe : KeepsForm safe) (text : Text) :
    quote safe (encodeNonAscii text) = quote safe text := by
  rw [quote, encodeNonAscii, List.flatMap_assoc, quote]
  apply List.flatMap_congr
  intro ch hch
  split_ifs with hascii
  · exact List.flatMap_singleton _ _
  · have hescaped : ¬ isSafe safe ch = true := fun h => hascii (isSafe_ascii hsafe h)
    rw [quoteChar, if_neg hescaped]
    apply quote_of_safe
    intro other hother
    obtain ⟨byte, -, hbyte⟩ := List.mem_flatMap.mp hother
    exact isSafe_percentByte hsafe hbyte

theorem quoteChar_unsafe {ch : Char} (h : ¬ isSafe safe ch = true) :
    ∃ digits, quoteChar safe ch = '%' :: digits := by
  rw [quoteChar, if_neg h]
  cases hbytes : encodeUtf8 [ch] with
  | nil =>
      have hlength := length_le_encodeUtf8 [ch]
      rw [hbytes] at hlength
      cases hlength
  | cons byte bytes => exact ⟨_, rfl⟩

/-- A hex digit that begins a quoted text began the text. -/
theorem quote_hexDigit {text rest : Text} {ch : Char} (h : quote safe text = ch :: rest)
    (hhex : isHexDigit ch = true) : ∃ more, text = ch :: more ∧ rest = quote safe more := by
  cases text with
  | nil => cases h
  | cons first more =>
      rw [quote, List.flatMap_cons] at h
      by_cases hsafe : isSafe safe first = true
      · rw [quoteChar_safe hsafe] at h
        obtain ⟨rfl, rfl⟩ := List.cons.inj h
        exact ⟨more, rfl, rfl⟩
      · obtain ⟨digits, hdigits⟩ := quoteChar_unsafe hsafe
        rw [hdigits] at h
        obtain ⟨rfl, -⟩ := List.cons.inj h
        cases hhex

theorem quote_cons (ch : Char) (text : Text) :
    quote safe (ch :: text) = quoteChar safe ch ++ quote safe text := rfl

theorem quote_append (left right : Text) :
    quote safe (left ++ right) = quote safe left ++ quote safe right :=
  List.flatMap_append

theorem isUnreserved_toUpper {ch : Char} (h : isHexDigit ch = true) :
    isUnreserved ch.toUpper = true := by
  apply forall_ascii (p := fun ch => isHexDigit ch = true → isUnreserved ch.toUpper = true) _ ch
    (isHexDigit_ascii h) h
  decide +kernel

theorem quote_escapeForm (hsafe : KeepsForm safe) {high low : Char} (hhigh : isHexDigit high = true)
    (hlow : isHexDigit low = true) : quote safe (escapeForm high low) = escapeForm high low := by
  apply quote_of_safe
  intro ch hch
  rw [isSafe, Bool.or_eq_true, decide_eq_true_eq]
  unfold escapeForm at hch
  dsimp only at hch
  split_ifs at hch with hreserved
  · rw [List.mem_singleton.mp hch]
    exact Or.inl hreserved
  · simp only [List.mem_cons, List.not_mem_nil, or_false] at hch
    rcases hch with rfl | rfl | rfl
    · exact Or.inr hsafe.percent
    · exact Or.inl (isUnreserved_toUpper hhigh)
    · exact Or.inl (isUnreserved_toUpper hlow)

/-- An unsafe character goes on the request line as an escape that the matcher's form keeps. -/
theorem normaliseEscapes_quoteChar {ch : Char} (hascii : ch.toNat < 128)
    (h : ¬ isSafe safe ch = true) (rest : Text) :
    normaliseEscapes (quoteChar safe ch ++ rest) = quoteChar safe ch ++ normaliseEscapes rest := by
  have hbyte : (encodeUtf8 [ch]).flatMap percentByte
      = ['%', hexDigit (ch.toNat / 16), hexDigit (ch.toNat % 16)] := by
    have hmod : ch.toNat % 256 = ch.toNat := Nat.mod_eq_of_lt (by omega)
    rw [encodeUtf8, List.flatMap_singleton, utf8EncodeChar_of_ascii hascii, List.flatMap_singleton,
      percentByte, UInt8.toNat_ofNat', hmod]
  have hreserved : isUnreserved ch = false := by
    rw [isSafe, Bool.or_eq_true, not_or] at h
    exact Bool.eq_false_iff.mpr h.1
  have hform : escapeForm (hexDigit (ch.toNat / 16)) (hexDigit (ch.toNat % 16))
      = ['%', hexDigit (ch.toNat / 16), hexDigit (ch.toNat % 16)] := by
    apply forall_ascii (p := fun ch => isUnreserved ch = false →
      escapeForm (hexDigit (ch.toNat / 16)) (hexDigit (ch.toNat % 16))
        = ['%', hexDigit (ch.toNat / 16), hexDigit (ch.toNat % 16)]) _ ch hascii hreserved
    decide +kernel
  have hhigh := (isUnreserved_hexDigit (ch.toNat / 16) (by omega)).2
  have hlow := (isUnreserved_hexDigit (ch.toNat % 16) (by omega)).2
  rw [quoteChar, if_neg h, hbyte]
  simp only [List.cons_append, List.nil_append, normaliseEscapes, hhigh, hlow, Bool.and_self,
    if_true, hform]

/-- The matcher's form of what is requested is what it would request of its own form. -/
theorem normaliseEscapes_quote (hsafe : KeepsForm safe) {text : Text}
    (h : ∀ ch ∈ text, ch.toNat < 128) :
    normaliseEscapes (quote safe text) = quote safe (normaliseEscapes text) := by
  have hpercent : quoteChar safe '%' = ['%'] := by
    apply quoteChar_safe
    rw [isSafe, Bool.or_eq_true, decide_eq_true_eq]
    exact Or.inr hsafe.percent
  have hkept : ∀ {ch : Char}, isUnreserved ch = true → quoteChar safe ch = [ch] := by
    intro ch hch
    apply quoteChar_safe
    rw [isSafe, hch, Bool.true_or]
  fun_induction normaliseEscapes text with
  | case1 high low rest hhex ih =>
      rw [Bool.and_eq_true] at hhex
      have hhigh := hkept (isUnreserved_of_isHexDigit hhex.1)
      have hlow := hkept (isUnreserved_of_isHexDigit hhex.2)
      have hrest := ih fun ch hch => h ch (by simp [hch])
      rw [quote_cons, quote_cons, quote_cons, hpercent, hhigh, hlow]
      simp only [List.cons_append, List.nil_append, normaliseEscapes, hhex.1, hhex.2, Bool.and_self,
        if_true, hrest]
      rw [quote_append, quote_escapeForm hsafe hhex.1 hhex.2]
  | case2 high low rest hhex ih =>
      have hrest := ih fun ch hch => h ch (List.mem_cons_of_mem _ hch)
      rw [quote_cons, hpercent, List.singleton_append, normaliseEscapes_percent, hrest, quote_cons,
        hpercent, List.singleton_append]
      intro first second more htext hfirst
      obtain ⟨tail, heq, htail⟩ := quote_hexDigit htext hfirst
      by_contra hsecond
      rw [Bool.not_eq_false] at hsecond
      obtain ⟨last, rfl, -⟩ := quote_hexDigit htail.symm hsecond
      simp only [List.cons.injEq] at heq
      obtain ⟨rfl, rfl, -⟩ := heq
      rw [hfirst, hsecond] at hhex
      exact hhex rfl
  | case3 ch rest hshort ih =>
      have hrest := ih fun other hother => h other (List.mem_cons_of_mem _ hother)
      by_cases hch : ch = '%'
      · subst hch
        rw [quote_cons, quote_cons, hpercent, List.singleton_append, List.singleton_append,
          normaliseEscapes_percent, hrest]
        intro first second more htext hfirst
        obtain ⟨tail, heq, htail⟩ := quote_hexDigit htext hfirst
        by_contra hsecond
        rw [Bool.not_eq_false] at hsecond
        obtain ⟨last, rfl, -⟩ := quote_hexDigit htail.symm hsecond
        exact hshort _ _ _ rfl heq
      · rw [quote_cons, quote_cons]
        by_cases hkeeps : isSafe safe ch = true
        · rw [quoteChar_safe hkeeps, List.singleton_append, List.singleton_append,
            normaliseEscapes_cons hch, hrest]
        · rw [normaliseEscapes_quoteChar (h ch List.mem_cons_self) hkeeps, hrest]
  | case4 => rfl

theorem robotsNormalise_quote (hsafe : KeepsForm safe) (text : Text) :
    robotsNormalise (quote safe text) = quote safe (robotsNormalise text) := by
  have hascii : encodeNonAscii (quote safe text) = quote safe text :=
    encodeNonAscii_of_ascii fun ch hch => isSafe_ascii hsafe (isSafe_of_mem_quote hsafe hch)
  rw [robotsNormalise, hascii, ← quote_encodeNonAscii hsafe,
    normaliseEscapes_quote hsafe (encodeNonAscii_ascii text), robotsNormalise]

/-- An unsafe character of a text stands in its form. -/
theorem mem_robotsNormalise (hsafe : KeepsForm safe) {text : Text} {ch : Char} (hmem : ch ∈ text)
    (hascii : ch.toNat < 128) (h : ¬ isSafe safe ch = true) : ch ∈ robotsNormalise text := by
  obtain ⟨before, after, rfl⟩ := List.append_of_mem hmem
  rw [isSafe, Bool.or_eq_true, not_or, decide_eq_true_eq] at h
  have hhex : isHexDigit ch = false :=
    Bool.eq_false_iff.mpr fun hhex => h.1 (isUnreserved_of_isHexDigit hhex)
  have hpercent : ch ≠ '%' := fun heq => h.2 (heq ▸ hsafe.percent)
  have hencoded : encodeNonAscii (before ++ ch :: after) = encodeNonAscii before
      ++ ch :: encodeNonAscii after := by
    rw [encodeNonAscii_append, encodeNonAscii, encodeNonAscii, List.flatMap_cons, if_pos hascii]
    rfl
  rw [robotsNormalise, hencoded, normaliseEscapes_append hhex, normaliseEscapes_cons hpercent]
  exact List.mem_append_right _ List.mem_cons_self

theorem length_le_quote (text : Text) : text.length ≤ (quote safe text).length := by
  induction text with
  | nil => exact le_rfl
  | cons ch text ih =>
      rw [quote_cons, List.length_append, List.length_cons]
      by_cases hsafe : isSafe safe ch = true
      · rw [quoteChar_safe hsafe, List.length_singleton]
        omega
      · obtain ⟨digits, hdigits⟩ := quoteChar_unsafe hsafe
        rw [hdigits, List.length_cons]
        omega

end

theorem pathSafe_keepsForm : KeepsForm pathSafe := ⟨by decide, forall_mem_of_all (by decide)⟩

theorem querySafe_keepsForm : KeepsForm querySafe := ⟨by decide, forall_mem_of_all (by decide)⟩

/-! ### Both forms of an address -/

/-- A path and a query as one address. -/
def joinQuery (path query : Text) : Text := path ++ if query ≠ [] then '?' :: query else []

theorem robotsNormalise_joinQuery (path query : Text) :
    robotsNormalise (joinQuery path query)
      = robotsNormalise path ++ if query ≠ [] then '?' :: robotsNormalise query else [] := by
  rw [joinQuery]
  by_cases hquery : query = []
  · simp [hquery]
  · rw [if_pos hquery, if_pos hquery, robotsNormalise, encodeNonAscii_append]
    have hmark : encodeNonAscii ('?' :: query) = '?' :: encodeNonAscii query := rfl
    rw [hmark, normaliseEscapes_append rfl, normaliseEscapes_cons (by decide)]
    rfl

/-- What stands for the path: the root where it is empty. -/
def rootedPath (parts : SplitResult) : Text := if parts.path ≠ [] then parts.path else ['/']

theorem quote_eq_nil {safe : List Char} {text : Text} : quote safe text = [] ↔ text = [] := by
  constructor
  · intro h
    have hlength := @length_le_quote safe text
    rw [h] at hlength
    exact List.length_eq_zero_iff.mp (Nat.le_zero.mp hlength)
  · intro h
    rw [h]
    rfl

theorem requestPath_eq (parts : SplitResult) :
    requestPath parts = joinQuery (quote pathSafe (rootedPath parts))
      (quote querySafe parts.query) := by
  rw [requestPath, joinQuery, rootedPath]
  by_cases hquery : parts.query = []
  · rw [if_neg (not_not.mpr hquery), if_neg (not_not.mpr (quote_eq_nil.mpr hquery))]
  · rw [if_pos hquery, if_pos (fun h => hquery (quote_eq_nil.mp h))]

/-! ### The address with the request line -/

theorem splitScheme_http (rest : Text) :
    splitScheme ("http://".toList ++ rest) = ("http".toList, "//".toList ++ rest) := by
  have hscheme : ("http://".toList ++ rest).takeWhile (· ≠ ':') = "http".toList := rfl
  unfold splitScheme
  rw [hscheme]
  dsimp only
  rw [if_pos ⟨by simp, rfl, rfl⟩]
  rfl

theorem splitScheme_https (rest : Text) :
    splitScheme ("https://".toList ++ rest) = ("https".toList, "//".toList ++ rest) := by
  have hscheme : ("https://".toList ++ rest).takeWhile (· ≠ ':') = "https".toList := rfl
  unfold splitScheme
  rw [hscheme]
  dsimp only
  rw [if_pos ⟨by simp, rfl, rfl⟩]
  rfl

theorem splitNetloc_eq (rest : Text) :
    splitNetloc ("//".toList ++ rest) = (rest.takeWhile isNetlocChar,
      rest.dropWhile isNetlocChar) := rfl

/-- What follows the host of an address, without its fragment. -/
def addressTail (url : Text) : Text :=
  (splitNetloc (splitScheme (stripControls url)).2).2.takeWhile (· ≠ '#')

theorem urlsplit_eq (url : Text) :
    urlsplit url =
      { scheme := (splitScheme (stripControls url)).1
        netloc := (splitNetloc (splitScheme (stripControls url)).2).1
        path := (addressTail url).takeWhile (· ≠ '?')
        query := ((addressTail url).dropWhile (· ≠ '?')).drop 1 } := rfl

theorem splitScheme_subset (url : Text) : (splitScheme url).2 ⊆ url := by
  unfold splitScheme
  dsimp only
  split_ifs
  · exact List.drop_subset _ _
  · exact List.Subset.refl _

theorem splitNetloc_spec (url : Text) :
    (∀ ch ∈ (splitNetloc url).1, isNetlocChar ch = true ∧ ch ∈ url) ∧ (splitNetloc url).2 ⊆ url
      ∧ ((splitNetloc url).1 ≠ [] → ∀ ch ∈ (splitNetloc url).2.head?, isNetlocChar ch = false) := by
  unfold splitNetloc
  split
  · next rest =>
      refine ⟨fun ch hch => ⟨List.mem_takeWhile_imp hch, ?_⟩, ?_, fun _ ch hch => ?_⟩
      · exact List.mem_cons_of_mem _ (List.mem_cons_of_mem _ ((List.takeWhile_prefix _).subset hch))
      · exact fun ch hch =>
          List.mem_cons_of_mem _ (List.mem_cons_of_mem _ ((List.dropWhile_suffix _).subset hch))
      · have hhead := List.head?_dropWhile_not isNetlocChar rest
        rw [Option.mem_def.mp hch] at hhead
        exact hhead
  · exact ⟨fun ch hch => absurd hch List.not_mem_nil, List.Subset.refl _, fun h => absurd rfl h⟩

theorem stripControls_subset (url : Text) : stripControls url ⊆ url :=
  fun _ hch => (List.dropWhile_suffix _).subset (List.mem_of_mem_filter hch)

theorem addressTail_subset (url : Text) : addressTail url ⊆ url := by
  intro ch hch
  have hrest := (splitNetloc_spec (splitScheme (stripControls url)).2).2.1
    ((List.takeWhile_prefix _).subset hch)
  exact stripControls_subset url (splitScheme_subset _ hrest)

theorem addressTail_plain (url : Text) : ∀ ch ∈ addressTail url, ch ≠ '#' := by
  intro ch hch
  simpa using List.mem_takeWhile_imp hch

theorem mem_path {url : Text} {ch : Char} (h : ch ∈ (urlsplit url).path) :
    ch ∈ addressTail url ∧ ch ≠ '?' := by
  rw [urlsplit_eq] at h
  exact ⟨(List.takeWhile_prefix _).subset h, by simpa using List.mem_takeWhile_imp h⟩

theorem mem_query {url : Text} {ch : Char} (h : ch ∈ (urlsplit url).query) :
    ch ∈ addressTail url := by
  rw [urlsplit_eq] at h
  exact (List.dropWhile_suffix _).subset (List.mem_of_mem_drop h)

/-- A path behind a host begins with a slash. -/
theorem rootedPath_head {url : Text} (hhost : (urlsplit url).netloc ≠ []) :
    ∃ rest, rootedPath (urlsplit url) = '/' :: rest := by
  rw [rootedPath]
  split_ifs with hpath
  · cases hrest : (splitNetloc (splitScheme (stripControls url)).2).2 with
    | nil =>
        exfalso
        apply hpath
        rw [urlsplit_eq, addressTail, hrest]
        rfl
    | cons first rest =>
        have hfirst := (splitNetloc_spec (splitScheme (stripControls url)).2).2.2 hhost first
          (by rw [hrest]; rfl)
        have htail : (urlsplit url).path
            = ((first :: rest).takeWhile (· ≠ '#')).takeWhile (· ≠ '?') := by
          rw [urlsplit_eq, addressTail, hrest]
        rw [isNetlocChar, decide_eq_false_iff_not, not_not] at hfirst
        simp only [List.mem_cons, List.not_mem_nil, or_false] at hfirst
        rcases hfirst with rfl | rfl | rfl
        · exact ⟨_, htail⟩
        · exact absurd htail hpath
        · exact absurd htail hpath
  · exact ⟨[], rfl⟩

theorem isSafe_visible {ch : Char} (h : isSafe pathSafe ch = true ∨ isSafe querySafe ch = true) :
    32 < ch.toNat ∧ ch ≠ '#' := by
  have hascii : ch.toNat < 128 :=
    h.elim (isSafe_ascii pathSafe_keepsForm) (isSafe_ascii querySafe_keepsForm)
  apply forall_ascii (p := fun ch => isSafe pathSafe ch = true ∨ isSafe querySafe ch = true →
    32 < ch.toNat ∧ ch ≠ '#')
    _ ch hascii h
  decide +kernel

theorem question_not_pathSafe : ¬ isSafe pathSafe '?' = true := by decide

theorem mem_requestPath {parts : SplitResult} {ch : Char} (h : ch ∈ requestPath parts) :
    32 < ch.toNat ∧ ch ≠ '#' := by
  rw [requestPath_eq, joinQuery] at h
  rcases List.mem_append.mp h with hpath | hquery
  · exact isSafe_visible (Or.inl (isSafe_of_mem_quote pathSafe_keepsForm hpath))
  · split_ifs at hquery
    · rcases List.mem_cons.mp hquery with rfl | hquery
      · decide
      · exact isSafe_visible (Or.inr (isSafe_of_mem_quote querySafe_keepsForm hquery))
    · cases hquery

theorem stripControls_visible {url : Text} (h : ∀ ch ∈ url, 32 < ch.toNat) :
    stripControls url = url := by
  have hdrop : (url.dropWhile fun ch => ch.toNat ≤ 32) = url := by
    cases url with
    | nil => rfl
    | cons ch rest =>
        apply List.dropWhile_cons_of_neg
        have := h ch List.mem_cons_self
        simp only [decide_eq_true_eq]
        omega
  rw [stripControls, hdrop, List.filter_eq_self]
  intro ch hch
  have hch := h ch hch
  rw [decide_eq_true_eq]
  rintro hcontrol
  simp only [List.mem_cons, List.not_mem_nil, or_false] at hcontrol
  rcases hcontrol with rfl | rfl | rfl <;> exact absurd hch (by decide)

theorem joinQuery_split {path query : Text} (h : ∀ ch ∈ path, ch ≠ '?') :
    (joinQuery path query).takeWhile (· ≠ '?') = path
      ∧ ((joinQuery path query).dropWhile (· ≠ '?')).drop 1 = query := by
  have hall : ∀ ch ∈ path, decide (ch ≠ '?') = true := fun ch hch => decide_eq_true (h ch hch)
  rw [joinQuery, List.takeWhile_append_of_pos hall, List.dropWhile_append_of_pos hall]
  by_cases hquery : query = []
  · simp [hquery]
  · simp [hquery]

/-- The address with the request line is the scheme, the host and the request line. -/
theorem addressTail_requestedUrl {url : Text} (h : Fetchable url) :
    addressTail (requestedUrl url) = requestPath (urlsplit url) := by
  obtain ⟨rest, hrooted⟩ := rootedPath_head h.host
  have hhead : ∃ more, requestPath (urlsplit url) = '/' :: more := by
    rw [requestPath_eq, hrooted]
    exact ⟨_, rfl⟩
  obtain ⟨more, hmore⟩ := hhead
  have hhost : ∀ ch ∈ (urlsplit url).netloc, isNetlocChar ch = true ∧ ch ∈ url := by
    intro ch hch
    obtain ⟨hnetloc, hmem⟩ := (splitNetloc_spec (splitScheme (stripControls url)).2).1 ch hch
    exact ⟨hnetloc, stripControls_subset url (splitScheme_subset _ hmem)⟩
  have hvisible : ∀ ch ∈ requestedUrl url, 32 < ch.toNat := by
    intro ch hch
    simp only [requestedUrl, List.mem_append] at hch
    rcases hch with ((hscheme | hslashes) | hnetloc) | hpath
    · have hscheme' := h.scheme
      simp only [List.mem_cons, List.not_mem_nil, or_false] at hscheme'
      rcases hscheme' with heq | heq <;> rw [heq] at hscheme
      · revert ch
        exact forall_mem_of_all (by decide)
      · revert ch
        exact forall_mem_of_all (by decide)
    · revert ch
      exact forall_mem_of_all (by decide)
    · have := List.all_eq_true.mp h.plain ch (hhost ch hnetloc).2
      rw [Bool.and_eq_true, decide_eq_true_eq] at this
      exact this.1
    · exact (mem_requestPath hpath).1
  have hsplit : (splitScheme (requestedUrl url)).2
      = "//".toList ++ ((urlsplit url).netloc ++ requestPath (urlsplit url)) := by
    have hscheme := h.scheme
    simp only [List.mem_cons, List.not_mem_nil, or_false] at hscheme
    rcases hscheme with heq | heq
    · rw [requestedUrl, heq]
      exact congrArg Prod.snd
        (splitScheme_http ((urlsplit url).netloc ++ requestPath (urlsplit url)))
    · rw [requestedUrl, heq]
      exact congrArg Prod.snd
        (splitScheme_https ((urlsplit url).netloc ++ requestPath (urlsplit url)))
  have hrest : (splitNetloc (splitScheme (requestedUrl url)).2).2 = requestPath (urlsplit url) := by
    rw [hsplit, splitNetloc_eq, List.dropWhile_append_of_pos fun ch hch => (hhost ch hch).1, hmore]
    rfl
  rw [addressTail, stripControls_visible hvisible, hrest, List.takeWhile_eq_self_iff]
  exact fun ch hch => decide_eq_true (mem_requestPath hch).2

/-- The request line is read back as it was written. -/
theorem urlsplit_requestedUrl {url : Text} (h : Fetchable url) :
    (urlsplit (requestedUrl url)).path = quote pathSafe (rootedPath (urlsplit url))
      ∧ (urlsplit (requestedUrl url)).query = quote querySafe (urlsplit url).query := by
  have hpath : ∀ ch ∈ quote pathSafe (rootedPath (urlsplit url)), ch ≠ '?' := by
    rintro ch hch rfl
    exact question_not_pathSafe (isSafe_of_mem_quote pathSafe_keepsForm hch)
  rw [urlsplit_eq (requestedUrl url), addressTail_requestedUrl h, requestPath_eq]
  exact joinQuery_split hpath

end Quorum
