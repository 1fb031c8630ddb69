import Quorum.BaseIsoDate
import Quorum.BaseJsonValue
import Quorum.RobotsAgreement

/-! Invite links (`invite_links`): a token of a link id and its last day, signed, and what reads it
back. The reader parses the day again and signs what it parsed, so that only a token it would have
written is accepted. -/

namespace Quorum

open IsoTime

def maxValidDays : ℕ := 90

def minKeyLength : ℕ := 32

/-- What a call raises, with its text. -/
inductive InviteError
  | valueError (message : Text)
  | overflowError (message : Text)
deriving DecidableEq

/-! ### Patterns -/

/-- A class of characters for each place of the text. -/
def fullmatch : List (Char → Bool) → Text → Bool
  | [], [] => true
  | allowed :: pattern, ch :: text => allowed ch && fullmatch pattern text
  | _, _ => false

def literal (text : Text) : List (Char → Bool) := text.map fun ch other => other == ch

/-- `[0-9a-f]`. -/
def isHexLower (ch : Char) : Bool := ch.isDigit || ('a' ≤ ch && ch ≤ 'f')

def linkIdPattern : List (Char → Bool) := List.replicate 12 isHexLower

def signaturePattern : List (Char → Bool) := List.replicate 64 isHexLower

theorem fullmatch_cons {allowed : Char → Bool} {pattern : List (Char → Bool)} {ch : Char}
    {text : Text} :
    fullmatch (allowed :: pattern) (ch :: text) = (allowed ch && fullmatch pattern text) := rfl

theorem length_of_fullmatch {pattern : List (Char → Bool)} {text : Text}
    (h : fullmatch pattern text = true) :
    text.length = pattern.length := by
  induction pattern generalizing text with
  | nil =>
      cases text with
      | nil => rfl
      | cons => exact nomatch h
  | cons allowed pattern ih =>
      cases text with
      | nil => exact nomatch h
      | cons ch text =>
          rw [fullmatch_cons, Bool.and_eq_true] at h
          rw [List.length_cons, List.length_cons, ih h.2]

theorem fullmatch_append {first second : List (Char → Bool)} {text : Text} :
    fullmatch (first ++ second) text = true
      ↔ ∃ front back, text = front ++ back ∧ fullmatch first front = true
          ∧ fullmatch second back = true := by
  induction first generalizing text with
  | nil =>
      refine ⟨fun h => ⟨[], text, rfl, rfl, h⟩, ?_⟩
      rintro ⟨front, back, rfl, hfront, hback⟩
      rw [List.eq_nil_of_length_eq_zero (length_of_fullmatch hfront)]
      exact hback
  | cons allowed first ih =>
      cases text with
      | nil =>
          refine iff_of_false (by rw [List.cons_append]; exact nofun) ?_
          rintro ⟨front, back, heq, hfront, -⟩
          rw [(List.append_eq_nil_iff.mp heq.symm).1] at hfront
          exact nomatch hfront
      | cons ch text =>
          rw [List.cons_append, fullmatch_cons, Bool.and_eq_true, ih]
          constructor
          · rintro ⟨hch, front, back, rfl, hfront, hback⟩
            refine ⟨ch :: front, back, rfl, ?_, hback⟩
            rw [fullmatch_cons, hch, hfront]
            rfl
          · rintro ⟨front, back, heq, hfront, hback⟩
            cases front with
            | nil => exact nomatch hfront
            | cons other front =>
                obtain ⟨rfl, rfl⟩ := List.cons.inj heq
                rw [fullmatch_cons, Bool.and_eq_true] at hfront
                exact ⟨hfront.1, front, back, rfl, hfront.2, hback⟩

theorem fullmatch_literal {word text : Text} : fullmatch (literal word) text = true
    ↔ text = word := by
  induction word generalizing text with
  | nil =>
      cases text with
      | nil => exact iff_of_true rfl rfl
      | cons => exact iff_of_false nofun nofun
  | cons letter word ih =>
      cases text with
      | nil => exact iff_of_false nofun nofun
      | cons ch text =>
          rw [literal, List.map_cons, fullmatch_cons, Bool.and_eq_true, beq_iff_eq, ← literal, ih,
            List.cons.injEq]

/-- A pattern that allows more matches more. -/
theorem fullmatch_mono {allowed wider : Char → Bool} (h : ∀ ch, allowed ch = true → wider ch = true)
    {text : Text} (hall : ∀ ch ∈ text, allowed ch = true) :
    fullmatch (List.replicate text.length wider) text = true := by
  induction text with
  | nil => rfl
  | cons ch text ih =>
      rw [List.length_cons, List.replicate_succ, fullmatch_cons, h ch (hall ch List.mem_cons_self),
        ih fun other hother => hall other (List.mem_cons_of_mem _ hother)]
      rfl

/-! ### The token -/

/-- The strings' methods, `\\d`, and HMAC-SHA256 in lower-case hex. -/
structure InviteTables extends TextTables where
  isDecimal : Char → Bool
  isDecimal_digit : ∀ ch : Char, ch.isDigit = true → isDecimal ch = true
  hexdigest : Text → Text → Text
  hexdigest_form : ∀ key message, fullmatch signaturePattern (hexdigest key message) = true

namespace InviteTables

variable (t : InviteTables)

/-- `\\d{4}-\\d{2}-\\d{2}`. -/
def datePattern : List (Char → Bool) :=
  List.replicate 4 t.isDecimal ++ (literal ['-'] ++ (List.replicate 2 t.isDecimal
    ++ (literal ['-'] ++ List.replicate 2 t.isDecimal)))

/-- `_TOKEN`. -/
def tokenPattern : List (Char → Bool) :=
  literal ['v', '1', '.']
    ++ (linkIdPattern ++ (literal ['.'] ++ (t.datePattern ++ (literal ['.'] ++ signaturePattern))))

/-- What is signed: the version, the id and the last day. -/
def message (linkId : Text) (untilDay : Date) : Text :=
  ['v', '1', '.'] ++ (linkId ++ (['.'] ++ dateText untilDay))

/-- `_signature`. -/
def signature (key linkId : Text) (untilDay : Date) : Text :=
  t.hexdigest key (message linkId untilDay)

/-- `mint_token`. -/
def mintToken (key linkId : Text) (untilDay today : Date) : Except InviteError Text :=
  if key.length < minKeyLength then
    .error (.valueError "the signing key must have at least 32 characters".toList)
  else if fullmatch linkIdPattern linkId = false then
    .error (.valueError "a link id is 12 lower-case hex digits".toList)
  else if untilDay < today then .error (.valueError "that end date has already passed".toList)
  else
    match today.addDays maxValidDays with
    | none => .error (.overflowError "date value out of range".toList)
    | some latest =>
        if latest < untilDay then
          .error (.valueError "an invite link can last at most 90 days".toList)
        else .ok (message linkId untilDay ++ (['.'] ++ t.signature key linkId untilDay))

/-- The groups of `_TOKEN`. A lone surrogate is in no class of the pattern. -/
def tokenGroups (token : List CodePoint) : Option (Text × Text × Text) :=
  (characters token).bind fun text =>
    if fullmatch t.tokenPattern text then some ((text.drop 3).take 12,
      (text.drop 16).take 10, text.drop 27)
    else none

/-- What is checked of a token whose signature holds. -/
def currentLink (linkId : Text) (untilDay : Date) (revoked : List Text) (today : Date) :
    Except InviteError (Option Text) :=
  if untilDay < today then .ok none
  else
    match today.addDays maxValidDays with
    | none => .error (.overflowError "date value out of range".toList)
    | some latest =>
        if latest < untilDay then .ok none
        else if linkId ∈ revoked then .ok none
        else .ok (some linkId)

/-- `verify_token`. -/
def verifyToken (token : List CodePoint) (key : Text) (revoked : List Text) (today : Date) :
    Except InviteError (Option Text) :=
  if key.length < minKeyLength then .ok none
  else
    match t.tokenGroups token with
    | none => .ok none
    | some (linkId, untilText, presented) =>
        match dateFromisoformat untilText with
        | none => .ok none
        | some untilDay =>
            if presented = t.signature key linkId untilDay then
              currentLink linkId untilDay revoked today
            else .ok none

/-- The token of an id and a last day. -/
def tokenText (key linkId : Text) (untilDay : Date) : Text :=
  message linkId untilDay ++ (['.'] ++ t.signature key linkId untilDay)

/-! ### What is a token -/

/-- The parts of a matched token. -/
structure TokenParts (linkId untilText presented : Text) : Prop where
  linkId : fullmatch linkIdPattern linkId = true
  untilText : fullmatch t.datePattern untilText = true
  presented : fullmatch signaturePattern presented = true

theorem groups_of_parts {linkId untilText presented : Text}
    (h : t.TokenParts linkId untilText presented) :
    let text := ['v', '1', '.'] ++ (linkId ++ (['.'] ++ (untilText ++ (['.'] ++ presented))))
    (text.drop 3).take 12 = linkId ∧ (text.drop 16).take 10 = untilText
    ∧ text.drop 27 = presented := by
  have hid : linkId.length = 12 := length_of_fullmatch h.linkId
  have huntil : untilText.length = 10 := length_of_fullmatch h.untilText
  refine ⟨?_, ?_, ?_⟩
  · change (linkId ++ (['.'] ++ (untilText ++ (['.'] ++ presented)))).take 12 = linkId
    exact List.take_left' hid
  · rw [← List.append_assoc, ← List.append_assoc, List.drop_left' (by simp [hid]),
      List.take_left' huntil]
  · rw [← List.append_assoc, ← List.append_assoc, ← List.append_assoc, ← List.append_assoc,
      List.drop_left' (by simp [hid, huntil])]

theorem fullmatch_tokenPattern {text : Text} :
    fullmatch t.tokenPattern text = true
      ↔ ∃ linkId untilText presented, t.TokenParts linkId untilText presented
        ∧ text = ['v', '1', '.'] ++ (linkId ++ (['.'] ++ (untilText ++ (['.'] ++ presented)))) := by
  constructor
  · intro h
    obtain ⟨version, rest, rfl, hversion, h⟩ := fullmatch_append.mp h
    obtain ⟨linkId, rest, rfl, hid, h⟩ := fullmatch_append.mp h
    obtain ⟨dot, rest, rfl, hdot, h⟩ := fullmatch_append.mp h
    obtain ⟨untilText, rest, rfl, huntil, h⟩ := fullmatch_append.mp h
    obtain ⟨point, presented, rfl, hpoint, h⟩ := fullmatch_append.mp h
    rw [fullmatch_literal] at hversion hdot hpoint
    exact ⟨linkId, untilText, presented, ⟨hid, huntil, h⟩, by rw [hversion, hdot, hpoint]⟩
  · rintro ⟨linkId, untilText, presented, h, rfl⟩
    refine fullmatch_append.mpr ⟨_, _, rfl, fullmatch_literal.mpr rfl, ?_⟩
    refine fullmatch_append.mpr ⟨_, _, rfl, h.linkId, ?_⟩
    refine fullmatch_append.mpr ⟨_, _, rfl, fullmatch_literal.mpr rfl, ?_⟩
    refine fullmatch_append.mpr ⟨_, _, rfl, h.untilText, ?_⟩
    exact fullmatch_append.mpr ⟨_, _, rfl, fullmatch_literal.mpr rfl, h.presented⟩

theorem tokenGroups_eq_some_iff {token : List CodePoint} {linkId untilText presented : Text} :
    t.tokenGroups token = some (linkId, untilText, presented)
      ↔ t.TokenParts linkId untilText presented
        ∧ token = ofText (['v', '1', '.']
            ++ (linkId ++ (['.'] ++ (untilText ++ (['.'] ++ presented))))) := by
  rw [tokenGroups, Option.bind_eq_some_iff]
  constructor
  · rintro ⟨text, htext, h⟩
    rw [characters_eq_some_iff] at htext
    split_ifs at h with hmatch
    obtain ⟨id, day, mac, hparts, rfl⟩ := t.fullmatch_tokenPattern.mp hmatch
    obtain ⟨hid, hday, hmac⟩ := t.groups_of_parts hparts
    rw [hid, hday, hmac] at h
    obtain ⟨rfl, hrest⟩ := Prod.mk.inj (Option.some.inj h)
    obtain ⟨rfl, rfl⟩ := Prod.mk.inj hrest
    exact ⟨hparts, htext⟩
  · rintro ⟨hparts, rfl⟩
    refine ⟨_, characters_eq_some_iff.mpr rfl, ?_⟩
    obtain ⟨hid, hday, hmac⟩ := t.groups_of_parts hparts
    rw [if_pos (t.fullmatch_tokenPattern.mpr ⟨_, _, _, hparts, rfl⟩), hid, hday, hmac]

/-- The text of a date matches the date pattern: an ASCII digit is a decimal. -/
theorem fullmatch_dateText (date : Date) : fullmatch t.datePattern (dateText date) = true := by
  obtain ⟨hvalid, -⟩ := validFields_of_day date
  obtain ⟨hyear, hmonth, hday⟩ := hvalid.lt_pow
  have hpad : ∀ width n, n < 10 ^ width →
      fullmatch (List.replicate width t.isDecimal) (pad width n) = true := by
    intro width n hn
    have hmatch := fullmatch_mono t.isDecimal_digit (isDigit_pad width n hn)
    rw [length_pad] at hmatch
    exact hmatch
  refine fullmatch_append.mpr ⟨_, _, rfl, hpad 4 _ hyear, ?_⟩
  refine fullmatch_append.mpr ⟨['-'], _, rfl, rfl, ?_⟩
  refine fullmatch_append.mpr ⟨_, _, rfl, hpad 2 _ hmonth, ?_⟩
  exact fullmatch_append.mpr ⟨['-'], _, rfl, rfl, hpad 2 _ hday⟩

/-- A token that the signing would write for an id and a last day. -/
structure Signed (token : List CodePoint) (key linkId : Text) (untilDay : Date) : Prop where
  longKey : minKeyLength ≤ key.length
  idForm : fullmatch linkIdPattern linkId = true
  written : token = ofText (t.tokenText key linkId untilDay)

theorem tokenText_eq (key linkId : Text) (untilDay : Date) :
    t.tokenText key linkId untilDay
      = ['v', '1', '.'] ++ (linkId
          ++ (['.'] ++ (dateText untilDay ++ (['.'] ++ t.signature key linkId untilDay)))) := by
  rw [tokenText, message, List.append_assoc, List.append_assoc, List.append_assoc]

/-! ### Reading a token -/

section
variable {t}
variable {token : List CodePoint} {key linkId : Text} {untilDay today : Date} {revoked : List Text}

theorem Signed.tokenGroups (h : t.Signed token key linkId untilDay) :
    t.tokenGroups token = some (linkId, dateText untilDay, t.signature key linkId untilDay) := by
  refine t.tokenGroups_eq_some_iff.mpr ⟨⟨h.idForm, t.fullmatch_dateText untilDay,
    t.hexdigest_form _ _⟩, ?_⟩
  rw [h.written, tokenText_eq]

/-- Of a signed token the day and the list of revoked ids are checked. -/
theorem Signed.verifyToken (h : t.Signed token key linkId untilDay) :
    t.verifyToken token key revoked today = currentLink linkId untilDay revoked today := by
  rw [InviteTables.verifyToken, if_neg (Nat.not_lt_of_le h.longKey), h.tokenGroups]
  simp only [dateFromisoformat_dateText, if_true]

/-- Any other string is refused. -/
theorem verifyToken_unsigned (h : ∀ linkId untilDay, ¬ t.Signed token key linkId untilDay) :
    t.verifyToken token key revoked today = .ok none := by
  rw [verifyToken]
  split_ifs with hkey
  · rfl
  · cases hgroups : t.tokenGroups token with
    | none => rfl
    | some groups =>
        obtain ⟨linkId, untilText, presented⟩ := groups
        obtain ⟨hparts, htoken⟩ := t.tokenGroups_eq_some_iff.mp hgroups
        dsimp only
        cases hday : dateFromisoformat untilText with
        | none => rfl
        | some untilDay =>
            dsimp only
            split_ifs with hsigned
            · refine absurd ⟨Nat.le_of_not_lt hkey, hparts.linkId, ?_⟩ (h linkId untilDay)
              rw [htoken, tokenText_eq, dateText_of_dateFromisoformat hday, hsigned]
            · rfl

theorem verifyToken_cases (token : List CodePoint) (key : Text) (revoked : List Text)
    (today : Date) :
    (∃ linkId untilDay, t.Signed token key linkId untilDay
        ∧ t.verifyToken token key revoked today = currentLink linkId untilDay revoked today)
      ∨ (∀ linkId untilDay, ¬ t.Signed token key linkId untilDay)
        ∧ t.verifyToken token key revoked today = .ok none := by
  by_cases h : ∃ linkId untilDay, t.Signed token key linkId untilDay
  · obtain ⟨linkId, untilDay, h⟩ := h
    exact Or.inl ⟨linkId, untilDay, h, h.verifyToken⟩
  · have hnone : ∀ linkId untilDay, ¬ t.Signed token key linkId untilDay :=
      fun linkId untilDay hsigned => h ⟨linkId, untilDay, hsigned⟩
    exact Or.inr ⟨hnone, verifyToken_unsigned hnone⟩

/-- A token is signed for one id and one last day. -/
theorem Signed.unique {otherId : Text} {otherDay : Date} (h : t.Signed token key linkId untilDay)
    (hother : t.Signed token key otherId otherDay) : linkId = otherId ∧ untilDay = otherDay := by
  have hgroups := h.tokenGroups.symm.trans hother.tokenGroups
  obtain ⟨hid, hrest⟩ := Prod.mk.inj (Option.some.inj hgroups)
  exact ⟨hid, dateText_injective (Prod.mk.inj hrest).1⟩

/-! ### The days -/

/-- A day on which the bound of a link that has not ended is past the calendar. -/
def BoundOverflows (untilDay today : Date) : Prop :=
  today ≤ untilDay ∧ maxDays ≤ today.val + maxValidDays

theorem currentLink_overflow (h : BoundOverflows untilDay today) :
    currentLink linkId untilDay revoked today
      = .error (.overflowError "date value out of range".toList) := by
  rw [currentLink, if_neg (not_lt_of_ge h.1), Date.addDays_eq_none_iff.mpr h.2]

theorem currentLink_ok (h : ¬ BoundOverflows untilDay today) :
    currentLink linkId untilDay revoked today
      = .ok (if today ≤ untilDay ∧ untilDay.val ≤ today.val + maxValidDays
          ∧ linkId ∉ revoked then some linkId
        else none) := by
  rw [currentLink]
  by_cases hpast : untilDay < today
  · rw [if_pos hpast, if_neg fun hlink => absurd hpast (not_lt_of_ge hlink.1)]
  · have hroom : today.val + maxValidDays < maxDays :=
      Nat.lt_of_not_le fun hmax => h ⟨le_of_not_gt hpast, hmax⟩
    have hlatest : today.addDays maxValidDays = some ⟨_, hroom⟩ := Date.addDays_eq_some_iff.mpr rfl
    rw [if_neg hpast, hlatest]
    dsimp only
    by_cases hfar : (⟨_, hroom⟩ : Date) < untilDay
    · rw [if_pos hfar, if_neg fun hlink => absurd (Fin.lt_def.mp hfar) (Nat.not_lt_of_le hlink.2.1)]
    · have hnear : untilDay.val ≤ today.val + maxValidDays := Fin.le_def.mp (le_of_not_gt hfar)
      rw [if_neg hfar]
      by_cases hrevoked : linkId ∈ revoked
      · rw [if_pos hrevoked, if_neg fun hlink => hlink.2.2 hrevoked]
      · rw [if_neg hrevoked, if_pos ⟨le_of_not_gt hpast, hnear, hrevoked⟩]

/-- What the minting writes, and for which ids and days. -/
theorem mintToken_eq_ok_iff {text : Text} :
    t.mintToken key linkId untilDay today = .ok text
      ↔ minKeyLength ≤ key.length ∧ fullmatch linkIdPattern linkId = true ∧ today ≤ untilDay
        ∧ untilDay.val ≤ today.val + maxValidDays ∧ today.val + maxValidDays < maxDays
        ∧ text = t.tokenText key linkId untilDay := by
  rw [mintToken]
  split_ifs with hkey hid hpast
  · exact iff_of_false (fun h => by cases h) fun h => absurd h.1 (Nat.not_le_of_lt hkey)
  · exact iff_of_false (fun h => by cases h) fun h =>
      absurd h.2.1 (by rw [hid]; exact Bool.false_ne_true)
  · exact iff_of_false (fun h => by cases h) fun h => absurd h.2.2.1 (not_le_of_gt hpast)
  · rw [Bool.not_eq_false] at hid
    cases hlatest : today.addDays maxValidDays with
    | none =>
        exact iff_of_false (fun h => by cases h) fun h =>
          absurd h.2.2.2.2.1 (Nat.not_lt_of_le (Date.addDays_eq_none_iff.mp hlatest))
    | some latest =>
        have hval := Date.addDays_eq_some_iff.mp hlatest
        have hroom : today.val + maxValidDays < maxDays := hval ▸ latest.isLt
        dsimp only
        split_ifs with hfar
        · exact iff_of_false (fun h => by cases h) fun h =>
            absurd (Fin.lt_def.mp hfar) (Nat.not_lt_of_le (h.2.2.2.1.trans_eq hval.symm))
        · rw [Except.ok.injEq]
          exact ⟨fun h => ⟨Nat.le_of_not_lt hkey, hid, le_of_not_gt hpast,
            (Fin.le_def.mp (le_of_not_gt hfar)).trans_eq hval, hroom, h.symm⟩,
              fun h => h.2.2.2.2.2.symm⟩

theorem Signed.of_minted {text : Text} (h : t.mintToken key linkId untilDay today = .ok text)
    (htoken : token = ofText text) : t.Signed token key linkId untilDay := by
  obtain ⟨hkey, hid, -, -, -, rfl⟩ := mintToken_eq_ok_iff.mp h
  exact ⟨hkey, hid, htoken⟩

end

/-! ### The tokens -/

/-- What a string is under a key on a day: a minted token names its link up to its last day unless
it is revoked, no string raises, and only a token that would be written names a link. -/
structure TokenSound (token : List CodePoint) (key : Text) (revoked : List Text)
    (today : Date) : Prop where
  minted : ∀ linkId untilDay mintDay text, t.mintToken key linkId untilDay mintDay = .ok text →
    token = ofText text → mintDay ≤ today →
    t.verifyToken token key revoked today
      = .ok (if today ≤ untilDay ∧ linkId ∉ revoked then some linkId else none)
  answers : ∃ result, t.verifyToken token key revoked today = .ok result
  accepted : ∀ linkId, t.verifyToken token key revoked today = .ok (some linkId) →
    ∃ untilDay text, t.mintToken key linkId untilDay today = .ok text ∧ token = ofText text

section
variable {t}
variable {token : List CodePoint} {key linkId : Text} {untilDay today : Date} {revoked : List Text}

theorem tokenSound_of_unsigned (h : ∀ linkId untilDay, ¬ t.Signed token key linkId untilDay) :
    t.TokenSound token key revoked today := by
  have hnone := @verifyToken_unsigned t token key today revoked h
  refine ⟨?_, ⟨none, hnone⟩, ?_⟩
  · intro linkId untilDay mintDay text hmint htoken _
    exact absurd (Signed.of_minted hmint htoken) (h linkId untilDay)
  · intro linkId haccept
    rw [hnone] at haccept
    exact nomatch Except.ok.inj haccept

theorem Signed.tokenSound (h : t.Signed token key linkId untilDay)
    (hbound : ¬ BoundOverflows untilDay today) :
    t.TokenSound token key revoked today := by
  have hcurrent := h.verifyToken.trans (@currentLink_ok linkId untilDay today revoked hbound)
  refine ⟨?_, ⟨_, hcurrent⟩, ?_⟩
  · intro otherId otherDay mintDay text hmint htoken hday
    obtain ⟨rfl, rfl⟩ := h.unique (Signed.of_minted hmint htoken)
    obtain ⟨-, -, -, hfar, -, -⟩ := mintToken_eq_ok_iff.mp hmint
    have hnear : untilDay.val ≤ today.val + maxValidDays :=
      hfar.trans (Nat.add_le_add_right (Fin.le_def.mp hday) _)
    rw [hcurrent]
    refine congrArg Except.ok (if_congr ?_ rfl rfl)
    exact ⟨fun hlink => ⟨hlink.1, hlink.2.2⟩, fun hlink => ⟨hlink.1, hnear, hlink.2⟩⟩
  · intro otherId haccept
    rw [hcurrent, Except.ok.injEq] at haccept
    split_ifs at haccept with hlink
    obtain rfl := Option.some.inj haccept
    have hroom : today.val + maxValidDays < maxDays :=
      Nat.lt_of_not_le fun hmax => hbound ⟨hlink.1, hmax⟩
    exact ⟨untilDay, _,
      mintToken_eq_ok_iff.mpr ⟨h.longKey, h.idForm, hlink.1, hlink.2.1, hroom, rfl⟩, h.written⟩

end

/-- A string is sound on every day, but a signed token that has not ended is not in the calendar's
last 90 days. -/
theorem tokenSound_iff (token : List CodePoint) (key : Text) (revoked : List Text) (today : Date) :
    t.TokenSound token key revoked today
      ↔ ∀ linkId untilDay, t.Signed token key linkId untilDay →
          ¬ BoundOverflows untilDay today := by
  constructor
  · intro hsound linkId untilDay hsigned hbound
    obtain ⟨result, hresult⟩ := hsound.answers
    rw [hsigned.verifyToken, currentLink_overflow hbound] at hresult
    exact nomatch hresult
  · intro h
    rcases @verifyToken_cases t token key revoked today with ⟨linkId,
      untilDay, hsigned, -⟩ | ⟨hnone, -⟩
    · exact hsigned.tokenSound (h linkId untilDay hsigned)
    · exact tokenSound_of_unsigned hnone

def sampleKey : Text := List.replicate 32 'k'

def sampleLinkId : Text := "0123456789ab".toList

/-- The digest of `v1.0123456789ab.9999-12-31` under the sample key. -/
def sampleDigest : Text := "fceedc2148f9544e922dddbc969ea3de81963c462dede779686ec955e0fdd59c".toList

theorem sampleDigest_form : fullmatch signaturePattern sampleDigest = true := by
  unfold sampleDigest
  rw [String.toList_ofList]
  rfl

/-- The last date of the calendar. -/
def lastDate : Date := ⟨maxDays - 1, by decide⟩

/-- 9999-10-02, the last day of minting. -/
def lastMintDay : Date := ⟨maxDays - 1 - maxValidDays, by decide⟩

/-- 9999-10-03. -/
def dayAfterMinting : Date := ⟨maxDays - maxValidDays, by decide⟩

/-- The tables on ASCII, and the digest of the one message. -/
def sampleTables : InviteTables :=
  { TextTables.asciiTables with
    isDecimal := Char.isDigit
    isDecimal_digit := fun _ h => h
    hexdigest := fun key text =>
      if key = sampleKey ∧ text = message sampleLinkId lastDate then sampleDigest
      else List.replicate 64 '0'
    hexdigest_form := by
      intro key text
      split_ifs
      · exact sampleDigest_form
      · rfl }

theorem sampleLinkId_form : fullmatch linkIdPattern sampleLinkId = true := by
  unfold sampleLinkId
  rw [String.toList_ofList]
  rfl

/-- A link minted on 9999-10-02 for the last day of the calendar raises on the next day. -/
theorem verifyToken_overflows :
    ∃ text, sampleTables.mintToken sampleKey sampleLinkId lastDate lastMintDay = .ok text
      ∧ sampleTables.verifyToken (ofText text) sampleKey [] dayAfterMinting
        = .error (.overflowError "date value out of range".toList)
      ∧ ¬ sampleTables.TokenSound (ofText text) sampleKey [] dayAfterMinting := by
  have hmint : sampleTables.mintToken sampleKey sampleLinkId lastDate lastMintDay
      = .ok (sampleTables.tokenText sampleKey sampleLinkId lastDate) :=
    mintToken_eq_ok_iff.mpr ⟨by decide, sampleLinkId_form, by decide, by decide, by decide, rfl⟩
  have hsigned := Signed.of_minted hmint rfl
  have hraises := hsigned.verifyToken.trans
    (@currentLink_overflow sampleLinkId lastDate dayAfterMinting [] ⟨by decide, by decide⟩)
  refine ⟨_, hmint, hraises, fun hsound => ?_⟩
  obtain ⟨result, hresult⟩ := hsound.answers
  rw [hraises] at hresult
  exact nomatch hresult

end InviteTables

/-! ### Revoked ids -/

namespace TextTables

variable (p : TextTables)

/-- The items of `INVITE_LINK_REVOKED_IDS` from a position on. -/
def revokedItems : ℕ → List Text → Except InviteError (List Text)
  | _, [] => .ok []
  | position, linkId :: ids =>
      if fullmatch linkIdPattern linkId then (revokedItems (position + 1) ids).map (linkId :: ·)
      else
        .error (.valueError ("INVITE_LINK_REVOKED_IDS item ".toList ++ (toString position).toList
          ++ " is not a link id (12 hex digits)".toList))

/-- `parse_revoked_ids`. -/
def parseRevokedIds (raw : Text) : Except InviteError (List Text) :=
  if p.strip raw = [] then .ok []
  else revokedItems 1 ((raw.splitOn ',').map fun part => p.lower (p.strip part))

theorem revokedItems_eq_ok_iff {ids revoked : List Text} :
    ∀ {position}, revokedItems position ids = .ok revoked
      ↔ revoked = ids ∧ ∀ linkId ∈ ids, fullmatch linkIdPattern linkId = true := by
  induction ids generalizing revoked with
  | nil =>
      intro position
      rw [revokedItems, Except.ok.injEq]
      exact ⟨fun h => ⟨h.symm, fun _ hmem => nomatch hmem⟩, fun h => h.1.symm⟩
  | cons linkId ids ih =>
      intro position
      rw [revokedItems]
      split_ifs with hid
      · rw [List.forall_mem_cons]
        constructor
        · intro h
          cases hrest : revokedItems (position + 1) ids with
          | error message =>
              rw [hrest] at h
              exact nomatch h
          | ok rest =>
              rw [hrest] at h
              obtain ⟨rfl, hall⟩ := ih.mp hrest
              exact ⟨(Except.ok.inj h).symm, hid, hall⟩
        · rintro ⟨rfl, -, hall⟩
          rw [ih.mpr ⟨rfl, hall⟩]
          rfl
      · refine iff_of_false nofun fun h => ?_
        exact hid (h.2 linkId List.mem_cons_self)

/-- A list that is read revokes its items and nothing else, and each is a link id. -/
theorem parseRevokedIds_items {raw : Text} {revoked : List Text}
    (h : p.parseRevokedIds raw = .ok revoked) :
    (∀ linkId ∈ revoked, fullmatch linkIdPattern linkId = true)
      ∧ (p.strip raw ≠ [] → revoked = (raw.splitOn ',').map fun part =>
          p.lower (p.strip part)) := by
  rw [parseRevokedIds] at h
  split_ifs at h with hblank
  · rw [← Except.ok.inj h]
    exact ⟨fun _ hmem => absurd hmem List.not_mem_nil, fun hitems => absurd hblank hitems⟩
  · obtain ⟨rfl, hall⟩ := revokedItems_eq_ok_iff.mp h
    exact ⟨hall, fun _ => rfl⟩

end TextTables

end Quorum
