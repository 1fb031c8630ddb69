import Quorum.RobotsRequest

/-! When the verdict on an address is the verdict on what is requested: exactly when every ASCII
character of its path and query stands on the request line as it is, or the address is too long to
be judged. -/

namespace Quorum

open Glob

/-! ### Both targets -/

/-- What robots.txt is matched against. -/
abbrev target (url : Text) : Text :=
  robotsTarget (fun url => ((urlsplit url).path, (urlsplit url).query)) url

theorem target_eq (url : Text) :
    target url = robotsNormalise (rootedPath (urlsplit url))
      ++ if (urlsplit url).query ≠ [] then '?' :: robotsNormalise (urlsplit url).query else [] :=
  robotsNormalise_joinQuery _ _

/-- What is requested is the target, quoted. -/
theorem target_requestedUrl {url : Text} (h : Fetchable url) :
    target (requestedUrl url) = quote pathSafe (robotsNormalise (rootedPath (urlsplit url)))
      ++ if (urlsplit url).query ≠ [] then '?' :: quote querySafe
        (robotsNormalise (urlsplit url).query) else [] := by
  obtain ⟨hpath, hquery⟩ := urlsplit_requestedUrl h
  have hrooted : rootedPath (urlsplit (requestedUrl url))
      = quote pathSafe (rootedPath (urlsplit url)) := by
    have hne : quote pathSafe (rootedPath (urlsplit url)) ≠ [] := by
      rw [Ne, quote_eq_nil]
      obtain ⟨rest, hrest⟩ := rootedPath_head h.host
      rw [hrest]
      exact List.cons_ne_nil _ _
    rw [rootedPath, hpath, if_pos hne]
  rw [target_eq, hrooted, hquery, robotsNormalise_quote pathSafe_keepsForm,
    robotsNormalise_quote querySafe_keepsForm]
  by_cases hnil : (urlsplit url).query = []
  · rw [if_neg (not_not.mpr (quote_eq_nil.mpr hnil)), if_neg (not_not.mpr hnil)]
  · rw [if_pos (fun heq => hnil (quote_eq_nil.mp heq)), if_pos hnil]

theorem target_le {url : Text} (h : Fetchable url) :
    (target url).length ≤ (target (requestedUrl url)).length := by
  rw [target_requestedUrl h, target_eq, List.length_append, List.length_append]
  have hpath := @length_le_quote pathSafe (robotsNormalise (rootedPath (urlsplit url)))
  have hquery := @length_le_quote querySafe (robotsNormalise (urlsplit url).query)
  split_ifs
  · simp only [List.length_cons]
    omega
  · omega

/-- A text that is sent as it is read has the form that is requested. -/
theorem quote_sent {safe : List Char} (hsafe : KeepsForm safe) {text : Text}
    (h : ∀ ch ∈ text, ch.toNat < 128 → isSafe safe ch = true) :
    quote safe (robotsNormalise text) = robotsNormalise text := by
  have hquote : quote safe text = encodeNonAscii text := by
    apply List.flatMap_congr
    intro ch hch
    rw [quoteChar]
    by_cases hascii : ch.toNat < 128
    · rw [if_pos hascii, if_pos (h ch hch hascii)]
    · rw [if_neg hascii, if_neg fun hkept => hascii (isSafe_ascii hsafe hkept)]
  rw [← robotsNormalise_quote hsafe, hquote, robotsNormalise,
    encodeNonAscii_of_ascii (encodeNonAscii_ascii text), robotsNormalise]

/-- An address that is sent as it is read is requested as it is judged. -/
theorem target_sentAsRead {url : Text} (h : Fetchable url) (hsent : SentAsRead url) :
    target (requestedUrl url) = target url := by
  have hrooted : ∀ ch ∈ rootedPath (urlsplit url), ch.toNat < 128 → isSafe pathSafe ch = true := by
    intro ch hch
    rw [rootedPath] at hch
    split_ifs at hch
    · exact hsent.1 ch hch
    · rw [List.mem_singleton.mp hch]
      decide
  rw [target_requestedUrl h, target_eq, quote_sent pathSafe_keepsForm hrooted,
    quote_sent querySafe_keepsForm hsent.2]

/-! ### A file that tells the two apart -/

/-- What is assumed of `str.strip` and `str.lower`: what they say of ASCII. -/
structure TextTables.OnAscii (t : TextTables) : Prop where
  lower : ∀ text, (∀ ch ∈ text, ch.toNat < 128) → t.lower text = text.map Char.toLower
  blank : t.isspace ' ' = true
  visible : ∀ ch : Char, 32 < ch.toNat → ch.toNat < 127 → t.isspace ch = false

/-- The characters of an address that a path or a query of the request line encodes. -/
def encodedChars : List Char := "\"'<>[\\]^`".toList ++ ['{', '|', '}']

/-- A file that lets no one fetch what a pattern matches. -/
def disallowing (pattern : Text) : Text := "User-agent: *\nDisallow: ".toList ++ pattern

/-- A character of the path, or one of the query. -/
def patternsFor (ch : Char) : List Text := [['*', ch], ['*', '?', '*', ch]]

section
variable {t : TextTables}

theorem dropWhile_congr {p q : Char → Bool} {text : Text} (h : ∀ ch ∈ text, p ch = q ch) :
    text.dropWhile p = text.dropWhile q := by
  induction text with
  | nil => rfl
  | cons ch text ih =>
      rw [List.dropWhile_cons, List.dropWhile_cons, h ch List.mem_cons_self,
        ih fun other hother => h other (List.mem_cons_of_mem _ hother)]

/-- On lines of printable ASCII the tables are those of ASCII. -/
def IsPrintable (text : Text) : Prop := ∀ ch ∈ text, 32 ≤ ch.toNat ∧ ch.toNat < 127

theorem isspace_printable (ht : t.OnAscii) {ch : Char} (h : 32 ≤ ch.toNat ∧ ch.toNat < 127) :
    t.isspace ch = TextTables.asciiTables.isspace ch := by
  by_cases hblank : ch = ' '
  · rw [hblank, ht.blank]
    rfl
  · have hascii : 32 < ch.toNat ∧ TextTables.asciiTables.isspace ch = false := by
      apply forall_ascii (p := fun ch => 32 ≤ ch.toNat → ch ≠ ' '
        → 32 < ch.toNat ∧ TextTables.asciiTables.isspace ch = false) _ ch (by omega) h.1 hblank
      decide +kernel
    rw [ht.visible ch hascii.1 h.2, hascii.2]

theorem strip_printable (ht : t.OnAscii) {text : Text} (h : IsPrintable text) :
    t.strip text = TextTables.asciiTables.strip text := by
  have hleft : t.lstrip text = TextTables.asciiTables.lstrip text :=
    dropWhile_congr fun ch hch => isspace_printable ht (h ch hch)
  rw [TextTables.strip, TextTables.strip, hleft, TextTables.rstrip, TextTables.rstrip,
    List.rdropWhile, List.rdropWhile]
  congr 1
  apply dropWhile_congr
  intro ch hch
  exact isspace_printable ht (h ch ((List.dropWhile_suffix _).subset (List.mem_reverse.mp hch)))

theorem strip_subset (t : TextTables) (text : Text) : t.strip text ⊆ text :=
  fun _ hch => (List.dropWhile_suffix _).subset ((List.rdropWhile_prefix _ _).subset hch)

theorem directive_printable (ht : t.OnAscii) {line : Text} (h : IsPrintable line) :
    directive t line = directive TextTables.asciiTables line := by
  have hpart : ∀ part, part ⊆ line → t.strip part = TextTables.asciiTables.strip part
      ∧ t.lower (t.strip part)
          = TextTables.asciiTables.lower (TextTables.asciiTables.strip part) := by
    intro part hsubset
    have hstrip := @strip_printable t ht part fun ch hch => h ch (hsubset hch)
    refine ⟨hstrip, ?_⟩
    rw [ht.lower, hstrip]
    · rfl
    · intro ch hch
      have := h ch (hsubset (strip_subset t part hch))
      omega
  have hline : line.takeWhile (· ≠ '#') ⊆ line := (List.takeWhile_prefix _).subset
  have hkey := (hpart ((line.takeWhile (· ≠ '#')).takeWhile (· ≠ ':'))
    (List.Subset.trans (List.takeWhile_prefix _).subset hline)).2
  have hvalue := (hpart (((line.takeWhile (· ≠ '#')).dropWhile (· ≠ ':')).drop 1)
    (List.Subset.trans (List.drop_subset _ _)
      (List.Subset.trans (List.dropWhile_suffix _).subset hline))).1
  unfold directive
  dsimp only
  rw [hkey, hvalue]

instance (text : Text) : Decidable (IsPrintable text) :=
  List.decidableBAll (fun ch : Char => 32 ≤ ch.toNat ∧ ch.toNat < 127) text

theorem disallowing_lines : ∀ ch ∈ encodedChars, ∀ pattern ∈ patternsFor ch,
    robotsLines (disallowing pattern) = ["User-agent: *".toList, "Disallow: ".toList ++ pattern]
      ∧ IsPrintable ("Disallow: ".toList ++ pattern)
      ∧ directive TextTables.asciiTables ("Disallow: ".toList ++ pattern)
          = some (.rule false pattern)
      ∧ pattern.length ≤ robotsMaxRuleChars ∧ patterns [(false, pattern)] = [(false, pattern)] :=
  forall_mem_of_all (by decide +kernel)

theorem disallowing_directives (ht : t.OnAscii) {ch : Char} (hch : ch ∈ encodedChars)
    {pattern : Text} (hpattern : pattern ∈ patternsFor ch) :
    fileDirectives t (disallowing pattern) = [.userAgent ['*'], .rule false pattern] := by
  obtain ⟨hlines, hprintable, hdirective, -⟩ := disallowing_lines ch hch pattern hpattern
  have hagent : directive t "User-agent: *".toList = some (.userAgent ['*']) := by
    rw [directive_printable ht (by decide)]
    decide +kernel
  rw [← directive_printable ht hprintable] at hdirective
  rw [fileDirectives, hlines]
  simp only [List.filterMap_cons, hagent, hdirective, List.filterMap_nil]

/-- Whatever the agent, the file refuses what the pattern matches. -/
theorem robotsRules_disallowing (ht : t.OnAscii) {ch : Char} (hch : ch ∈ encodedChars)
    {pattern : Text} (hpattern : pattern ∈ patternsFor ch) (token : Text) :
    robotsRules t (disallowing pattern) token = .ok [(false, pattern)] := by
  obtain ⟨-, -, -, hlength, hpatterns⟩ := disallowing_lines ch hch pattern hpattern
  have hdirectives := disallowing_directives ht hch hpattern
  have hgroups : GroupsOf (fileDirectives t (disallowing pattern)) [] [⟨[['*']],
      [(false, pattern)]⟩] := by
    refine ⟨by rw [hdirectives]; rfl, fun group hgroup => ?_, fun _ h => absurd h List.not_mem_nil⟩
    rw [List.mem_singleton.mp hgroup]
    exact List.cons_ne_nil _ _
  have hwithin : WithinBounds (fileDirectives t (disallowing pattern)) := by
    rw [hdirectives]
    refine ⟨by simp [Directive.isRule, robotsMaxRules], fun allow value hmem => ?_⟩
    simp only [List.mem_cons, reduceCtorEq, List.not_mem_nil, or_false, false_or,
      Directive.rule.injEq] at hmem
    rw [hmem.2]
    exact hlength
  have hstar : t.lower ['*'] = ['*'] := ht.lower ['*'] (forall_mem_of_all (by decide))
  rw [robotsRules_eq t token hgroups hwithin, applicableRules]
  have hmerged : ∀ name, name = ['*'] →
      mergedRules t name [⟨[['*']], [(false, pattern)]⟩] = [(false, pattern)] := by
    rintro name rfl
    simp [mergedRules, RobotsGroup.names, hstar, hpatterns]
  split_ifs with hown
  · simp only [List.any_cons, List.any_nil, Bool.or_false, RobotsGroup.names, List.map_cons,
      List.map_nil, List.mem_singleton, hstar, decide_eq_true_eq] at hown
    rw [hmerged token hown]
  · rw [hmerged _ rfl]

theorem verdictOn_disallowing (ht : t.OnAscii) {ch : Char} (hch : ch ∈ encodedChars)
    {pattern : Text} (hpattern : pattern ∈ patternsFor ch) {url : Text}
    (hshort : (target url).length ≤ robotsMaxAddressChars) (userAgent : Text) :
    verdictOn t (some 200) (some (disallowing pattern)) url userAgent = .refused
      ↔ RobotsMatches pattern (target url) := by
  have hbest : (ofLex (bestRule (target url) [(false, pattern)])).2 = false
      ↔ RobotsMatches pattern (target url) := by
    rw [bestRule_refuses]
    constructor
    · rintro ⟨rule, hmem, -, hmatches, -⟩
      rwa [List.mem_singleton.mp hmem] at hmatches
    · intro hmatches
      refine ⟨(false, pattern), List.mem_singleton_self _, rfl, hmatches, fun other hother _ => ?_⟩
      rw [List.mem_singleton.mp hother]
      exact ⟨le_rfl, fun h => nomatch h⟩
  rw [← hbest, verdictOn, robotsVerdict]
  rw [if_neg (not_lt.mpr hshort), if_neg (by decide), if_neg (by decide), Option.getD_some,
    robotsRules_disallowing ht hch hpattern]
  dsimp only
  cases (ofLex (bestRule (target url) [(false, pattern)])).2 <;> simp

/-- An address too long to be matched is not checked, whatever the file. -/
theorem verdictOn_long {url : Text} (hlong : robotsMaxAddressChars < (target url).length)
    (status : Option ℕ) (body : Option Text) (userAgent : Text) :
    verdictOn t status body url userAgent = .unchecked := by
  rw [verdictOn]
  unfold robotsVerdict
  cases status with
  | none => rfl
  | some status => exact if_pos hlong

end

/-! ### What the patterns match -/

theorem encodedChars_literal : ∀ ch ∈ encodedChars, ch ≠ '$' ∧ ch ≠ '*' ∧ ch ≠ '?' :=
  forall_mem_of_all (by decide)

section
variable {ch : Char} (hch : ch ∈ encodedChars)

include hch in
theorem robotsMatches_iff_start (before text : Text) :
    RobotsMatches (before ++ [ch]) text ↔ ∃ start, start <+: text
      ∧ Expands '*' (before ++ [ch]) start := by
  have hlast : ¬ (before ++ [ch]).getLast? = some '$' := by
    rw [List.getLast?_concat]
    exact fun h => (encodedChars_literal ch hch).1 (Option.some.inj h)
  rw [RobotsMatches, if_neg hlast]

include hch in
theorem robotsMatches_path (text : Text) : RobotsMatches ['*', ch] text ↔ ch ∈ text := by
  have hliteral := (encodedChars_literal ch hch).2.1
  rw [show ['*', ch] = ['*'] ++ [ch] from rfl, robotsMatches_iff_start hch]
  constructor
  · rintro ⟨start, hstart, hexpands⟩
    exact hstart.subset (mem_of_expands hexpands (by simp) hliteral)
  · intro hmem
    obtain ⟨before, after, rfl⟩ := List.append_of_mem hmem
    exact ⟨before ++ [ch], ⟨after, by simp⟩, .star before (.literal hliteral .nil)⟩

include hch in
theorem robotsMatches_query {query : Text} (path : Text) (hmem : ch ∈ query) :
    RobotsMatches ['*', '?', '*', ch] (path ++ '?' :: query) := by
  have hliteral := (encodedChars_literal ch hch).2.1
  apply (robotsMatches_iff_start hch ['*', '?', '*'] _).mpr
  obtain ⟨before, after, rfl⟩ := List.append_of_mem hmem
  refine ⟨path ++ '?' :: (before ++ [ch]), ⟨after, by simp⟩, .star path (.literal (by decide) ?_)⟩
  exact .star before (.literal hliteral .nil)

include hch in
/-- Where no question mark stands before the first one, the second pattern finds what stands behind
it. -/
theorem mem_of_robotsMatches_query {path query : Text} (hpath : '?' ∉ path)
    (h : RobotsMatches ['*', '?', '*', ch] (path ++ '?' :: query)) : ch ∈ query := by
  have hliteral := (encodedChars_literal ch hch).2.1
  obtain ⟨start, ⟨rest, hstart⟩, hexpands⟩ := (robotsMatches_iff_start hch ['*', '?', '*'] _).mp h
  obtain ⟨gap, found, rfl, hmark⟩ := expands_star.mp hexpands
  obtain ⟨more, rfl, hmore⟩ := (expands_literal (by decide)).mp hmark
  have hmem : ch ∈ more := mem_of_expands hmore (by simp) hliteral
  -- the mark that the pattern finds is not before the first one
  rw [List.append_assoc, List.cons_append] at hstart
  rcases List.append_eq_append_iff.mp hstart with ⟨between, hgap, hrest⟩ | ⟨between, hgap, hrest⟩
  · cases between with
    | nil =>
        rw [List.nil_append] at hrest
        rw [← (List.cons.inj hrest).2]
        exact List.mem_append_left _ hmem
    | cons first between =>
        obtain ⟨rfl, -⟩ := List.cons.inj hrest
        exact absurd (by rw [hgap]; simp) hpath
  · cases between with
    | nil =>
        rw [List.nil_append] at hrest
        rw [(List.cons.inj hrest).2]
        exact List.mem_append_left _ hmem
    | cons first between =>
        rw [(List.cons.inj hrest).2]
        simp [hmem]

end

/-! ### The verdicts -/

/-- Whatever file there is, the verdict on the address is the verdict on what is requested. -/
def VerdictsAgree (t : TextTables) (url : Text) : Prop :=
  ∀ status body userAgent, verdictOn t status body url userAgent
    = verdictOn t status body (requestedUrl url) userAgent

section
variable {t : TextTables} {url : Text}

theorem printable_of_mem_tail (h : Fetchable url) {ch : Char} (hmem : ch ∈ addressTail url) :
    32 < ch.toNat ∧ ch.toNat ≠ 127 := by
  have := List.all_eq_true.mp h.plain ch (addressTail_subset url hmem)
  simpa using this

theorem encoded_of_path (h : Fetchable url) {ch : Char} (hmem : ch ∈ (urlsplit url).path)
    (hascii : ch.toNat < 128) (hescaped : ¬ isSafe pathSafe ch = true) :
    ch ∈ encodedChars ∧ ¬ isSafe querySafe ch = true := by
  obtain ⟨htail, hmark⟩ := mem_path hmem
  obtain ⟨hlow, hhigh⟩ := printable_of_mem_tail h htail
  have hplain := addressTail_plain url ch htail
  have hcases : ch.toNat ≤ 32 ∨ ch.toNat = 127 ∨ ch ∈ ['#', '?'] ∨ isSafe pathSafe ch = true
      ∨ ch ∈ encodedChars ∧ isSafe querySafe ch = false := by
    apply forall_ascii (p := fun ch => ch.toNat ≤ 32 ∨ ch.toNat = 127 ∨ ch ∈ ['#', '?']
      ∨ isSafe pathSafe ch = true
      ∨ ch ∈ encodedChars ∧ isSafe querySafe ch = false) _ ch hascii
    decide +kernel
  rcases hcases with hcase | hcase | hcase | hcase | ⟨hencoded, hquery⟩
  · omega
  · exact absurd hcase hhigh
  · rcases List.mem_pair.mp hcase with hcase | hcase
    · exact absurd hcase hplain
    · exact absurd hcase hmark
  · exact absurd hcase hescaped
  · exact ⟨hencoded, Bool.eq_false_iff.mp hquery⟩

theorem encoded_of_query (h : Fetchable url) {ch : Char} (hmem : ch ∈ (urlsplit url).query)
    (hascii : ch.toNat < 128) (hescaped : ¬ isSafe querySafe ch = true) : ch ∈ encodedChars := by
  obtain ⟨hlow, hhigh⟩ := printable_of_mem_tail h (mem_query hmem)
  have hplain := addressTail_plain url ch (mem_query hmem)
  have hcases : ch.toNat ≤ 32 ∨ ch.toNat = 127 ∨ ch = '#' ∨ isSafe querySafe ch = true
      ∨ ch ∈ encodedChars := by
    apply forall_ascii (p := fun ch => ch.toNat ≤ 32 ∨ ch.toNat = 127 ∨ ch = '#'
      ∨ isSafe querySafe ch = true
      ∨ ch ∈ encodedChars) _ ch hascii
    decide +kernel
  rcases hcases with hcase | hcase | hcase | hcase | hencoded
  · omega
  · exact absurd hcase hhigh
  · exact absurd hcase hplain
  · exact absurd hcase hescaped
  · exact hencoded

/-- A character that the request line encodes stands in the one target and not in the other. -/
theorem exists_telling (h : Fetchable url) (hsent : ¬ SentAsRead url) :
    ∃ ch ∈ encodedChars, ∃ pattern ∈ patternsFor ch,
      RobotsMatches pattern (target url) ∧ ¬ RobotsMatches pattern (target (requestedUrl url)) := by
  rw [SentAsRead, not_and_or] at hsent
  push Not at hsent
  rcases hsent with ⟨ch, hmem, hascii, hescaped⟩ | ⟨ch, hmem, hascii, hescaped⟩
  · obtain ⟨hch, hquery⟩ := encoded_of_path h hmem hascii hescaped
    refine ⟨ch, hch, ['*', ch], List.mem_cons_self, ?_, ?_⟩
    · rw [robotsMatches_path hch, target_eq]
      have hrooted : rootedPath (urlsplit url) = (urlsplit url).path :=
        if_pos (List.ne_nil_of_mem hmem)
      rw [hrooted]
      exact List.mem_append_left _ (mem_robotsNormalise pathSafe_keepsForm hmem hascii hescaped)
    · rw [robotsMatches_path hch, target_requestedUrl h, List.mem_append]
      rintro (hpath | hrest)
      · exact hescaped (isSafe_of_mem_quote pathSafe_keepsForm hpath)
      · split_ifs at hrest
        · rcases List.mem_cons.mp hrest with hmark | hrest
          · exact (encodedChars_literal ch hch).2.2 hmark
          · exact hquery (isSafe_of_mem_quote querySafe_keepsForm hrest)
        · cases hrest
  · have hch := encoded_of_query h hmem hascii hescaped
    have hquery : (urlsplit url).query ≠ [] := List.ne_nil_of_mem hmem
    refine ⟨ch, hch, ['*', '?', '*', ch], List.mem_cons_of_mem _ List.mem_cons_self, ?_, ?_⟩
    · rw [target_eq, if_pos hquery]
      exact robotsMatches_query hch _ (mem_robotsNormalise querySafe_keepsForm hmem hascii hescaped)
    · rw [target_requestedUrl h, if_pos hquery]
      intro hmatches
      have hmark : '?' ∉ quote pathSafe (robotsNormalise (rootedPath (urlsplit url))) :=
        fun hmark => question_not_pathSafe (isSafe_of_mem_quote pathSafe_keepsForm hmark)
      exact hescaped
        (isSafe_of_mem_quote querySafe_keepsForm (mem_of_robotsMatches_query hch hmark hmatches))

/-- The verdict on an address is the verdict on what is requested, whatever the file, exactly when
every ASCII character of its path and query is sent as it is, or the address is too long to be
matched. -/
theorem verdictsAgree_iff (ht : t.OnAscii) (h : Fetchable url) :
    VerdictsAgree t url ↔ SentAsRead url ∨ robotsMaxAddressChars < (target url).length := by
  constructor
  · intro hagree
    by_contra hneither
    rw [not_or, not_lt] at hneither
    obtain ⟨hsent, hshort⟩ := hneither
    by_cases hlong : robotsMaxAddressChars < (target (requestedUrl url)).length
    · -- a missing file allows what is short enough, and says nothing of what is not
      have hmissing := hagree (some 404) none []
      rw [verdictOn_long hlong, verdictOn, robotsVerdict, if_neg (not_lt.mpr hshort),
        if_pos (by decide)] at hmissing
      cases hmissing
    · obtain ⟨ch, hch, pattern, hpattern, hmatches, hnone⟩ := exists_telling h hsent
      have hrefused := (verdictOn_disallowing ht hch hpattern hshort []).mpr hmatches
      rw [hagree] at hrefused
      exact hnone ((verdictOn_disallowing ht hch hpattern (not_lt.mp hlong) []).mp hrefused)
  · rintro (hsent | hlong) status body userAgent
    · have htarget : robotsTarget (fun url => ((urlsplit url).path, (urlsplit url).query))
          (requestedUrl url)
          = robotsTarget (fun url => ((urlsplit url).path, (urlsplit url).query)) url :=
        target_sentAsRead h hsent
      rw [verdictOn, verdictOn]
      unfold robotsVerdict
      rw [htarget]
    · rw [verdictOn_long hlong, verdictOn_long (hlong.trans_le (target_le h))]

theorem asciiTables_onAscii : TextTables.asciiTables.OnAscii := by
  refine ⟨fun _ _ => rfl, rfl, fun ch hlow hhigh => ?_⟩
  have hcases : ch.toNat ≤ 32 ∨ TextTables.asciiTables.isspace ch = false := by
    apply forall_ascii (p := fun ch => ch.toNat ≤ 32 ∨ TextTables.asciiTables.isspace ch = false)
      _ ch (by omega)
    decide +kernel
  exact hcases.resolve_left (by omega)

end

/-- An address with an accent and escapes. -/
def sentUrl : Text := "https://a.test/caf\u00e9/%7Ex%20y?q=1".toList

theorem sentUrl_verdictsAgree : VerdictsAgree TextTables.asciiTables sentUrl := by
  have hfetchable : Fetchable sentUrl := ⟨by decide +kernel, by decide +kernel, by decide +kernel⟩
  have hsent : SentAsRead sentUrl :=
    ⟨forall_mem_of_all (by decide +kernel), forall_mem_of_all (by decide +kernel)⟩
  exact (verdictsAgree_iff asciiTables_onAscii hfetchable).mpr (Or.inl hsent)

/-- An address with brackets, which the request line encodes. -/
def bracketUrl : Text := "http://a.test/x[1]".toList

/-- The file disallows the path that is requested, and the page is requested. -/
theorem bracketUrl_allowed :
    Fetchable bracketUrl ∧ requestPath (urlsplit bracketUrl) = "/x%5B1%5D".toList
      ∧ verdictOn TextTables.asciiTables (some 200)
          (some "User-agent: *\nDisallow: /x%5B1%5D\n".toList) bracketUrl
          "bot".toList = .allowed
      ∧ verdictOn TextTables.asciiTables (some 200)
          (some "User-agent: *\nDisallow: /x%5B1%5D\n".toList)
          (requestedUrl bracketUrl) "bot".toList = .refused
      ∧ ¬ VerdictsAgree TextTables.asciiTables bracketUrl := by
  have hallowed : verdictOn TextTables.asciiTables (some 200)
      (some "User-agent: *\nDisallow: /x%5B1%5D\n".toList) bracketUrl "bot".toList = .allowed := by
    decide +kernel
  have hrefused : verdictOn TextTables.asciiTables (some 200)
      (some "User-agent: *\nDisallow: /x%5B1%5D\n".toList) (requestedUrl bracketUrl) "bot".toList
        = .refused := by
    decide +kernel
  refine ⟨⟨by decide +kernel, by decide +kernel, by decide +kernel⟩,
    by decide +kernel, hallowed, hrefused, ?_⟩
  intro hagree
  rw [hagree, hrefused] at hallowed
  cases hallowed

end Quorum
