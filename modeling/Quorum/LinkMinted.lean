import Quorum.LinkReading
import Quorum.LinkTwins
import Quorum.TrustRefused

/-! When every linked source of an answer has a row: each link that the census reads needs a twin
that the provider's pattern finds. A plainly written answer has one for each. -/

namespace Quorum

namespace CitationTables

variable {c : CitationTables} {content : Text} {rows : List SourceReference} {url kept : Text}

/-- The URLs of the links that the census reads of an answer. -/
def censusUrls (c : CitationTables) (content : Text) : List Text :=
  if content = [] then []
  else ((c.layer.scanLinks (c.layer.proseOnly content)).map Prod.fst).getD []

theorem markersOf_eq (c : CitationTables) (content : Text) :
    ∃ ordinals, c.layer.markersOf content = c.censusUrls content ++ ordinals := by
  rw [LayerTables.markersOf, MarkerTables.extractCitationMarkers, censusUrls]
  split_ifs with hempty
  · exact ⟨[], rfl⟩
  · obtain ⟨urls, remainder, hscan⟩ := c.layer.exists_scanLinks (c.layer.proseOnly content)
    rw [hscan]
    exact ⟨_, rfl⟩

/-- Each link that the census reads, with an address that may be kept, has a row. -/
def Minted (c : CitationTables) (content : Text) (rows : List SourceReference) : Prop :=
  ∀ url ∈ c.censusUrls content, ∀ kept, c.stream.sanitizeSourceUrl url = some kept →
    ∃ row ∈ rows, row.url = kept

/-- A link of the prose, by its brackets: what stands in them, and an accepted address in the
parentheses behind. -/
structure Linked (c : CitationTables) (content inner behind url : Text) : Prop where
  prose : content ≠ []
  read : ∃ page, c.layer.Reads page (c.layer.proseOnly content)
    ∧ (inner, behind) ∈ page.links c.layer.signs
  target : Targets c.layer.isspace behind url
  accepted : c.stream.Accepted url

/-- Each link of the prose has a twin: an inline link of the answer as it was sent, that none before
it reaches across, of one token and the same address. -/
def Twinned (c : CitationTables) (content : Text) : Prop :=
  ∀ inner behind url, c.Linked content inner behind url →
    ∃ anchor twin, HasInlineLink c.stream.isspace content anchor twin
      ∧ c.stream.UrlToken (c.stream.strip twin)
      ∧ c.stream.address twin = c.stream.address url

/-- No inline link has a bracket in its address. -/
def Flat (c : CitationTables) (content : Text) : Prop :=
  ∀ place matched rest anchor url, content.drop place = matched ++ rest →
    InlineLink c.stream.isspace matched anchor url → '[' ∉ url

/-- An answer without code whose links have a text without brackets, and their address right between
the parentheses. -/
structure PlainlyWritten (c : CitationTables) (content : Text) : Prop where
  prose : c.layer.proseOnly content = content
  spelled : ∀ inner behind url, c.Linked content inner behind url →
    inner ≠ [] ∧ ']' ∉ inner ∧ ∃ rest, behind = '(' :: (url ++ ')' :: rest)
  flat : c.Flat content

/-- The census reads the addresses of the links of the prose. -/
theorem mem_censusUrls (c : CitationTables) (content : Text) {url : Text}
    (haccepted : c.stream.Accepted url) :
    url ∈ c.censusUrls content ↔ ∃ inner behind, c.Linked content inner behind url := by
  rw [censusUrls]
  split_ifs with hempty
  · refine iff_of_false List.not_mem_nil ?_
    rintro ⟨inner, behind, hlinked⟩
    exact hlinked.prose hempty
  · have hurls : ∀ page, c.layer.Reads page (c.layer.proseOnly content) →
        (url ∈ ((c.layer.scanLinks (c.layer.proseOnly content)).map Prod.fst).getD []
          ↔ ∃ link ∈ page.links c.layer.signs, Targets c.layer.isspace link.2 url) := by
      intro page hread
      obtain ⟨urls, hscan, hmem⟩ := MarkerTables.scanLinks_eq hread
      rw [hscan]
      refine (hmem url).trans (exists_congr fun link => and_congr_right fun _ => ?_)
      exact linkTarget_iff c.target.1 c.target.2
    constructor
    · intro hurl
      obtain ⟨page, hread⟩ := c.layer.exists_reads (c.layer.proseOnly content)
      obtain ⟨⟨inner, behind⟩, hlink, htarget⟩ := (hurls page hread).mp hurl
      exact ⟨inner, behind, hempty, ⟨page, hread, hlink⟩, htarget, haccepted⟩
    · rintro ⟨inner, behind, -, ⟨page, hread, hlink⟩, htarget, -⟩
      exact (hurls page hread).mpr ⟨(inner, behind), hlink, htarget⟩

theorem sanitizeSourceUrl_strip (url : Text) :
    c.stream.sanitizeSourceUrl (c.stream.strip url) = c.stream.sanitizeSourceUrl url := by
  rw [StreamTables.sanitizeSourceUrl, StreamTables.sanitizeSourceUrl, TextTables.strip_strip]

/-- Without annotations the rows are those of the inline links. -/
theorem extractCitations_bare {payload message : Json}
    (hmessage : firstMessage payload = some message)
    (hbare : (orElse (message.get? "annotations") (message.get? "citations")).bind Json.arr? = none
      ∨ (orElse (message.get? "annotations") (message.get? "citations")).bind Json.arr? = some []) :
    (∃ row ∈ c.stream.extractCitations payload content, row.url = kept)
      ↔ ∃ anchor twin, HasInlineLink c.stream.isspace content anchor twin
        ∧ c.stream.sanitizeSourceUrl twin = some kept := by
  have hnone : ((orElse (message.get? "annotations")
      (message.get? "citations")).bind Json.arr?).getD [] = [] := by
    rcases hbare with h | h
    · rw [h]; rfl
    · rw [h]; rfl
  have hrows : c.stream.extractCitations payload content
      = c.stream.linkSources [] (inlineLinks c.stream.isspace 0 content) := by
    rw [StreamTables.extractCitations, hmessage]
    dsimp only
    rw [hnone]
    rfl
  rw [hrows, StreamTables.linkSources_url, and_iff_right List.not_mem_nil]
  simp only [mem_inlineLinks, sanitizeSourceUrl_strip]

/-- The rows hold each link's address just when each link has a twin. -/
theorem minted_iff {payload message : Json} (hmessage : firstMessage payload = some message)
    (hbare : (orElse (message.get? "annotations") (message.get? "citations")).bind Json.arr? = none
      ∨ (orElse (message.get? "annotations") (message.get? "citations")).bind Json.arr? = some []) :
    c.Minted content (c.stream.extractCitations payload content) ↔ c.Twinned content := by
  constructor
  · intro hminted inner behind url hlinked
    have hurl := (mem_censusUrls c content hlinked.accepted).mpr ⟨inner, behind, hlinked⟩
    have hkept := StreamTables.sanitizeSourceUrl_iff.mpr ⟨hlinked.accepted, rfl⟩
    obtain ⟨anchor, twin, hinline, htwin⟩ :=
      (extractCitations_bare hmessage hbare).mp (hminted url hurl _ hkept)
    obtain ⟨haccepted, haddress⟩ := StreamTables.sanitizeSourceUrl_iff.mp htwin
    exact ⟨anchor, twin, hinline, haccepted.token, haddress⟩
  · intro htwins url hurl kept hkept
    obtain ⟨haccepted, rfl⟩ := StreamTables.sanitizeSourceUrl_iff.mp hkept
    obtain ⟨inner, behind, hlinked⟩ := (mem_censusUrls c content haccepted).mp hurl
    obtain ⟨anchor, twin, hinline, htoken, haddress⟩ := htwins inner behind url hlinked
    have hhost : c.stream.HostAllowed (c.stream.address twin) := by
      rw [haddress]
      exact haccepted.host
    exact (extractCitations_bare hmessage hbare).mpr
      ⟨anchor, twin, hinline, StreamTables.sanitizeSourceUrl_iff.mpr ⟨⟨htoken, hhost⟩, haddress⟩⟩

theorem InlineLink.cover {isspace : Char → Bool}
    {cut matched anchor anchor' url' before rest after : Text}
    (hcut : InlineLink isspace cut anchor' url') (hflat : '[' ∉ url')
    (hmatched : InlineLink isspace matched anchor url)
    (hsplit : cut ++ after = before ++ (matched ++ rest)) (hinside : before.length < cut.length) :
    url = url' := by
  have hsame : ∀ more, '[' :: (more ++ ']' :: '(' :: (url' ++ [')'])) ++ after = matched
      ++ rest → ']' ∉ more →
      url = url' := by
    intro more heq hmore
    rw [hmatched.spelled] at heq
    simp only [List.cons_append, List.append_assoc, List.nil_append, List.cons.injEq,
      true_and] at heq
    obtain ⟨-, heq⟩ := first_stop_inj hmore hmatched.anchored.2 heq
    obtain ⟨-, heq⟩ := List.cons.inj heq
    exact (first_stop_inj hcut.no_paren hmatched.no_paren heq).1.symm
  have hbefore : before <+: cut ++ after := ⟨_, hsplit.symm⟩
  obtain ⟨tail, rfl⟩ : before <+: cut :=
    List.prefix_of_prefix_length_le hbefore (List.prefix_append _ _) hinside.le
  rw [List.append_assoc] at hsplit
  have htail := List.append_cancel_left hsplit
  cases before with
  | nil => exact hsame anchor' (by rw [← htail, ← hcut.spelled]; rfl) hcut.anchored.2
  | cons first before =>
      have hspelled := hcut.spelled
      rw [List.cons_append] at hspelled
      obtain ⟨-, hspelled⟩ := List.cons.inj hspelled
      -- where the inner link opens, the cut is still in its text: no other bracket opens in it
      rcases List.append_eq_append_iff.mp hspelled with ⟨gap, hanchor, hgap⟩ | ⟨gap, hbefore, hgap⟩
      · cases gap with
        | nil =>
            rw [List.nil_append] at hgap
            rw [hgap, hmatched.spelled] at htail
            exact absurd (List.cons.inj htail).1 (by decide)
        | cons ch gap =>
            have hch : ch = '[' := by
              rw [hgap, hmatched.spelled] at htail
              exact (List.cons.inj htail).1
            subst hch
            refine hsame gap ?_ fun hmem => hcut.anchored.2 ?_
            · rw [← htail, hgap]
              rfl
            · rw [hanchor]
              exact List.mem_append_right _ (List.mem_cons_of_mem _ hmem)
      · have hhead : '[' ∈ tail := by
          cases tail with
          | nil =>
              rw [List.append_nil] at hinside
              exact absurd hinside (lt_irrefl _)
          | cons ch tail =>
              rw [hmatched.spelled] at htail
              obtain ⟨rfl, -⟩ := List.cons.inj htail
              exact List.mem_cons_self
        have hmem : '[' ∈ ']' :: '(' :: (url' ++ [')']) := by
          rw [hgap]
          exact List.mem_append_right _ hhead
        refine absurd ?_ hflat
        simpa using hmem

/-- In a flat answer each inline link that is spelled anywhere is come to, or one of the same
address is. -/
theorem Flat.hasInlineLink (h : c.Flat content) {place : ℕ} {matched rest anchor : Text}
    (hhere : content.drop place = matched ++ rest)
    (hlink : InlineLink c.stream.isspace matched anchor url) :
    ∃ anchor', HasInlineLink c.stream.isspace content anchor' url := by
  have hplace : place ≤ content.length := by
    by_contra hbeyond
    rw [List.drop_eq_nil_of_le (by omega), hlink.spelled] at hhere
    cases hhere
  rcases comesTo_or_covered c.stream.isspace content place hplace with hreach |
    ⟨first, cut, after, anchor', url', hfirst,
    hcut, hcutLink, hle, hlt⟩
  · exact ⟨anchor, place, matched, rest, hreach, hhere, hlink⟩
  · obtain ⟨offset, rfl⟩ := Nat.exists_eq_add_of_le hle
    have hinside : offset < cut.length := by omega
    have hcover : cut ++ after = (cut ++ after).take offset ++ (matched ++ rest) := by
      rw [← hhere, ← List.drop_drop, hcut, List.take_append_drop]
    have hsame : url = url' := by
      refine InlineLink.cover hcutLink (h first cut after anchor' url' hcut hcutLink)
        hlink hcover ?_
      rw [List.length_take, List.length_append]
      omega
    exact ⟨anchor', first, cut, after, hfirst, hcut, hsame ▸ hcutLink⟩

/-- In a flat answer a twin may stand anywhere. -/
theorem Flat.twinned_iff (h : c.Flat content) : c.Twinned content
    ↔ ∀ inner behind url, c.Linked content inner behind url →
      ∃ before matched after anchor twin, content = before ++ (matched ++ after)
        ∧ InlineLink c.stream.isspace matched anchor twin ∧ c.stream.UrlToken (c.stream.strip twin)
        ∧ c.stream.address twin = c.stream.address url := by
  refine forall_congr' fun inner => forall_congr' fun behind => forall_congr' fun url =>
    forall_congr' fun _ => ?_
  constructor
  · rintro ⟨anchor, twin, ⟨place, matched, after, -, hhere, hlink⟩, hrest⟩
    exact ⟨content.take place, matched, after, anchor, twin,
      by rw [← hhere, List.take_append_drop], hlink, hrest⟩
  · rintro ⟨before, matched, after, anchor, twin, rfl, hlink, hrest⟩
    obtain ⟨anchor', hinline⟩ := h.hasInlineLink (@List.drop_left _ before (matched ++ after)) hlink
    exact ⟨anchor', twin, hinline, hrest⟩

/-- In a plainly written answer each link is its own twin. -/
theorem PlainlyWritten.twinned (h : c.PlainlyWritten content) : c.Twinned content := by
  refine h.flat.twinned_iff.mpr fun inner behind url hlinked => ?_
  obtain ⟨hne, hplain, rest, hbehind⟩ := h.spelled inner behind url hlinked
  obtain ⟨page, ⟨-, hrender⟩, hlink⟩ := hlinked.read
  obtain ⟨before, hsplit⟩ := page.links_split (inner, behind) hlink
  rw [hrender, h.prose, hbehind] at hsplit
  obtain ⟨scheme, body, hurl, hscheme, hbody, -, hin⟩ := hlinked.target.address
  refine ⟨before, '[' :: (inner ++ ']' :: '(' :: (url ++ [')'])), rest, inner, url, ?_, ?_,
    hlinked.accepted.token, rfl⟩
  · rw [hsplit]
    simp [MarkerTables.signs]
  · refine ⟨rfl, ⟨hne, hplain⟩, scheme, body, hurl, hscheme, hbody, fun ch hch => ?_⟩
    rw [c.isspace_eq]
    exact hin ch hch

/-- A link whose address has a row is no unknown to the census of any scopes with these rows. -/
theorem classifyMarker_minted (hmint : ∃ row ∈ rows, row.url = kept)
    (hkept : c.stream.sanitizeSourceUrl url = some kept) {scopes : List CitationScope} {text : Text}
    (hscope : (text, rows) ∈ scopes) (sources : List SourceReference) :
    c.layer.classifyMarker (c.layer.runUrls scopes) (c.layer.placeholderUrls scopes) sources
      url ≠ .unverifiable := by
  obtain ⟨row, hrow, hurl⟩ := hmint
  have hkey : c.layer.canonicalMarkerKey row.url = c.layer.canonicalMarkerKey url := by
    rw [hurl, canonicalMarkerKey_sanitized hkept]
  rw [LayerTables.classifyMarker]
  cases hstub : c.layer.isPlaceholderSource row with
  | false =>
      have hmem : c.layer.canonicalMarkerKey url ∈ c.layer.runUrls scopes := by
        refine List.mem_flatMap.mpr ⟨(text, rows), hscope,
          List.mem_map.mpr ⟨row, List.mem_filter.mpr ⟨hrow, ?_⟩, hkey⟩⟩
        rw [hstub]
        rfl
      rw [if_pos hmem]
      split_ifs <;> exact MarkerClass.noConfusion
  | true =>
      have hmem : c.layer.canonicalMarkerKey url ∈ c.layer.placeholderUrls scopes :=
        List.mem_flatMap.mpr ⟨(text, rows), hscope,
          List.mem_map.mpr ⟨row, List.mem_filter.mpr ⟨hrow, hstub⟩, hkey⟩⟩
      rw [if_pos hmem]
      split_ifs <;> exact MarkerClass.noConfusion

/-- Every linked source has a row, and so is known to the census, just when each link has a twin; in
a flat answer the twin may stand anywhere, and in a plainly written one each link is its own. An
address that is kept is kept again, and has the key of all that it is kept of. -/
theorem minted_iff_twinned (c : CitationTables) {payload message : Json} (content : Text)
    (hmessage : firstMessage payload = some message)
    (hbare : (orElse (message.get? "annotations") (message.get? "citations")).bind Json.arr? = none
      ∨ (orElse (message.get? "annotations") (message.get? "citations")).bind Json.arr? = some []) :
    (c.Minted content (c.stream.extractCitations payload content) ↔ c.Twinned content)
    ∧ (c.Flat content → (c.Minted content (c.stream.extractCitations payload content)
        ↔ ∀ inner behind url, c.Linked content inner behind url →
          ∃ before matched after anchor twin, content = before ++ (matched ++ after)
            ∧ InlineLink c.stream.isspace matched anchor twin
            ∧ c.stream.UrlToken (c.stream.strip twin)
            ∧ c.stream.address twin = c.stream.address url))
    ∧ (c.PlainlyWritten content → c.Minted content (c.stream.extractCitations payload content))
    ∧ (c.Twinned content → ∀ scopes text,
        (text, c.stream.extractCitations payload content) ∈ scopes →
        ∀ url ∈ c.censusUrls content, (c.stream.sanitizeSourceUrl url).isSome = true → ∀ sources,
          c.layer.classifyMarker (c.layer.runUrls scopes) (c.layer.placeholderUrls scopes) sources
            url ≠ .unverifiable)
    ∧ (∀ url kept,
        c.stream.sanitizeSourceUrl url = some kept → c.stream.sanitizeSourceUrl kept = some kept)
    ∧ ∀ url other kept, c.stream.sanitizeSourceUrl url = some kept →
        c.stream.sanitizeSourceUrl other = some kept →
        c.layer.canonicalMarkerKey url = c.layer.canonicalMarkerKey other := by
  have hiff : c.Minted content (c.stream.extractCitations payload content) ↔ c.Twinned content :=
    minted_iff hmessage hbare
  refine ⟨hiff, fun h => hiff.trans h.twinned_iff, fun h => hiff.mpr h.twinned, ?_,
    fun _ _ h => StreamTables.sanitizeSourceUrl_idem h,
      fun _ _ _ h hother => canonicalMarkerKey_congr h hother⟩
  intro htwins scopes text hscope url hurl hsome sources
  obtain ⟨kept, hkept⟩ := Option.isSome_iff_exists.mp hsome
  exact classifyMarker_minted (hiff.mpr htwins url hurl kept hkept) hkept hscope sources

/-- The tables on ASCII, with the host of an address as `asciiLayerTables` reads it. -/
def asciiCitationTables : CitationTables :=
  { layer := asciiLayerTables
    stream :=
      { asciiLayerTables.toTextTables with
        loads := fun _ => .error "JSONDecodeError"
        hostname := fun url => some (asciiLayerTables.hostname url)
        isControlOrFormat := fun _ => false
        sourceFetchMaxTextChars := 100 }
    texts := rfl
    anchor := by decide
    target := by decide }

/-- A completion with this answer and no annotations. -/
def bareCompletion (content : Text) : Json :=
  .obj [("choices", .arr [.obj [("message", .obj [("content", .str content)])]])]

/-- An answer with a bracketed link, and a plain one with the same address but for its fragment. -/
def twinAnswer : Text :=
  "[[1]](https://a.test/x), as in [a](https://a.test/x#top) and [b](https://b.test).".toList

/-- The plain link is the twin of the bracketed one: each link of the answer has a row. -/
theorem minted_plainLinks :
    asciiCitationTables.Minted twinAnswer
      (asciiCitationTables.stream.extractCitations (bareCompletion twinAnswer) twinAnswer) := by
  have hmessage : firstMessage (bareCompletion twinAnswer)
      = some (.obj [("content", .str twinAnswer)]) := rfl
  refine (minted_iff_twinned asciiCitationTables _ hmessage (.inl rfl)).1.mpr ?_
  have hurls : asciiCitationTables.censusUrls twinAnswer
      = ["https://a.test/x".toList, "https://a.test/x#top".toList, "https://b.test".toList] := by
    decide +kernel
  have hlinks : inlineLinks asciiCitationTables.stream.isspace 0 twinAnswer
      = [("a".toList, "https://a.test/x#top".toList), ("b".toList, "https://b.test".toList)] := by
    decide +kernel
  have hfirst : HasInlineLink asciiCitationTables.stream.isspace
      twinAnswer "a".toList "https://a.test/x#top".toList :=
    mem_inlineLinks.mp (by rw [hlinks]; exact List.mem_cons_self)
  have hsecond : HasInlineLink asciiCitationTables.stream.isspace
      twinAnswer "b".toList "https://b.test".toList :=
    mem_inlineLinks.mp (by rw [hlinks]; exact List.mem_cons_of_mem _ List.mem_cons_self)
  have hkept : asciiCitationTables.stream.sanitizeSourceUrl "https://a.test/x#top".toList
      = some "https://a.test/x".toList := by decide +kernel
  obtain ⟨haccepted, haddress⟩ := StreamTables.sanitizeSourceUrl_iff.mp hkept
  intro inner behind url hlinked
  have hurl := (mem_censusUrls _ _ hlinked.accepted).mpr ⟨inner, behind, hlinked⟩
  rw [hurls] at hurl
  rcases List.mem_cons.mp hurl with rfl | hurl
  · exact ⟨_, _, hfirst, haccepted.token, by rw [haddress]; decide +kernel⟩
  · rcases List.mem_pair.mp hurl with rfl | rfl
    · exact ⟨_, _, hfirst, haccepted.token, rfl⟩
    · exact ⟨_, _, hsecond, hlinked.accepted.token, rfl⟩

/-- A link whose text is a marker in brackets has no row, and the census does not know it. -/
theorem bracketedLink_unverifiable :
    asciiCitationTables.censusUrls "[[1]](https://a.test/x)".toList = ["https://a.test/x".toList]
      ∧ asciiCitationTables.stream.sanitizeSourceUrl "https://a.test/x".toList
          = some "https://a.test/x".toList
      ∧ asciiCitationTables.stream.extractCitations
          (bareCompletion "[[1]](https://a.test/x)".toList)
          "[[1]](https://a.test/x)".toList = []
      ∧ asciiCitationTables.layer.citationMarkerCensus [("[[1]](https://a.test/x)".toList, [])]
          = { resolved := 0, unresolved := 0, unverifiable := 1 } := by
  refine ⟨?_, ?_, ?_, ?_⟩ <;> decide +kernel

end CitationTables

end Quorum
