import Quorum.TrustCensus

/-! The address that a source row holds (`providers._sanitize_source_url`), and the key that the
census compares it by: an address has the key of what is kept of it. -/

namespace Quorum

/-- The tables of the two readers of an answer, which see one alphabet. -/
structure CitationTables where
  layer : LayerTables
  stream : StreamTables
  texts : stream.toTextTables = layer.toTextTables
  anchor : layer.isspace '#' = false
  target : layer.isspace ')' = false ∧ layer.isspace 'h' = false

namespace TextTables

variable (t : TextTables) {text before middle after : Text}

theorem exists_around_strip (text : Text) :
    ∃ before after, text = before ++ (t.strip text ++ after) ∧ (∀ ch ∈ before, t.isspace ch = true)
      ∧ ∀ ch ∈ after, t.isspace ch = true := by
  refine ⟨text.takeWhile t.isspace, (t.lstrip text).rtakeWhile t.isspace, ?_,
    fun ch hch => List.mem_takeWhile_imp hch,
    fun ch hch => List.mem_rtakeWhile_imp hch⟩
  rw [strip, rstrip, List.rdropWhile_append_rtakeWhile, lstrip, List.takeWhile_append_dropWhile]

/-- Spaces around a text with none at its ends go. -/
theorem strip_around (hbefore : ∀ ch ∈ before, t.isspace ch = true)
    (hafter : ∀ ch ∈ after, t.isspace ch = true) (hsolid : ∀ ch ∈ middle, t.isspace ch = false) :
    t.strip (before ++ (middle ++ after)) = middle := by
  have hend : ∀ rest : Text, (∀ ch ∈ rest, t.isspace ch = true) →
      t.rstrip (middle ++ rest) = middle := by
    intro rest
    induction rest using List.reverseRecOn with
    | nil =>
        intro _
        rw [List.append_nil, rstrip, List.rdropWhile_eq_self_iff]
        exact fun hne => Bool.eq_false_iff.mp (hsolid _ (List.getLast_mem hne))
    | append_singleton rest last ih =>
        intro hrest
        rw [← List.append_assoc, rstrip,
          List.rdropWhile_concat_pos _ _ _
            (hrest last (List.mem_append_right _ (List.mem_singleton_self _)))]
        exact ih fun ch hch => hrest ch (List.mem_append_left _ hch)
  rw [strip, lstrip, List.dropWhile_append, List.dropWhile_eq_nil_iff.mpr hbefore]
  cases middle with
  | nil =>
      rw [List.nil_append, List.dropWhile_eq_nil_iff.mpr hafter]
      rfl
  | cons ch middle =>
      rw [List.cons_append, List.isEmpty_nil, if_pos rfl,
        List.dropWhile_cons_of_neg (Bool.eq_false_iff.mp (hsolid ch List.mem_cons_self)),
        ← List.cons_append]
      exact hend after hafter

theorem strip_solid (hsolid : ∀ ch ∈ text, t.isspace ch = false) : t.strip text = text := by
  have haround : t.strip ([] ++ (text ++ [])) = text := t.strip_around nofun nofun hsolid
  rwa [List.nil_append, List.append_nil] at haround

end TextTables

/-- One token of an address: no space or control character, and a scheme before it. -/
structure StreamTables.UrlToken (t : StreamTables) (url : Text) : Prop where
  solid : ∀ ch ∈ url,
    (t.isspace ch || ch.toNat < 0x20 || ch ∈ ['\u2028', '\u2029', '\u0085']) = false
  scheme : "http://".toList <+: url ∨ "https://".toList <+: url

namespace StreamTables

variable {t : StreamTables} {url kept : Text}

/-- A host that can be read and is not one of the denied. -/
def HostAllowed (t : StreamTables) (url : Text) : Prop :=
  ∃ host, t.hostname url = some host ∧ t.lower (host.getD []) ∉ sourceUrlHostDenylist

/-- What of an address is compared: neither the spaces around it nor its fragment. -/
def address (t : StreamTables) (url : Text) : Text := (t.strip url).takeWhile (· ≠ '#')

/-- An address that a row may hold. -/
structure Accepted (t : StreamTables) (url : Text) : Prop where
  token : t.UrlToken (t.strip url)
  host : t.HostAllowed (t.address url)

theorem sanitizeSourceUrl_eq_some :
    t.sanitizeSourceUrl url = some kept
      ↔ t.UrlToken (t.strip url) ∧ (t.strip url).takeWhile (· ≠ '#') = kept
      ∧ t.HostAllowed kept := by
  rw [sanitizeSourceUrl]
  dsimp only
  constructor
  · intro h
    split_ifs at h with hempty htoken hscheme
    rw [Bool.not_eq_true, List.any_eq_false] at htoken
    rw [Bool.not_eq_true, Bool.not_eq_false', Bool.or_eq_true, List.isPrefixOf_iff_prefix,
      List.isPrefixOf_iff_prefix] at hscheme
    split at h
    · exact nomatch h
    · next host hhost =>
      split_ifs at h with hdenied
      obtain rfl := Option.some.inj h
      exact ⟨⟨fun ch hch => Bool.eq_false_iff.mpr (htoken ch hch), hscheme⟩, rfl, host,
        hhost, hdenied⟩
  · rintro ⟨htoken, rfl, host, hhost, hallowed⟩
    have hempty : t.strip url ≠ [] := by
      intro hnil
      rcases htoken.scheme with h | h <;>
      · rw [hnil] at h
        exact absurd (List.prefix_nil.mp h) (by decide)
    have hscheme : ("http://".toList.isPrefixOf (t.strip url)
        || "https://".toList.isPrefixOf (t.strip url)) = true := by
      rw [Bool.or_eq_true, List.isPrefixOf_iff_prefix, List.isPrefixOf_iff_prefix]
      exact htoken.scheme
    rw [if_neg hempty, if_neg ?_, if_neg ?_, hhost]
    · exact if_neg hallowed
    · rw [hscheme]
      decide
    · rw [Bool.not_eq_true, List.any_eq_false]
      exact fun ch hch => Bool.eq_false_iff.mp (htoken.solid ch hch)

theorem sanitizeSourceUrl_iff :
    t.sanitizeSourceUrl url = some kept ↔ t.Accepted url ∧ t.address url = kept := by
  rw [sanitizeSourceUrl_eq_some]
  constructor
  · rintro ⟨htoken, rfl, hhost⟩
    exact ⟨⟨htoken, hhost⟩, rfl⟩
  · rintro ⟨haccepted, rfl⟩
    exact ⟨haccepted.token, rfl, haccepted.host⟩

theorem UrlToken.not_space (h : t.UrlToken url) : ∀ ch ∈ url, t.isspace ch = false := by
  intro ch hch
  have hsolid := h.solid ch hch
  rw [Bool.or_eq_false_iff, Bool.or_eq_false_iff] at hsolid
  exact hsolid.1.1

/-- What is kept of an address is one token again: a scheme has no fragment in it. -/
theorem UrlToken.takeWhile (h : t.UrlToken url) : t.UrlToken (url.takeWhile (· ≠ '#')) := by
  refine ⟨fun ch hch => h.solid ch ((List.takeWhile_prefix _).subset hch), ?_⟩
  have hkeeps : ∀ scheme : Text, '#' ∉ scheme → scheme <+: url →
      scheme <+: url.takeWhile (· ≠ '#') := by
    rintro scheme hscheme ⟨rest, rfl⟩
    rw [List.takeWhile_append_of_pos fun ch hch => by
      rw [decide_eq_true_eq]
      rintro rfl
      exact hscheme hch]
    exact List.prefix_append _ _
  exact h.scheme.imp (hkeeps _ (by decide)) (hkeeps _ (by decide))

/-- An address that was kept is kept as it is. -/
theorem sanitizeSourceUrl_idem (h : t.sanitizeSourceUrl url = some kept) :
    t.sanitizeSourceUrl kept = some kept := by
  obtain ⟨htoken, rfl, hhost⟩ := sanitizeSourceUrl_eq_some.mp h
  have hstrip := t.toTextTables.strip_solid htoken.takeWhile.not_space
  refine sanitizeSourceUrl_eq_some.mpr ⟨?_, ?_, hhost⟩
  · rw [hstrip]
    exact htoken.takeWhile
  · rw [hstrip, List.takeWhile_idem]

end StreamTables

namespace CitationTables

variable {c : CitationTables} {url kept : Text}

theorem layer_strip_eq (c : CitationTables) (text : Text) :
    c.layer.toMarkerTables.strip text = c.layer.toTextTables.strip text := rfl

theorem isspace_eq (c : CitationTables) : c.stream.isspace = c.layer.isspace := by
  rw [← c.texts]

/-- The key of an address is that of what is kept of it. -/
theorem canonicalMarkerKey_sanitized (h : c.stream.sanitizeSourceUrl url = some kept) :
    c.layer.canonicalMarkerKey url = c.layer.canonicalMarkerKey kept := by
  obtain ⟨htoken, rfl, -⟩ := StreamTables.sanitizeSourceUrl_eq_some.mp h
  rw [c.texts] at htoken ⊢
  obtain ⟨before, after, hurl, hbefore, hafter⟩ := c.layer.toTextTables.exists_around_strip url
  have hsolid : ∀ ch ∈ c.layer.toTextTables.strip url, c.layer.isspace ch = false := by
    intro ch hch
    rw [← c.isspace_eq]
    exact htoken.not_space ch hch
  generalize c.layer.toTextTables.strip url = core at *
  have hspaces : ∀ {spaces : Text}, (∀ ch ∈ spaces, c.layer.isspace ch = true) → ∀ ch ∈ spaces,
      decide (ch ≠ '#') = true := by
    rintro spaces hall ch hch
    rw [decide_eq_true_eq]
    rintro rfl
    exact nomatch (hall '#' hch).symm.trans c.anchor
  have hkept : ∀ ch ∈ core.takeWhile (· ≠ '#'), c.layer.isspace ch = false :=
    fun ch hch => hsolid ch ((List.takeWhile_prefix _).subset hch)
  have hkey : ∃ rest, url.takeWhile (· ≠ '#') = before ++ (core.takeWhile (· ≠ '#') ++ rest)
      ∧ ∀ ch ∈ rest, c.layer.isspace ch = true := by
    rw [hurl, List.takeWhile_append_of_pos (hspaces hbefore), List.takeWhile_append]
    split_ifs with hall
    · refine ⟨after, ?_, hafter⟩
      rw [(List.takeWhile_prefix _).eq_of_length hall,
        List.takeWhile_eq_self_iff.mpr (hspaces hafter)]
    · exact ⟨[], by rw [List.append_nil], nofun⟩
  obtain ⟨rest, hcut, hrest⟩ := hkey
  rw [LayerTables.canonicalMarkerKey, LayerTables.canonicalMarkerKey, LayerTables.normalizeUrl,
    LayerTables.normalizeUrl, List.takeWhile_idem, hcut, layer_strip_eq, layer_strip_eq,
    c.layer.toTextTables.strip_around hbefore hrest hkept, c.layer.toTextTables.strip_solid hkept]

/-- Two addresses of which one thing is kept have one key. -/
theorem canonicalMarkerKey_congr {other : Text} (h : c.stream.sanitizeSourceUrl url = some kept)
    (hother : c.stream.sanitizeSourceUrl other = some kept) :
    c.layer.canonicalMarkerKey url = c.layer.canonicalMarkerKey other := by
  rw [canonicalMarkerKey_sanitized h, canonicalMarkerKey_sanitized hother]

end CitationTables

end Quorum
