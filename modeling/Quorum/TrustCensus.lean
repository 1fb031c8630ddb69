import Quorum.ConsensusStrength
import Quorum.LinkScan
import Quorum.ProviderExtract

/-! The citation marker census (`evaluation`): every inline marker of a run's prose, sorted by what
the sources at hand say of it. -/

namespace Quorum

/-- What Layer A reads texts with: `urlparse(..).hostname`, the value of a decimal digit, and the
prose that the renderer's parser leaves of an answer without its code. -/
structure LayerTables extends PanelTables, MarkerTables where
  isDigit : Char → Bool
  digitValue : Char → ℕ
  hostname : Text → Option Text
  proseOnly : Text → Text

inductive MarkerClass
  | resolved
  | unresolved
  | unverifiable
deriving DecidableEq

structure MarkerCensus where
  resolved : ℕ
  unresolved : ℕ
  unverifiable : ℕ
deriving DecidableEq

def MarkerCensus.resolvable (census : MarkerCensus) : ℕ := census.resolved + census.unresolved

/-- A block of prose with the bibliography that its ordinals index. -/
abbrev CitationScope := Text × List SourceReference

/-- The host of `LOCAL_SIMULATION_URL_PREFIX`. -/
def placeholderSourceHost : Text := "example.test".toList

namespace LayerTables

variable (p : LayerTables)

def normalizeUrl (url : Text) : Text :=
  p.lower ((((p.strip url).rdropWhile fun ch => ch ∈ ".,;:".toList)).rdropWhile fun ch => ch = '/')

/-- `_canonical_marker_key`: the URL without its fragment, normalised. -/
def canonicalMarkerKey (url : Text) : Text := p.normalizeUrl (url.takeWhile (· ≠ '#'))

def isPlaceholderSource (source : SourceReference) : Bool :=
  let hostname := (p.hostname (p.lower (p.strip source.url))).getD []
  hostname = placeholderSourceHost || ('.' :: placeholderSourceHost).isSuffixOf hostname

/-- The markers of a text; the scan always ends (`extractCitationMarkers_eq`). -/
def markersOf (text : Text) : List Text := (p.extractCitationMarkers p.proseOnly text).getD []

/-- `marker.isdigit()`. -/
def isOrdinalMarker (marker : Text) : Bool := marker ≠ [] && marker.all p.isDigit

/-- `int(marker)`. -/
def position (marker : Text) : ℕ := marker.foldl (fun value ch => 10 * value + p.digitValue ch) 0

/-- The keys of the run's real sources. -/
def runUrls (scopes : List CitationScope) : List Text :=
  scopes.flatMap fun scope =>
    (scope.2.filter fun source => !p.isPlaceholderSource source).map fun source =>
      p.canonicalMarkerKey source.url

/-- The keys of the run's own stubs. -/
def placeholderUrls (scopes : List CitationScope) : List Text :=
  scopes.flatMap fun scope =>
    (scope.2.filter p.isPlaceholderSource).map fun source => p.canonicalMarkerKey source.url

/-- The ordinal points at a real row of its own bibliography. -/
def ordinalResolves (sources : List SourceReference) (marker : Text) : Bool :=
  1 ≤ p.position marker && (sources[p.position marker - 1]?).any fun source =>
    !p.isPlaceholderSource source

/-- What the census says of a marker of a scope with these sources. -/
def classifyMarker (runUrls placeholderUrls : List Text) (sources : List SourceReference)
    (marker : Text) : MarkerClass :=
  if p.isOrdinalMarker marker then
    if p.ordinalResolves sources marker then .resolved else .unresolved
  else if p.canonicalMarkerKey marker ∈ runUrls then .resolved
  else if p.canonicalMarkerKey marker ∈ placeholderUrls then .unresolved
  else .unverifiable

/-- The classes of the markers of every scope, in order. -/
def markerClasses (runUrls placeholderUrls : List Text) (scopes : List CitationScope) :
    List MarkerClass :=
  scopes.flatMap fun scope =>
    (p.markersOf scope.1).map (p.classifyMarker runUrls placeholderUrls scope.2)

def citationMarkerCensus (scopes : List CitationScope) : MarkerCensus :=
  let classes := p.markerClasses (p.runUrls scopes) (p.placeholderUrls scopes) scopes
  { resolved := classes.count .resolved
    unresolved := classes.count .unresolved
    unverifiable := classes.count .unverifiable }

/-- `citation_marker_grounding`; unknown without a resolvable marker. -/
def citationMarkerGrounding (scopes : List CitationScope) : Option ℚ :=
  let census := p.citationMarkerCensus scopes
  if census.resolvable = 0 then none else some (census.resolved / census.resolvable)

/-! ### The census over scopes -/

variable {p} {runKeys stubKeys : List Text} {sources : List SourceReference} {marker : Text}
  {first second scopes : List CitationScope}

theorem extractCitationMarkers_eq (p : LayerTables) (text : Text) :
    p.extractCitationMarkers p.proseOnly text = some (p.markersOf text) := by
  rw [markersOf, MarkerTables.extractCitationMarkers]
  split_ifs with hempty
  · rfl
  · obtain ⟨urls, remainder, hscan⟩ := p.exists_scanLinks (p.proseOnly text)
    rw [hscan, Option.map_some, Option.getD_some]

/-- Two scopes that the census cannot tell apart: the same markers over the same bibliography. -/
def SameScope (p : LayerTables) (left right : CitationScope) : Prop :=
  p.markersOf left.1 = p.markersOf right.1 ∧ left.2 = right.2

theorem SameScope.refl (scope : CitationScope) : p.SameScope scope scope := ⟨rfl, rfl⟩

theorem flatMap_congr_forall₂ {α β : Type} {r : α → α → Prop} {f : α → List β} {left right : List α}
    (hr : ∀ a b, r a b → f a = f b) (h : List.Forall₂ r left right) :
    left.flatMap f = right.flatMap f := by
  induction h with
  | nil => rfl
  | cons hhead _ ih => rw [List.flatMap_cons, List.flatMap_cons, hr _ _ hhead, ih]

theorem citationMarkerCensus_congr (h : List.Forall₂ p.SameScope first second) :
    p.citationMarkerCensus first = p.citationMarkerCensus second := by
  have hrun : p.runUrls first = p.runUrls second :=
    flatMap_congr_forall₂ (fun left right hscope => by rw [hscope.2]) h
  have hstub : p.placeholderUrls first = p.placeholderUrls second :=
    flatMap_congr_forall₂ (fun left right hscope => by rw [hscope.2]) h
  have hclasses : ∀ runKeys stubKeys, p.markerClasses runKeys stubKeys first
      = p.markerClasses runKeys stubKeys second := fun runKeys stubKeys =>
    flatMap_congr_forall₂ (fun left right hscope => by rw [hscope.1, hscope.2]) h
  simp only [citationMarkerCensus, hrun, hstub, hclasses]

/-! ### More rows -/

/-- The right scope is the left one with rows appended to its bibliography. -/
def Extends (left right : CitationScope) : Prop := ∃ rows, right = (left.1, left.2 ++ rows)

theorem Extends.refl (scope : CitationScope) : Extends scope scope := ⟨[], by rw [List.append_nil]⟩

theorem ordinalResolves_append (rows : List SourceReference)
    (h : p.ordinalResolves sources marker = true) :
    p.ordinalResolves (sources ++ rows) marker = true := by
  rw [ordinalResolves, Bool.and_eq_true, Option.any_eq_true] at h ⊢
  obtain ⟨hpos, source, hget, hreal⟩ := h
  exact ⟨hpos, source,
    by rw [List.getElem?_append_left (List.getElem?_eq_some_iff.mp hget).1, hget], hreal⟩

/-- A marker that resolves still does with more real keys and more rows in its bibliography. -/
theorem classifyMarker_resolved_mono {runKeys' stubKeys' : List Text} (rows : List SourceReference)
    (hrun : runKeys ⊆ runKeys') (h : p.classifyMarker runKeys stubKeys sources marker = .resolved) :
    p.classifyMarker runKeys' stubKeys' (sources ++ rows) marker = .resolved := by
  rw [classifyMarker] at h ⊢
  by_cases hordinal : p.isOrdinalMarker marker = true
  · rw [if_pos hordinal] at h ⊢
    by_cases hresolves : p.ordinalResolves sources marker = true
    · rw [if_pos (ordinalResolves_append rows hresolves)]
    · rw [if_neg hresolves] at h
      exact nomatch h
  · rw [if_neg hordinal] at h ⊢
    by_cases hkey : p.canonicalMarkerKey marker ∈ runKeys
    · rw [if_pos (hrun hkey)]
    · rw [if_neg hkey] at h
      split_ifs at h

theorem runUrls_subset (h : List.Forall₂ Extends first second) :
    p.runUrls first ⊆ p.runUrls second := by
  induction h with
  | nil => exact List.Subset.refl _
  | @cons left right _ _ hhead _ ih =>
      obtain ⟨rows, rfl⟩ := hhead
      simp only [runUrls, List.flatMap_cons, List.filter_append, List.map_append]
      exact List.append_subset.mpr
        ⟨fun key hkey => List.mem_append_left _ (List.mem_append_left _ hkey),
          fun key hkey => List.mem_append_right _ (ih hkey)⟩

theorem markerClasses_resolved_le {runKeys' stubKeys' : List Text} (hrun : runKeys ⊆ runKeys')
    (h : List.Forall₂ Extends first second) :
    (p.markerClasses runKeys stubKeys first).count .resolved
      ≤ (p.markerClasses runKeys' stubKeys' second).count .resolved := by
  induction h with
  | nil => exact le_rfl
  | @cons left right _ _ hhead _ ih =>
      obtain ⟨rows, rfl⟩ := hhead
      have hone :
          ((p.markersOf left.1).map (p.classifyMarker runKeys stubKeys left.2)).count .resolved
            ≤ ((p.markersOf left.1).map
              (p.classifyMarker runKeys' stubKeys' (left.2 ++ rows))).count .resolved := by
        rw [List.count_eq_countP, List.count_eq_countP, List.countP_map, List.countP_map]
        apply List.countP_mono_left
        intro marker _ hresolved
        exact beq_iff_eq.mpr (classifyMarker_resolved_mono rows hrun (beq_iff_eq.mp hresolved))
      simp only [markerClasses, List.flatMap_cons, List.count_append] at ih ⊢
      exact Nat.add_le_add hone ih

theorem citationMarkerCensus_resolved_le (h : List.Forall₂ Extends first second) :
    (p.citationMarkerCensus first).resolved ≤ (p.citationMarkerCensus second).resolved :=
  markerClasses_resolved_le (runUrls_subset h) h

/-! ### Prose without a bibliography -/

/-- No ordinal resolves against an empty bibliography. -/
theorem classifyMarker_nil_resolved :
    p.classifyMarker runKeys stubKeys [] marker = .resolved
      ↔ p.isOrdinalMarker marker = false ∧ p.canonicalMarkerKey marker ∈ runKeys := by
  have hresolves : p.ordinalResolves [] marker = false := by
    rw [ordinalResolves, List.getElem?_nil, Option.any_none, Bool.and_false]
  rw [classifyMarker, hresolves]
  by_cases hordinal : p.isOrdinalMarker marker = true
  · simp [hordinal]
  · by_cases hkey : p.canonicalMarkerKey marker ∈ runKeys
    · simp [hordinal, hkey]
    · rw [if_neg hordinal, if_neg hkey]
      split_ifs <;> simp [hkey]

theorem runUrls_append_nil (texts : List Text) :
    p.runUrls (scopes ++ texts.map fun text => (text, [])) = p.runUrls scopes := by
  simp [runUrls, List.flatMap_append, List.flatMap_map]

theorem placeholderUrls_append_nil (texts : List Text) :
    p.placeholderUrls (scopes ++ texts.map fun text => (text, [])) = p.placeholderUrls scopes := by
  simp [placeholderUrls, List.flatMap_append, List.flatMap_map]

/-- Texts without a bibliography add to the resolved markers just their URLs of real sources. -/
theorem citationMarkerCensus_append_nil (texts : List Text) :
    (p.citationMarkerCensus (scopes ++ texts.map fun text => (text, []))).resolved
      = (p.citationMarkerCensus scopes).resolved
        + (texts.flatMap p.markersOf).countP fun marker =>
          !p.isOrdinalMarker marker && p.canonicalMarkerKey marker ∈ p.runUrls scopes := by
  have hclass : ∀ runKeys stubKeys, (p.markerClasses runKeys stubKeys
      (texts.map fun text => (text, []))).count .resolved
        = (texts.flatMap p.markersOf).countP fun marker =>
        !p.isOrdinalMarker marker && p.canonicalMarkerKey marker ∈ runKeys := by
    intro runKeys stubKeys
    have hmap : p.markerClasses runKeys stubKeys (texts.map fun text => (text, []))
        = (texts.flatMap p.markersOf).map (p.classifyMarker runKeys stubKeys []) := by
      rw [markerClasses, List.flatMap_map, List.map_flatMap]
    rw [hmap, List.count_eq_countP, List.countP_map]
    apply List.countP_congr
    intro marker _
    simp only [Function.comp_apply, beq_iff_eq, classifyMarker_nil_resolved, Bool.and_eq_true,
      Bool.not_eq_true', decide_eq_true_eq]
  simp only [citationMarkerCensus, runUrls_append_nil, placeholderUrls_append_nil]
  rw [markerClasses, List.flatMap_append, List.count_append, ← markerClasses, ← markerClasses,
    hclass]

end LayerTables

end Quorum
