import Quorum.BaseDict
import Quorum.PassagePick
import Quorum.RobotsRequest

/-! The pages that the judge reads (`evaluation`): one item for each of its source lines, the
fetched page or its search excerpt, at most eight of them, and each address once. -/

namespace Quorum

/-- A source of an answer, as far as the judge reads it. -/
structure PageSource where
  title : Text
  url : Text
  excerpt : Text

structure SourcedAnswer where
  answerText : Text
  sources : List PageSource

/-- `source_fetcher.Outcome`. -/
inductive FetchOutcome
  | fetched
  | unusable
  | refusedScheme
  | refusedHost
  | refusedAddress
  | refusedRedirect
  | refusedContentType
  | tooLarge
  | timeout
  | httpError
  | networkError
  | skippedCap
  | refusedRobots
  | robotsUnchecked
deriving DecidableEq

/-- A row of the fetch, as far as the pages read it. -/
structure FetchedSource where
  url : Text
  outcome : FetchOutcome
  text : Text

/-- `JudgeSourcePages`, an item and a pointer for each source line. -/
structure JudgePageItems where
  pages : List Text
  sameAs : List ℕ
  read : ℕ
  cited : ℕ
  preview : ℕ
  previewOther : ℕ

/-! ### The source lines -/

/-- One pass over the answers' quotas while the budget lasts. -/
def quotaPass : ℕ → List (ℕ × List PageSource) → ℕ × List (ℕ × List PageSource)
  | 0, groups => (0, groups)
  | budget, [] => (budget, [])
  | budget + 1, (quota, group) :: groups =>
      if quota < group.length then
        let rest := quotaPass budget groups
        (rest.1, (quota + 1, group) :: rest.2)
      else
        let rest := quotaPass (budget + 1) groups
        (rest.1, (quota, group) :: rest.2)

theorem quotaPass_le (groups : List (ℕ × List PageSource)) :
    ∀ budget, (quotaPass budget groups).1 ≤ budget := by
  induction groups with
  | nil => exact fun budget => by cases budget <;> exact le_rfl
  | cons group groups ih =>
      intro budget
      cases budget with
      | zero => exact le_rfl
      | succ budget =>
          rw [quotaPass]
          split_ifs
          · exact (ih budget).trans (Nat.le_succ _)
          · exact ih (budget + 1)

theorem quotaPass_lt {groups : List (ℕ × List PageSource)} : ∀ {budget}, 0 < budget →
    (groups.any fun entry => entry.1 < entry.2.length) → (quotaPass budget groups).1 < budget := by
  induction groups with
  | nil => exact fun _ h => nomatch h
  | cons group groups ih =>
      intro budget hbudget h
      obtain ⟨budget, rfl⟩ := Nat.exists_eq_succ_of_ne_zero hbudget.ne'
      rw [quotaPass]
      split_ifs with hroom
      · exact Nat.lt_succ_of_le (quotaPass_le groups budget)
      · rw [List.any_cons, decide_eq_false hroom, Bool.false_or] at h
        exact ih hbudget h

/-- The passes, while the budget lasts and some answer has more sources. -/
def fillQuotas (budget : ℕ) (groups : List (ℕ × List PageSource)) : List (ℕ × List PageSource) :=
  if _h : 0 < budget ∧ (groups.any fun entry => entry.1 < entry.2.length) then
    fillQuotas (quotaPass budget groups).1 (quotaPass budget groups).2
  else groups
termination_by budget
decreasing_by exact quotaPass_lt _h.1 _h.2

/-- What is read of an answer's sources and of characters; `isPlaceholder` is
`_is_placeholder_source`, and `isControl` the categories `Cc` and `Cf`. -/
structure PageTables extends PassageTables where
  isPlaceholder : PageSource → Bool
  isControl : Char → Bool

/-- What a row comes to beside the excerpt of its address, and the settings that cut it. -/
structure PageSettings where
  maxTextChars : ℕ

namespace PageTables

variable (p : PageTables)

/-- `_judge_evidence_source_refs`. -/
def judgeEvidenceSourceRefs (initialAnswers : List SourcedAnswer) : List PageSource :=
  (fillQuotas judgeMaxSourceLines
    (initialAnswers.map fun answer => (0,
      answer.sources.filter fun source => !p.isPlaceholder source))).flatMap
    fun entry => entry.2.take entry.1

/-- `_lower_host` of an authority. -/
def lowerHost (authority : Text) : Text :=
  let hostAndPort := (authority.reverse.takeWhile (· ≠ '@')).reverse
  authority.take (authority.length - hostAndPort.length) ++ p.lower hostAndPort

/-- `canonical_address`. -/
def canonicalAddress (url : Text) : Text :=
  let url := (p.strip url).takeWhile (· ≠ '#')
  let scheme := url.takeWhile isSchemeChar
  let rest := url.drop scheme.length
  if (scheme.head?.map Char.isAlpha).getD false ∧ "://".toList.isPrefixOf rest then
    let authority := (rest.drop 3).takeWhile fun ch => ch ∉ ['/', '?']
    scheme ++ "://".toList ++ p.lowerHost authority ++ (rest.drop 3).drop authority.length
  else url

/-- `_clean_search_excerpt` of a text. -/
def cleanSearchExcerpt (s : PageSettings) (value : Text) : Text :=
  let raw := value.take (s.maxTextChars * 8)
  let kept := raw.filter fun ch => p.isspace ch || !p.isControl ch
  ([' '].intercalate ((kept.splitOnP p.isspace).filter (· ≠ []))).take s.maxTextChars

/-! ### The items -/

/-- What a row's item would be: a fetched page by its passages, and the excerpt otherwise. A `Char`
is never a lone surrogate, so there is none to strip. -/
def itemText (s : PageSettings) (answerTexts : List Text) (excerpts : Dict Text Text)
    (row : FetchedSource) (address : Text) : Text :=
  let pageChars := min s.maxTextChars judgeMaxSourcePageChars
  let raw := if row.outcome = .fetched then p.pickPassages row.text answerTexts pageChars
    else (excerpts.get? address).getD []
  (p.cleanSearchExcerpt s raw).take judgeMaxSourcePageChars

/-- The items that have a slot, and how many of each kind. -/
structure Slots where
  textFor : Dict Text Text
  read : ℕ
  preview : ℕ
  previewOther : ℕ

def Slots.start : Slots := { textFor := .empty, read := 0, preview := 0, previewOther := 0 }

/-- An item takes a slot when something is left of it. -/
def takeSlot (slots : Slots) (row : FetchedSource) (address text : Text) : Slots :=
  if p.strip text ≠ [] then
    { textFor := slots.textFor.set address text
      read := slots.read + if row.outcome = .fetched then 1 else 0
      preview := slots.preview + if row.outcome = .refusedRobots then 1 else 0
      previewOther := slots.previewOther
        + if row.outcome ≠ .fetched ∧ row.outcome ≠ .refusedRobots then 1 else 0 }
  else slots

/-- The loop over the rows that may have an item, each with its address, until the slots are
taken. -/
def fillSlots (text : FetchedSource → Text → Text) : List (Text × FetchedSource) → Slots → Slots
  | [], slots => slots
  | (address, row) :: rest, slots =>
      if judgeMaxSourcePages ≤ slots.textFor.size then slots
      else fillSlots text rest (p.takeSlot slots row address (text row address))

/-- The first excerpt of each address. -/
def firstExcerpts (sources : List (PageSource × Text)) : Dict Text Text :=
  sources.foldl
    (fun excerpts source =>
      if source.1.excerpt ≠ []
        ∧ source.2 ∉ excerpts.keys then excerpts.set source.2 source.1.excerpt else excerpts)
    .empty

/-- The loop over the lines: where each address first stands, the items and the pointers. -/
structure LineItems where
  firstLine : Dict Text ℕ
  pages : List Text
  sameAs : List ℕ

def LineItems.start : LineItems := { firstLine := .empty, pages := [], sameAs := [] }

/-- One line. Lines are counted from 1. -/
def addItem (textFor : Dict Text Text) (items : LineItems) (address : Text) : LineItems :=
  match items.firstLine.get? address with
  | some earlier =>
      { items with
        pages := items.pages ++ [[]]
        sameAs := items.sameAs ++ [if items.pages.getD (earlier - 1) [] ≠ [] then earlier else 0] }
  | none =>
      { firstLine := items.firstLine.set address (items.pages.length + 1)
        pages := items.pages ++ [(textFor.get? address).getD []]
        sameAs := items.sameAs ++ [0] }

/-- The distinct addresses, each at its first line: `list(dict.fromkeys(addresses))`. -/
def distinctAddresses (addresses : List Text) : List Text :=
  (Dict.ofList (addresses.map fun a => (a, ()))).keys

/-- The rows that may have an item: the attempted ones and then those never attempted. -/
def slotOrder (byUrl : Dict Text FetchedSource) (distinct : List Text) :
    List (Text × FetchedSource) :=
  let rows := distinct.filterMap fun address => (byUrl.get? address).map fun row => (address, row)
  rows.filter (fun entry => entry.2.outcome ≠ .skippedCap) ++ rows.filter fun entry =>
    entry.2.outcome = .skippedCap

/-- The addresses of the source lines. -/
def sourceAddresses (initialAnswers : List SourcedAnswer) : List Text :=
  (p.judgeEvidenceSourceRefs initialAnswers).map fun source => p.canonicalAddress source.url

/-- What each row would send to the judge. -/
def itemOf (s : PageSettings) (initialAnswers : List SourcedAnswer) (row : FetchedSource)
    (address : Text) : Text :=
  let sources := p.judgeEvidenceSourceRefs initialAnswers
  p.itemText s (initialAnswers.map SourcedAnswer.answerText)
    (firstExcerpts (sources.map fun source => (source, p.canonicalAddress source.url))) row address

/-- `judge_source_pages`, whatever rows the fetch answers with. -/
def judgeSourcePages (s : PageSettings) (fetchCitedPages : List Text → List FetchedSource)
    (initialAnswers : List SourcedAnswer) : JudgePageItems :=
  let addresses := p.sourceAddresses initialAnswers
  let distinct := distinctAddresses addresses
  let byUrl := Dict.ofList ((fetchCitedPages distinct).map fun row => (row.url, row))
  let slots := p.fillSlots (p.itemOf s initialAnswers) (slotOrder byUrl distinct) .start
  let items := addresses.foldl (addItem slots.textFor) .start
  { pages := items.pages
    sameAs := items.sameAs
    read := slots.read
    cited := distinct.length
    preview := slots.preview
    previewOther := slots.previewOther }

/-! ### The slots -/

section
variable {p : PageTables} {text : FetchedSource → Text → Text}

/-- What the loop over the rows keeps: one entry for each counted item, something in each, and no
more of them than there are slots. -/
structure SlotsWell (slots : Slots) : Prop where
  counted : slots.textFor.size = slots.read + slots.preview + slots.previewOther
  capped : slots.textFor.size ≤ judgeMaxSourcePages
  texts : ∀ address item, slots.textFor.get? address = some item → item ≠ []

theorem slotsWell_start : SlotsWell .start :=
  ⟨rfl, Nat.zero_le _, fun address item h => by cases h⟩

theorem strip_nil : p.strip [] = [] := rfl

theorem size_set_new {d : Dict Text Text} {address : Text} (h : address ∉ d.keys) (item : Text) :
    (d.set address item).size = d.size + 1 := by
  rw [Dict.set, dif_neg h, Dict.size, Dict.size, List.length_append, List.length_singleton]

theorem SlotsWell.takeSlot {slots : Slots} (h : SlotsWell slots)
    (hroom : slots.textFor.size < judgeMaxSourcePages) {address : Text}
    (hnew : address ∉ slots.textFor.keys) (row : FetchedSource) (item : Text) :
    SlotsWell (p.takeSlot slots row address item) := by
  by_cases hitem : p.strip item = []
  · rw [PageTables.takeSlot, if_neg (not_not.mpr hitem)]
    exact h
  · rw [PageTables.takeSlot, if_pos hitem]
    have hsize := size_set_new hnew item
    refine ⟨?_, by dsimp only; omega, fun other found hfound => ?_⟩
    · dsimp only
      rw [hsize, h.counted]
      by_cases hfetched : row.outcome = .fetched
      · simp only [hfetched, reduceCtorEq, ne_eq, not_true_eq_false, false_and, if_true, if_false]
        omega
      · by_cases hrefused : row.outcome = .refusedRobots
        · simp only [hrefused, reduceCtorEq, ne_eq, not_true_eq_false, and_false, if_true, if_false]
          omega
        · simp only [hfetched, hrefused, ne_eq, not_false_eq_true, and_self, if_true, if_false]
          omega
    · rw [Dict.get?_set] at hfound
      split_ifs at hfound with heq
      · obtain rfl := Option.some.inj hfound
        rintro rfl
        exact hitem strip_nil
      · exact h.texts other found hfound

theorem mem_takeSlot {slots : Slots} {row : FetchedSource} {address item other : Text} :
    other ∈ (p.takeSlot slots row address item).textFor.keys
      ↔ other ∈ slots.textFor.keys ∨ other = address ∧ p.strip item ≠ [] := by
  by_cases hitem : p.strip item = []
  · simp [PageTables.takeSlot, hitem]
  · rw [PageTables.takeSlot, if_pos hitem]
    dsimp only
    rw [Dict.mem_keys_set]
    tauto

/-- The rows that the loop reaches have an item exactly when something is left of it. -/
theorem fillSlots_spec (rows : List (Text × FetchedSource)) : ∀ {slots : Slots}, SlotsWell slots →
    (rows.map Prod.fst).Nodup → (∀ entry ∈ rows, entry.1 ∉ slots.textFor.keys) →
    SlotsWell (p.fillSlots text rows slots)
      ∧ (∀ address ∈ slots.textFor.keys, address ∈ (p.fillSlots text rows slots).textFor.keys)
      ∧ (∀ address ∈ (p.fillSlots text rows slots).textFor.keys,
          address ∈ slots.textFor.keys ∨ address ∈ rows.map Prod.fst)
      ∧ ∀ before address row after, rows = before ++ (address, row) :: after →
          p.strip (text row address) ≠ [] →
          address ∈ (p.fillSlots text rows slots).textFor.keys
            ∨ ∀ later ∈ (p.fillSlots text rows slots).textFor.keys, later ∉ after.map Prod.fst := by
  induction rows with
  | nil =>
      exact fun h _ _ => ⟨h, fun _ hkey => hkey, fun _ hkey => Or.inl hkey,
        fun before _ _ _ heq => by simp at heq⟩
  | cons first rest ih =>
      intro slots h hnodup hnew
      obtain ⟨address, row⟩ := first
      have hfresh : address ∉ slots.textFor.keys := hnew _ List.mem_cons_self
      obtain ⟨hout, hnodup⟩ := List.nodup_cons.mp hnodup
      rw [fillSlots]
      split_ifs with hfull
      · -- no slot is left for what follows
        refine ⟨h, fun _ hkey => hkey, fun _ hkey => Or.inl hkey,
          fun before other row' after heq _ => Or.inr ?_⟩
        intro later hlater hmem
        obtain ⟨entry, hentry, rfl⟩ := List.mem_map.mp hmem
        apply hnew entry _ hlater
        rw [heq]
        exact List.mem_append_right _ (List.mem_cons_of_mem _ hentry)
      · have hlater : ∀ entry ∈ rest,
            entry.1 ∉ (p.takeSlot slots row address (text row address)).textFor.keys := by
          intro entry hentry hmem
          rcases mem_takeSlot.mp hmem with hkey | ⟨heq, -⟩
          · exact hnew entry (List.mem_cons_of_mem _ hentry) hkey
          · exact hout (List.mem_map.mpr ⟨entry, hentry, heq⟩)
        obtain ⟨hwell, hkeeps, honly, hfirst⟩ :=
          ih (h.takeSlot (not_le.mp hfull) hfresh row _) hnodup hlater
        refine ⟨hwell, fun other hkey => hkeeps other (mem_takeSlot.mpr (Or.inl hkey)),
          fun other hkey => ?_, ?_⟩
        · rcases honly other hkey with hkey | hmem
          · rcases mem_takeSlot.mp hkey with hkey | ⟨rfl, -⟩
            · exact Or.inl hkey
            · exact Or.inr List.mem_cons_self
          · exact Or.inr (List.mem_cons_of_mem _ hmem)
        · intro before other row' after heq hitem
          cases before with
          | nil =>
              obtain ⟨hentry, -⟩ := List.cons.inj heq
              obtain ⟨rfl, rfl⟩ := Prod.mk.inj hentry
              exact Or.inl (hkeeps _ (mem_takeSlot.mpr (Or.inr ⟨rfl, hitem⟩)))
          | cons _ before => exact hfirst before other row' after (List.cons.inj heq).2 hitem

end

/-! ### The lines -/

section
variable {textFor : Dict Text Text} {done : List Text} {items : LineItems}

/-- The item of an address, if it has one. -/
def itemFor (textFor : Dict Text Text) (address : Text) : Text := (textFor.get? address).getD []

/-- What the loop over the lines keeps: the item of an address stands on its first line, and its
other lines point there if something stands on it. -/
structure ItemsWell (textFor : Dict Text Text) (done : List Text) (items : LineItems) : Prop where
  first : ∀ address, items.firstLine.get? address
    = if address ∈ done then some (done.idxOf address + 1) else none
  pages : items.pages.length = done.length
  sameAs : items.sameAs.length = done.length
  page : ∀ line address, done[line]? = some address →
    items.pages[line]? = some (if done.idxOf address = line then itemFor textFor address else [])
  pointer : ∀ line address, done[line]? = some address →
    items.sameAs[line]? = some (if done.idxOf address ≠ line ∧ itemFor textFor address ≠ [] then
      done.idxOf address + 1 else 0)
  count : (items.pages.filter (· ≠ [])).length
    = ((distinctAddresses done).filter fun address => itemFor textFor address ≠ []).length

theorem distinctAddresses_concat (done : List Text) (address : Text) :
    distinctAddresses (done ++ [address])
      = if address ∈ done then distinctAddresses done else distinctAddresses done ++ [address] := by
  have hmem : address ∈ (Dict.ofList (done.map fun a => (a, ()))).keys ↔ address ∈ done := by
    rw [Dict.mem_keys_ofList, List.map_map]
    exact List.mem_map.trans ⟨fun ⟨_, h, heq⟩ => heq ▸ h, fun h => ⟨_, h, rfl⟩⟩
  rw [distinctAddresses, List.map_append, Dict.ofList, List.foldl_append, List.map_singleton,
    List.foldl_cons, List.foldl_nil, ← Dict.ofList, distinctAddresses, Dict.set]
  split_ifs with hkey hdone hdone
  · rw [Dict.keys, Dict.mapValues, List.map_map]
    rfl
  · exact absurd (hmem.mp hkey) hdone
  · exact absurd (hmem.mpr hdone) hkey
  · rw [Dict.keys, List.map_append]
    rfl

/-- A line of one more address is an earlier one or the new one. -/
theorem getElem?_concat {address other : Text} {line : ℕ}
    (h : (done ++ [address])[line]? = some other) :
    line < done.length ∧ done[line]? = some other
    ∧ (done ++ [address]).idxOf other = done.idxOf other
      ∨ line = done.length ∧ other = address := by
  rcases Nat.lt_or_ge line done.length with hlt | hge
  · rw [List.getElem?_append_left hlt] at h
    exact Or.inl ⟨hlt, h, List.idxOf_append_of_mem (List.mem_of_getElem? h)⟩
  · rw [List.getElem?_append_right hge] at h
    have hzero : line - done.length = 0 := by
      have := (List.getElem?_eq_some_iff.mp h).1
      rw [List.length_singleton] at this
      omega
    rw [hzero] at h
    exact Or.inr ⟨by omega, (Option.some.inj h).symm⟩

theorem ItemsWell.addItem (h : ItemsWell textFor done items) (address : Text) :
    ItemsWell textFor (done ++ [address]) (addItem textFor items address) := by
  have hfirst := h.first address
  by_cases hmem : address ∈ done
  · have hindex : (done ++ [address]).idxOf address = done.idxOf address :=
      List.idxOf_append_of_mem hmem
    have hlt := List.idxOf_lt_length_of_mem hmem
    have hearlier := h.page _ _ (List.getElem?_idxOf hmem)
    rw [if_pos rfl] at hearlier
    rw [if_pos hmem] at hfirst
    rw [PageTables.addItem, hfirst]
    dsimp only
    rw [Nat.add_sub_cancel, List.getD_eq_getElem?_getD, hearlier, Option.getD_some]
    refine ⟨fun other => ?_, ?_, ?_, fun line other hline => ?_, fun line other hline => ?_, ?_⟩
    · rw [h.first other]
      by_cases hother : other ∈ done
      · rw [if_pos hother, if_pos (List.mem_append_left _ hother), List.idxOf_append_of_mem hother]
      · have hnot : other ∉ done ++ [address] := by
          rw [List.mem_append, List.mem_singleton]
          rintro (hin | rfl)
          · exact hother hin
          · exact hother hmem
        rw [if_neg hother, if_neg hnot]
    · rw [List.length_append, List.length_append, h.pages, List.length_singleton,
        List.length_singleton]
    · rw [List.length_append, List.length_append, h.sameAs, List.length_singleton,
        List.length_singleton]
    · rcases getElem?_concat hline with ⟨hbefore, hold, hsame⟩ | ⟨rfl, rfl⟩
      · rw [List.getElem?_append_left (by rw [h.pages]; exact hbefore), hsame]
        exact h.page line other hold
      · rw [hindex, if_neg (Nat.ne_of_lt hlt), ← h.pages, List.getElem?_concat_length]
    · rcases getElem?_concat hline with ⟨hbefore, hold, hsame⟩ | ⟨rfl, rfl⟩
      · rw [List.getElem?_append_left (by rw [h.sameAs]; exact hbefore), hsame]
        exact h.pointer line other hold
      · rw [hindex, ← h.sameAs, List.getElem?_concat_length, h.sameAs]
        by_cases hitem : itemFor textFor other = []
        · simp [hitem]
        · simp [hitem, Nat.ne_of_lt hlt]
    · rw [distinctAddresses_concat, if_pos hmem, List.filter_append, List.length_append, h.count]
      rfl
  · have hindex : (done ++ [address]).idxOf address = done.length := by
      rw [List.idxOf_append_of_notMem hmem, List.idxOf_cons_self, Nat.add_zero]
    rw [if_neg hmem] at hfirst
    rw [PageTables.addItem, hfirst]
    dsimp only
    refine ⟨fun other => ?_, ?_, ?_, fun line other hline => ?_, fun line other hline => ?_, ?_⟩
    · rw [Dict.get?_set, h.pages]
      by_cases hother : other = address
      · subst hother
        rw [if_pos rfl, if_pos (List.mem_append_right _ (List.mem_singleton_self _)), hindex]
      · rw [if_neg hother, h.first other]
        by_cases hin : other ∈ done
        · rw [if_pos hin, if_pos (List.mem_append_left _ hin), List.idxOf_append_of_mem hin]
        · rw [if_neg hin,
            if_neg (by rw [List.mem_append, List.mem_singleton, not_or]; exact ⟨hin, hother⟩)]
    · rw [List.length_append, List.length_append, h.pages, List.length_singleton,
        List.length_singleton]
    · rw [List.length_append, List.length_append, h.sameAs, List.length_singleton,
        List.length_singleton]
    · rcases getElem?_concat hline with ⟨hbefore, hold, hsame⟩ | ⟨rfl, rfl⟩
      · rw [List.getElem?_append_left (by rw [h.pages]; exact hbefore), hsame]
        exact h.page line other hold
      · rw [hindex, if_pos rfl, ← h.pages, List.getElem?_concat_length]
        rfl
    · rcases getElem?_concat hline with ⟨hbefore, hold, hsame⟩ | ⟨rfl, rfl⟩
      · rw [List.getElem?_append_left (by rw [h.sameAs]; exact hbefore), hsame]
        exact h.pointer line other hold
      · rw [hindex, ← h.sameAs, List.getElem?_concat_length, h.sameAs]
        simp
    · rw [distinctAddresses_concat, if_neg hmem, List.filter_append, List.filter_append,
        List.length_append, List.length_append, h.count]
      congr 1
      rw [List.filter_singleton, List.filter_singleton, itemFor]
      cases (textFor.get? address).getD [] <;> rfl

theorem itemsWell_foldl (textFor : Dict Text Text) (addresses : List Text) :
    ItemsWell textFor addresses (addresses.foldl (PageTables.addItem textFor) .start) := by
  induction addresses using List.reverseRecOn with
  | nil =>
      exact ⟨fun _ => rfl, rfl, rfl, fun _ _ h => by simp at h, fun _ _ h => by simp at h, rfl⟩
  | append_singleton addresses address ih =>
      rw [List.foldl_append, List.foldl_cons, List.foldl_nil]
      exact ih.addItem address

/-- The item of a line. -/
theorem ItemsWell.getD_page (h : ItemsWell textFor done items) {line : ℕ} {address : Text}
    (hline : done[line]? = some address) :
    items.pages.getD line [] = if done.idxOf address
      = line then itemFor textFor address else [] := by
  rw [List.getD_eq_getElem?_getD, h.page line address hline, Option.getD_some]

theorem distinctAddresses_spec (done : List Text) :
    (distinctAddresses done).Nodup ∧ ∀ address, address ∈ distinctAddresses done
      ↔ address ∈ done := by
  refine ⟨(Dict.ofList _).nodup, fun address => ?_⟩
  rw [distinctAddresses, Dict.mem_keys_ofList, List.map_map]
  exact List.mem_map.trans ⟨fun ⟨_, h, heq⟩ => heq ▸ h, fun h => ⟨_, h, rfl⟩⟩

theorem mem_keys_of_itemFor {address : Text} (h : itemFor textFor address ≠ []) :
    address ∈ textFor.keys := by
  by_contra hkey
  have hnone : textFor.get? address = none := by
    rw [Option.eq_none_iff_forall_ne_some]
    exact fun item hitem => hkey (Dict.mem_keys_iff.mpr ⟨item, hitem⟩)
  rw [itemFor, hnone] at h
  exact h rfl

/-- As many items stand on the lines as have a slot, when each of them is the item of some line. -/
theorem ItemsWell.count_slots (h : ItemsWell textFor done items)
    (htexts : ∀ address item, textFor.get? address = some item → item ≠ [])
    (hlines : ∀ address ∈ textFor.keys, address ∈ done) :
    (items.pages.filter (· ≠ [])).length = textFor.size := by
  have hsize : textFor.size = textFor.keys.length := (List.length_map _).symm
  rw [h.count, hsize]
  apply List.Perm.length_eq
  obtain ⟨hnodup, hmem⟩ := distinctAddresses_spec done
  refine (List.perm_ext_iff_of_nodup (hnodup.filter _) textFor.nodup).mpr fun address => ?_
  rw [List.mem_filter, decide_eq_true_iff, hmem]
  constructor
  · exact fun ⟨_, hitem⟩ => mem_keys_of_itemFor hitem
  · intro hkey
    refine ⟨hlines address hkey, ?_⟩
    obtain ⟨item, hitem⟩ := Dict.mem_keys_iff.mp hkey
    rw [itemFor, hitem]
    exact htexts address item hitem

/-- The first line of an address is no later than any other line of it. -/
theorem idxOf_le_of_getElem? {line : ℕ} {address : Text} (h : done[line]? = some address) :
    done.idxOf address ≤ line := by
  obtain ⟨hlt, heq⟩ := List.getElem?_eq_some_iff.mp h
  by_contra hgt
  have hbefore := List.not_of_lt_findIdx (not_le.mp hgt)
  rw [heq, beq_self_eq_true] at hbefore
  cases hbefore

end

/-! ### The rows -/

section
variable {byUrl : Dict Text FetchedSource} {distinct : List Text}

/-- The order of the slots only moves the rows that there are. -/
theorem slotOrder_perm (byUrl : Dict Text FetchedSource) (distinct : List Text) :
    (slotOrder byUrl distinct).Perm
      (distinct.filterMap fun address => (byUrl.get? address).map fun row => (address, row)) := by
  rw [slotOrder]
  refine List.Perm.trans (List.Perm.of_eq ?_)
    (List.filter_append_perm (fun entry => entry.2.outcome ≠ .skippedCap) _)
  congr 2
  funext entry
  by_cases hskipped : entry.2.outcome = .skippedCap <;> simp [hskipped]

theorem mem_slotOrder {address : Text} {row : FetchedSource} :
    (address, row) ∈ slotOrder byUrl distinct ↔ address ∈ distinct
    ∧ byUrl.get? address = some row := by
  rw [(slotOrder_perm byUrl distinct).mem_iff, List.mem_filterMap]
  constructor
  · rintro ⟨other, hin, hfound⟩
    obtain ⟨found, hrow, heq⟩ := Option.map_eq_some_iff.mp hfound
    obtain ⟨rfl, rfl⟩ := Prod.mk.inj heq
    exact ⟨hin, hrow⟩
  · rintro ⟨hin, hfound⟩
    exact ⟨address, hin, by rw [hfound, Option.map_some]⟩

/-- An address may have an item once. -/
theorem slotOrder_nodup (h : distinct.Nodup) : ((slotOrder byUrl distinct).map Prod.fst).Nodup := by
  rw [((slotOrder_perm byUrl distinct).map Prod.fst).nodup_iff, List.map_filterMap]
  refine h.filterMap fun address other found haddress hother => ?_
  rw [Option.mem_def, Option.map_map, Option.map_eq_some_iff] at haddress hother
  obtain ⟨_, -, haddress⟩ := haddress
  obtain ⟨_, -, hother⟩ := hother
  exact haddress.trans hother.symm

/-- A row whose page was attempted stands before every row whose page was not. -/
theorem slotOrder_split {address : Text} {row : FetchedSource} (hin : address ∈ distinct)
    (hrow : byUrl.get? address = some row) (hattempted : row.outcome ≠ .skippedCap) :
    ∃ before after, slotOrder byUrl distinct = before ++ (address, row) :: after
      ∧ ∀ other never, other ∈ distinct → byUrl.get? other = some never →
          never.outcome = .skippedCap →
        other ∈ after.map Prod.fst := by
  rw [slotOrder]
  generalize hrows : (distinct.filterMap fun address => (byUrl.get? address).map fun row =>
    (address, row)) = rows
  have hmem : ∀ {other found}, other ∈ distinct → byUrl.get? other = some found →
      (other, found) ∈ rows := by
    intro other found hother hfound
    rw [← hrows, List.mem_filterMap]
    exact ⟨other, hother, by rw [hfound, Option.map_some]⟩
  have hfirst : (address, row) ∈ rows.filter fun entry => entry.2.outcome ≠ .skippedCap :=
    List.mem_filter.mpr ⟨hmem hin hrow, decide_eq_true hattempted⟩
  obtain ⟨before, after, heq⟩ := List.append_of_mem hfirst
  refine ⟨before, after ++ rows.filter fun entry => entry.2.outcome = .skippedCap, ?_, ?_⟩
  · rw [heq, List.append_assoc, List.cons_append]
  · intro other never hother hnever hskipped
    rw [List.map_append]
    exact List.mem_append_right _ (List.mem_map.mpr
      ⟨_, List.mem_filter.mpr ⟨hmem hother hnever, decide_eq_true hskipped⟩, rfl⟩)

end

/-! ### The pages of the judge -/

variable (p : PageTables) (s : PageSettings) (fetchCitedPages : List Text → List FetchedSource)
  (initialAnswers : List SourcedAnswer)

/-- The row of an address, as the fetch of the distinct addresses answers it. -/
def rowAt (address : Text) : Option FetchedSource :=
  (Dict.ofList ((fetchCitedPages (distinctAddresses (p.sourceAddresses initialAnswers))).map
    fun row => (row.url, row))).get? address

/-- The text that a row would send to the judge has something in it. -/
def HasText (row : FetchedSource) (address : Text) : Prop :=
  p.strip (p.itemOf s initialAnswers row address) ≠ []

/-- The page items line up with the source lines. -/
structure LinesUp (lines : List Text) (judge : JudgePageItems) : Prop where
  onePerLine : judge.pages.length = lines.length ∧ judge.sameAs.length = lines.length
  capped : (judge.pages.filter (· ≠ [])).length ≤ judgeMaxSourcePages
  once : ∀ i j address, lines[i]? = some address → lines[j]? = some address →
    judge.pages.getD i [] ≠ [] → judge.pages.getD j [] ≠ [] → i = j
  pointers : ∀ j earlier, judge.sameAs[j]? = some earlier → earlier ≠ 0 →
    ∃ i, earlier = i + 1 ∧ i < j ∧ lines[i]? = lines[j]? ∧ judge.pages.getD i [] ≠ []
  counted : judge.read + judge.preview + judge.previewOther = (judge.pages.filter (· ≠ [])).length
  attemptedFirst : ∀ address row, address ∈ lines →
    p.rowAt fetchCitedPages initialAnswers address = some row →
    row.outcome ≠ .skippedCap → p.HasText s initialAnswers row address →
    ∀ j other never, lines[j]? = some other →
      p.rowAt fetchCitedPages initialAnswers other = some never →
      never.outcome = .skippedCap → judge.pages.getD j [] ≠ [] →
      ∃ i, lines[i]? = some address ∧ judge.pages.getD i [] ≠ []

/-- For all answers and whatever rows the fetch answers with, the page items line up with the source
lines. -/
theorem judgeSourcePages_linesUp :
    p.LinesUp s fetchCitedPages initialAnswers (p.sourceAddresses initialAnswers)
      (p.judgeSourcePages s fetchCitedPages initialAnswers) := by
  obtain ⟨hnodup, hdistinct⟩ := distinctAddresses_spec (p.sourceAddresses initialAnswers)
  generalize hbyUrl : Dict.ofList
    ((fetchCitedPages (distinctAddresses (p.sourceAddresses initialAnswers))).map
    fun row => (row.url, row)) = byUrl
  have hrow : ∀ address, p.rowAt fetchCitedPages initialAnswers address = byUrl.get? address :=
    fun address => by rw [rowAt, hbyUrl]
  obtain ⟨hwell, -, honly, hfirst⟩ := @fillSlots_spec p (p.itemOf s initialAnswers)
    (slotOrder byUrl (distinctAddresses (p.sourceAddresses initialAnswers))) _ slotsWell_start
    (slotOrder_nodup hnodup) (fun entry _ hkey => by cases hkey)
  unfold judgeSourcePages
  simp only [hbyUrl]
  generalize p.fillSlots (p.itemOf s initialAnswers)
    (slotOrder byUrl (distinctAddresses (p.sourceAddresses initialAnswers))) .start = slots
    at hwell honly hfirst ⊢
  have hlines : ∀ address ∈ slots.textFor.keys, address ∈ p.sourceAddresses initialAnswers := by
    intro address hkey
    rcases honly address hkey with hnone | hmem
    · cases hnone
    · obtain ⟨⟨_, row⟩, hentry, rfl⟩ := List.mem_map.mp hmem
      exact (hdistinct _).mp (mem_slotOrder.mp hentry).1
  have hitems := itemsWell_foldl slots.textFor (p.sourceAddresses initialAnswers)
  have hcount := hitems.count_slots hwell.texts hlines
  generalize (p.sourceAddresses initialAnswers).foldl (addItem slots.textFor) .start
    = items at hitems hcount ⊢
  refine ⟨⟨hitems.pages, hitems.sameAs⟩, ?_, ?_, ?_, ?_, ?_⟩
  · rw [hcount]
    exact hwell.capped
  · intro i j address hi hj
    rw [hitems.getD_page hi, hitems.getD_page hj]
    split_ifs with hfirsti hfirstj
    · exact fun _ _ => hfirsti.symm.trans hfirstj
    all_goals exact fun hi hj => absurd rfl (by assumption)
  · intro j earlier hpointer hne
    have hj : j < (p.sourceAddresses initialAnswers).length := by
      rw [← hitems.sameAs]
      exact (List.getElem?_eq_some_iff.mp hpointer).1
    have hline := List.getElem?_eq_getElem hj
    generalize (p.sourceAddresses initialAnswers)[j] = address at hline
    rw [hitems.pointer j address hline] at hpointer
    split_ifs at hpointer with hpoints
    · have hfound := List.getElem?_idxOf (List.mem_of_getElem? hline)
      refine ⟨_, (Option.some.inj hpointer).symm,
        lt_of_le_of_ne (idxOf_le_of_getElem? hline) hpoints.1,
        hfound.trans hline.symm, ?_⟩
      rw [hitems.getD_page hfound, if_pos rfl]
      exact hpoints.2
    · exact absurd (Option.some.inj hpointer).symm hne
  · exact hwell.counted.symm.trans hcount.symm
  · intro address row hin haddress hattempted htext j other never hj hother hskipped hitem
    rw [hrow] at haddress hother
    obtain ⟨before, after, horder, hlater⟩ :=
      slotOrder_split ((hdistinct _).mpr hin) haddress hattempted
    have hotherKey : other ∈ slots.textFor.keys := by
      rw [hitems.getD_page hj] at hitem
      split_ifs at hitem
      · exact mem_keys_of_itemFor hitem
      · exact absurd rfl hitem
    rcases hfirst before address row after horder htext with hkey | hnone
    · have hfound := List.getElem?_idxOf hin
      refine ⟨_, hfound, ?_⟩
      rw [hitems.getD_page hfound, if_pos rfl, itemFor]
      obtain ⟨item, hkey⟩ := Dict.mem_keys_iff.mp hkey
      rw [hkey]
      exact hwell.texts address item hkey
    · exact absurd
        (hlater other never ((hdistinct _).mpr (List.mem_of_getElem? hj)) hother hskipped)
        (hnone other hotherKey)

end PageTables

end Quorum
