import Quorum.BaseWords
import Quorum.FetchAddress

/-! The text of a fetched page (`source_fetcher.reading_text`). A short page is its visible text. Of
a long one the blocks of its main area are kept, and the blocks together are the visible text:
nothing is lost before an area is chosen. -/

namespace Quorum

open Words

/-! ### The parser's events -/

/-- `_SKIPPED_TAGS`. -/
def skippedTags : List Text :=
  ["script", "style", "noscript", "template", "svg", "head"].map String.toList

/-- `_BLOCK_TAGS`. -/
def blockTags : List Text :=
  ["address", "article", "aside", "blockquote", "body", "caption", "dd", "details", "dialog",
    "div", "dl", "dt",
    "fieldset", "figcaption", "figure", "footer", "form", "h1", "h2", "h3", "h4", "h5", "h6",
    "header", "hr", "html",
    "legend", "li", "main", "nav", "ol", "p", "pre", "section", "summary", "table", "tbody", "td",
    "tfoot", "th",
    "thead", "tr", "ul"].map String.toList

/-- `_FURNITURE_TAGS`. -/
def furnitureTags : List Text := ["nav", "header", "footer", "aside", "form"].map String.toList

/-- `_MAIN_AREA_MIN_CHARS`. -/
def mainAreaMinChars : ℕ := 1000

def readingTextMaxChars : ℕ := 262144

/-- `_TextExtractor`. -/
structure TextExtractor where
  skipDepth : ℕ
  parts : List Text

def TextExtractor.start : TextExtractor := { skipDepth := 0, parts := [] }

/-- Its three handlers. -/
def TextExtractor.handle (parser : TextExtractor) : HtmlEvent → TextExtractor
  | .startTag tag =>
      if tag ∈ skippedTags then { parser with skipDepth := parser.skipDepth + 1 } else parser
  | .endTag tag =>
      if tag ∈ skippedTags ∧ parser.skipDepth ≠ 0 then
        { parser with skipDepth := parser.skipDepth - 1 } else parser
  | .data text =>
      if parser.skipDepth = 0 then { parser with parts := parser.parts ++ [text] } else parser

/-- `_BlockExtractor`: an article is the places of the blocks from its start to its end, which is -1
while it is open. -/
structure BlockExtractor where
  text : TextExtractor
  texts : List Text
  inMain : List Bool
  inFurniture : List Bool
  articles : List (ℕ × ℤ)
  openArticles : List ℕ
  pending : List Text
  main : ℕ
  furniture : ℕ

def BlockExtractor.start : BlockExtractor :=
  { text := .start, texts := [], inMain := [], inFurniture := [], articles := [],
    openArticles := [], pending := []
    main := 0, furniture := 0 }

/-- An article ends at a place. -/
def endArticle (place : ℕ) (articles : List (ℕ × ℤ)) (index : ℕ) : List (ℕ × ℤ) :=
  articles.modify index fun article => (article.1, place)

/-- `_joined_length`. -/
def joinedLength (blocks : List Text) : ℕ := (blocks.map List.length).sum + (blocks.length - 1)

/-- A place of a list, from its end where it is negative. -/
def placeIn (length : ℕ) (index : ℤ) : ℕ :=
  if index < 0 then ((length : ℤ) + index).toNat else index.toNat

/-- The length of an article's blocks joined, by the running lengths of the blocks. -/
def articleLength (texts : List Text) (article : ℕ × ℤ) : ℤ :=
  let prefixSums := texts.scanl (fun sum text => sum + text.length) (0 : ℕ)
  (prefixSums.getD (placeIn prefixSums.length article.2) 0 : ℤ) - prefixSums.getD article.1 0
    + max 0 (article.2 - article.1 - 1)

/-- The first of the longest: `max` with a key. -/
def longestArticle (texts : List Text) (articles : List (ℕ × ℤ)) : Option (ℕ × ℤ) :=
  articles.foldl
    (fun longest article =>
      match longest with
      | none => some article
      | some other =>
          if articleLength texts other < articleLength texts article then some article
          else some other)
    none

/-- The blocks that a flag picks. -/
def blocksWhere (texts : List Text) (flags : List Bool) (wanted : Bool) : List Text :=
  ((texts.zip flags).filter fun block => block.2 = wanted).map Prod.fst

/-- `_main_area`. -/
def BlockExtractor.mainArea (parser : BlockExtractor) (visibleChars : ℕ) : List Text :=
  let unfurnished := blocksWhere parser.texts parser.inFurniture false
  let kept := joinedLength unfurnished
  let rest := if mainAreaMinChars ≤ kept ∧
    visibleChars ≤ 2 * kept then unfurnished else parser.texts
  let main := blocksWhere parser.texts parser.inMain true
  if mainAreaMinChars ≤ joinedLength main then main
  else
    match longestArticle parser.texts parser.articles with
    | none => rest
    | some article =>
        if mainAreaMinChars ≤ articleLength parser.texts article then
          (parser.texts.take (placeIn parser.texts.length article.2)).drop article.1
        else rest

namespace FetchTables

variable (t : FetchTables)

/-- `_flush`. -/
def flush (parser : BlockExtractor) : BlockExtractor :=
  let text := collapse t.isspace ' ' ([' '].intercalate parser.pending)
  let flushed := { parser with pending := [] }
  if text = [] then flushed
  else
    { flushed with
      texts := parser.texts ++ [text]
      inMain := parser.inMain ++ [decide (0 < parser.main)]
      inFurniture := parser.inFurniture ++ [decide (0 < parser.furniture)] }

/-- The handlers of `_BlockExtractor`, each after the one it overrides. -/
def handle (parser : BlockExtractor) (event : HtmlEvent) : BlockExtractor :=
  let extended := { parser with text := parser.text.handle event }
  match event with
  | .startTag tag =>
      if tag ∉ blockTags then extended
      else
        let flushed := t.flush extended
        if tag = "main".toList then { flushed with main := flushed.main + 1 }
        else if tag = "article".toList then
          { flushed with
            openArticles := flushed.openArticles ++ [flushed.articles.length]
            articles := flushed.articles ++ [(flushed.texts.length, -1)] }
        else if tag ∈ furnitureTags then { flushed with furniture := flushed.furniture + 1 }
        else flushed
  | .endTag tag =>
      if tag ∉ blockTags then extended
      else
        let flushed := t.flush extended
        if tag = "main".toList ∧ flushed.main ≠ 0 then { flushed with main := flushed.main - 1 }
        else if h : tag = "article".toList ∧ flushed.openArticles ≠ [] then
          { flushed with
            openArticles := flushed.openArticles.dropLast
            articles := endArticle flushed.texts.length flushed.articles
              (flushed.openArticles.getLast h.2) }
        else if tag ∈ furnitureTags ∧ flushed.furniture ≠ 0 then
          { flushed with furniture := flushed.furniture - 1 }
        else flushed
  | .data text =>
      if parser.text.parts.length < extended.text.parts.length then
        { extended with pending := parser.pending ++ [text] }
      else extended

/-- `close`: an article never closed runs to the end of the page. -/
def close (parser : BlockExtractor) : BlockExtractor :=
  let flushed := t.flush parser
  { flushed with
    articles := flushed.openArticles.foldl (endArticle flushed.texts.length) flushed.articles
    openArticles := [] }

/-- The blocks of a page. -/
def blocksOf (events : List HtmlEvent) : BlockExtractor := t.close (events.foldl t.handle .start)

/-- `extract_text`. -/
def extractText (body contentType : Text) (maxChars : ℕ) : Text :=
  let body := if contentType = "text/html".toList then
      [' '].intercalate ((t.htmlEvents body).foldl TextExtractor.handle .start).parts
    else body
  (collapse t.isspace ' ' body).take maxChars

/-- What `re.split` takes for a blank line may hold. -/
def isLineBlank (ch : Char) : Bool := ch ∈ [' ', '\t', '\r', Char.ofNat 12, Char.ofNat 11]

/-- `re.split(r"\n[ \t\r\f\v]*\n", body)`, with the part of a paragraph that was read. -/
def paragraphsFrom (read : Text) : Text → List Text
  | [] => [read]
  | ch :: rest =>
      if ch = '\n' ∧ (rest.dropWhile isLineBlank).head? = some '\n' then
        read :: paragraphsFrom [] ((rest.dropWhile isLineBlank).drop 1)
      else paragraphsFrom (read ++ [ch]) rest
termination_by text => text.length
decreasing_by
  · have hle := (List.dropWhile_suffix (l := rest) isLineBlank).length_le
    simp only [List.length_drop, List.length_cons]
    omega
  · simp

/-- `reading_text`. -/
def readingText (body contentType : Text) (limit : ℕ) : Text :=
  if contentType = "text/html".toList then
    let parser := t.blocksOf (t.htmlEvents body)
    let visible := collapse t.isspace ' ' ([' '].intercalate parser.text.parts)
    if visible.length ≤ limit then visible
    else (['\n'].intercalate (parser.mainArea visible.length)).take readingTextMaxChars
  else
    let visible := collapse t.isspace ' ' body
    if visible.length ≤ limit then visible
    else
      let blocks := ((paragraphsFrom [] body).map (collapse t.isspace ' ')).filter fun block =>
        !block.isEmpty
      (['\n'].intercalate blocks).take readingTextMaxChars

/-! ### The blocks of a page -/

/-- An article is open, or its places are within the blocks. -/
def ArticleWithin (length : ℕ) (opened : Prop) (article : ℕ × ℤ) : Prop :=
  article.1 ≤ length ∧
    (article.2 = -1 ∧ opened ∨ (article.1 : ℤ) ≤ article.2 ∧ article.2 ≤ (length : ℤ))

theorem ArticleWithin.mono {length length' : ℕ} {opened opened' : Prop} {article : ℕ × ℤ}
    (h : ArticleWithin length opened article) (hle : length ≤ length')
    (hopened : opened → opened') :
    ArticleWithin length' opened' article := by
  refine ⟨h.1.trans hle,
    h.2.imp (fun hopen => ⟨hopen.1, hopened hopen.2⟩) fun hclosed => ⟨hclosed.1, ?_⟩⟩
  exact hclosed.2.trans (by exact_mod_cast hle)

/-- What the handlers keep: flags for each block, articles within the blocks, blocks with something
in them, and the words of the blocks and of what is pending are those of the visible text. -/
structure BlocksWell (parser : BlockExtractor) : Prop where
  main : parser.inMain.length = parser.texts.length
  furniture : parser.inFurniture.length = parser.texts.length
  articles : ∀ index article, parser.articles[index]? = some article →
    ArticleWithin parser.texts.length (index ∈ parser.openArticles) article
  blocks : ∀ text ∈ parser.texts, text ≠ [] ∧ collapse t.isspace ' ' text = text
  words : parser.texts.flatMap (words t.isspace)
    ++ words t.isspace ([' '].intercalate parser.pending) =
    words t.isspace ([' '].intercalate parser.text.parts)

theorem blocksWell_start : t.BlocksWell .start where
  main := rfl
  furniture := rfl
  articles := fun index article h => by cases h
  blocks := fun text h => by cases h
  words := rfl

variable {t} {parser : BlockExtractor}

theorem BlocksWell.flush (hblank : t.isspace ' ' = true) (h : t.BlocksWell parser) :
    t.BlocksWell (t.flush parser) := by
  rw [FetchTables.flush]
  dsimp only
  split_ifs with hnil
  · exact ⟨h.main, h.furniture, h.articles, h.blocks,
      by rw [← h.words, words_eq_nil_of_collapse hnil]; simp⟩
  · refine ⟨?_, ?_, ?_, ?_, ?_⟩
    · simp [h.main]
    · simp [h.furniture]
    · intro index article harticle
      exact (h.articles index article harticle).mono (by simp) id
    · intro text htext
      rcases List.mem_append.mp htext with htext | htext
      · exact h.blocks text htext
      · rw [List.mem_singleton.mp htext]
        exact ⟨hnil, collapse_collapse hblank _⟩
    · rw [← h.words, List.flatMap_append, List.flatMap_singleton, words_collapse hblank]
      simp

/-- A tag changes no part. -/
theorem parts_handle_tag (text : TextExtractor) (tag : Text) :
    (text.handle (.startTag tag)).parts = text.parts ∧
    (text.handle (.endTag tag)).parts = text.parts := by
  rw [TextExtractor.handle, TextExtractor.handle]
  constructor <;> split_ifs <;> rfl

/-- What a flushed parser may count. -/
theorem BlocksWell.recount (h : t.BlocksWell parser) (main furniture : ℕ) :
    t.BlocksWell { parser with main, furniture } :=
  ⟨h.main, h.furniture, h.articles, h.blocks, h.words⟩

theorem BlocksWell.retext (h : t.BlocksWell parser) {text : TextExtractor}
    (htext : text.parts = parser.text.parts) :
    t.BlocksWell { parser with text } :=
  ⟨h.main, h.furniture, h.articles, h.blocks, by rw [htext]; exact h.words⟩

theorem BlocksWell.openArticle (h : t.BlocksWell parser) :
    t.BlocksWell { parser with
      openArticles := parser.openArticles ++ [parser.articles.length]
      articles := parser.articles ++ [(parser.texts.length, -1)] } := by
  refine ⟨h.main, h.furniture, fun index article harticle => ?_, h.blocks, h.words⟩
  dsimp only at harticle ⊢
  rw [List.getElem?_append] at harticle
  split_ifs at harticle with hindex
  · exact (h.articles index article harticle).mono le_rfl (List.mem_append_left _)
  · obtain ⟨hlt, rfl⟩ := List.getElem?_eq_some_iff.mp harticle
    have hzero : index = parser.articles.length := by
      simp only [List.length_singleton] at hlt
      omega
    refine ⟨by simp, Or.inl ⟨by simp, ?_⟩⟩
    rw [hzero]
    exact List.mem_append_right _ List.mem_cons_self

/-- An article that ends where the blocks end is within them. -/
theorem getElem?_endArticle {place index other : ℕ} {articles : List (ℕ × ℤ)} {article : ℕ × ℤ}
    (h : (endArticle place articles index)[other]? = some article) :
    index ≠ other ∧ articles[other]? = some article ∨
      index = other ∧ ∃ start stop, articles[other]? = some (start, stop) ∧
        article = (start, (place : ℤ)) := by
  rw [endArticle, List.getElem?_modify] at h
  split_ifs at h with hindex
  · obtain ⟨old, hold, rfl⟩ := Option.map_eq_some_iff.mp h
    exact Or.inr ⟨hindex, old.1, old.2, hold, rfl⟩
  · exact Or.inl ⟨hindex, by simpa using h⟩

theorem BlocksWell.closeArticle (h : t.BlocksWell parser) (hopen : parser.openArticles ≠ []) :
    t.BlocksWell { parser with
      openArticles := parser.openArticles.dropLast
      articles := endArticle parser.texts.length parser.articles
        (parser.openArticles.getLast hopen) } := by
  refine ⟨h.main, h.furniture, fun index article harticle => ?_, h.blocks, h.words⟩
  rcases getElem?_endArticle harticle with ⟨hne, hold⟩ | ⟨-, start, stop, hold, rfl⟩
  · refine (h.articles index article hold).mono le_rfl fun hmem => ?_
    rw [← List.dropLast_append_getLast hopen, List.mem_append, List.mem_singleton] at hmem
    exact hmem.resolve_right hne.symm
  · have hstart := (h.articles index _ hold).1
    exact ⟨hstart, Or.inr ⟨Int.ofNat_le.mpr hstart, le_rfl⟩⟩

theorem BlocksWell.handle (hblank : t.isspace ' ' = true) (h : t.BlocksWell parser)
    (event : HtmlEvent) :
    t.BlocksWell (t.handle parser event) := by
  cases event with
  | startTag tag =>
      have hextended := h.retext (parts_handle_tag parser.text tag).1
      have hflushed := hextended.flush hblank
      rw [FetchTables.handle]
      dsimp only
      split_ifs
      · exact hflushed.recount _ _
      · exact hflushed.openArticle
      · exact hflushed.recount _ _
      · exact hflushed
      · exact hextended
  | endTag tag =>
      have hextended := h.retext (parts_handle_tag parser.text tag).2
      have hflushed := hextended.flush hblank
      rw [FetchTables.handle]
      dsimp only
      split_ifs with hblock hmain harticle
      · exact hflushed.recount _ _
      · exact hflushed.closeArticle harticle.2
      · exact hflushed.recount _ _
      · exact hflushed
      · exact hextended
  | data text =>
      rw [FetchTables.handle]
      dsimp only
      rw [TextExtractor.handle]
      by_cases hskip : parser.text.skipDepth = 0
      · rw [if_pos hskip, if_pos (by simp)]
        refine ⟨h.main, h.furniture, h.articles, h.blocks, ?_⟩
        have hwords := h.words
        rw [words_join hblank parser.pending, words_join hblank parser.text.parts] at hwords
        dsimp only
        rw [words_join hblank (parser.pending ++ [text]),
          words_join hblank (parser.text.parts ++ [text]), List.flatMap_append, List.flatMap_append,
          ← List.append_assoc, hwords]
      · rw [if_neg hskip, if_neg (lt_irrefl _)]
        exact h

theorem blocksWell_foldl (hblank : t.isspace ' ' = true) (events : List HtmlEvent)
    (h : t.BlocksWell parser) :
    t.BlocksWell (events.foldl t.handle parser) := by
  induction events generalizing parser with
  | nil => exact h
  | cons event events ih => exact ih (h.handle hblank event)

/-! ### A closed page -/

/-- Ending some open articles ends every one of them. -/
theorem getElem?_foldl_endArticle {place : ℕ} {opened : List ℕ} {articles : List (ℕ × ℤ)}
    {index : ℕ} {article : ℕ × ℤ}
    (h : (opened.foldl (endArticle place) articles)[index]? = some article) :
    index ∉ opened ∧ articles[index]? = some article ∨
      ∃ start stop, articles[index]? = some (start, stop) ∧ article = (start, (place : ℤ)) := by
  induction opened generalizing articles with
  | nil => exact Or.inl ⟨List.not_mem_nil, h⟩
  | cons first opened ih =>
      rcases ih h with ⟨hlater, hold⟩ | ⟨start, stop, hold, harticle⟩
      · rcases getElem?_endArticle hold with ⟨hne, hfirst⟩ | ⟨-, start, stop, hfirst, rfl⟩
        · refine Or.inl ⟨fun hmem => ?_, hfirst⟩
          exact (List.mem_cons.mp hmem).elim (fun heq => hne heq.symm) hlater
        · exact Or.inr ⟨start, stop, hfirst, rfl⟩
      · rcases getElem?_endArticle hold with ⟨-, hfirst⟩ | ⟨-, start', stop', hfirst, heq⟩
        · exact Or.inr ⟨start, stop, hfirst, harticle⟩
        · obtain ⟨rfl, -⟩ := Prod.mk.inj heq
          exact Or.inr ⟨start, stop', hfirst, harticle⟩

/-- What holds of the blocks of a page. -/
structure BlocksClosed (parser : BlockExtractor) : Prop where
  main : parser.inMain.length = parser.texts.length
  furniture : parser.inFurniture.length = parser.texts.length
  articles : ∀ article ∈ parser.articles, ∃ stop : ℕ, article.2 = stop ∧ article.1 ≤ stop ∧
    stop ≤ parser.texts.length
  blocks : ∀ text ∈ parser.texts, text ≠ [] ∧ collapse t.isspace ' ' text = text
  visible : [' '].intercalate parser.texts =
    collapse t.isspace ' ' ([' '].intercalate parser.text.parts)

theorem BlocksWell.close (hblank : t.isspace ' ' = true) (h : t.BlocksWell parser) :
    t.BlocksClosed (t.close parser) := by
  have hflushed := h.flush hblank
  have hpending : (t.flush parser).pending = [] := by
    rw [FetchTables.flush]
    dsimp only
    split_ifs <;> rfl
  refine ⟨hflushed.main, hflushed.furniture, fun article harticle => ?_, hflushed.blocks, ?_⟩
  · obtain ⟨index, hindex⟩ := List.mem_iff_getElem?.mp harticle
    rcases getElem?_foldl_endArticle hindex with ⟨hclosed, hold⟩ | ⟨start, stop, hold, rfl⟩
    · obtain ⟨hstart, hopen | ⟨hle, hwithin⟩⟩ := hflushed.articles index article hold
      · exact absurd hopen.2 hclosed
      · refine ⟨article.2.toNat, ?_, ?_, ?_⟩
        · rw [Int.toNat_of_nonneg ((Int.natCast_nonneg _).trans hle)]
        · omega
        · change _ ≤ (t.flush parser).texts.length
          omega
    · exact ⟨_, rfl, (hflushed.articles index _ hold).1, le_rfl⟩
  · refine join_of_words (fun text htext => (hflushed.blocks text htext).1)
      (fun text htext => (hflushed.blocks text htext).2) ?_
    have hwords := hflushed.words
    rw [hpending, List.intercalate_nil, words_nil, List.append_nil] at hwords
    exact hwords

theorem blocksClosed (hblank : t.isspace ' ' = true) (events : List HtmlEvent) :
    t.BlocksClosed (t.blocksOf events) :=
  (blocksWell_foldl hblank events t.blocksWell_start).close hblank

theorem text_flush (parser : BlockExtractor) : (t.flush parser).text = parser.text := by
  rw [FetchTables.flush]
  dsimp only
  split_ifs <;> rfl

/-- The parts are those of the plain extractor. -/
theorem text_handle (parser : BlockExtractor) (event : HtmlEvent) :
    (t.handle parser event).text = parser.text.handle event := by
  cases event with
  | startTag tag =>
      rw [FetchTables.handle]
      dsimp only
      split_ifs <;> first | rfl | exact text_flush _
  | endTag tag =>
      rw [FetchTables.handle]
      dsimp only
      split_ifs <;> first | rfl | exact text_flush _
  | data text =>
      rw [FetchTables.handle]
      dsimp only
      split_ifs <;> rfl

theorem text_blocksOf (events : List HtmlEvent) :
    (t.blocksOf events).text = events.foldl TextExtractor.handle .start := by
  have hfold : ∀ parser : BlockExtractor, (events.foldl t.handle parser).text =
      events.foldl TextExtractor.handle parser.text := by
    induction events with
    | nil => exact fun parser => rfl
    | cons event events ih => exact fun parser => (ih _).trans (by rw [text_handle]; rfl)
  exact (text_flush _).trans (hfold .start)

end FetchTables

/-! ### The main area -/

theorem getD_prefixSums (texts : List Text) {place : ℕ} (hplace : place ≤ texts.length) :
    (texts.scanl (fun sum text => sum + text.length) (0 : ℕ)).getD place 0 =
      ((texts.take place).map List.length).sum := by
  have hlength : place < (texts.scanl (fun sum text => sum + text.length) (0 : ℕ)).length := by
    rw [List.length_scanl]
    omega
  rw [List.getD_eq_getElem _ _ hlength, List.getElem_scanl, List.sum_eq_foldl, List.foldl_map]

theorem placeIn_natCast (length place : ℕ) : placeIn length place = place := by
  rw [placeIn, if_neg (by omega), Int.toNat_natCast]

/-- The running lengths give an article the length of its blocks joined. -/
theorem articleLength_eq {texts : List Text} {start stop : ℕ} (hstart : start ≤ stop)
    (hstop : stop ≤ texts.length) :
    articleLength texts (start, (stop : ℤ)) = joinedLength ((texts.take stop).drop start) := by
  have hsplit : ((texts.take stop).map List.length).sum = ((texts.take start).map List.length).sum +
      (((texts.take stop).drop start).map List.length).sum := by
    conv_lhs => rw [← List.take_append_drop start (texts.take stop)]
    rw [List.map_append, List.sum_append, List.take_take, min_eq_left hstart]
  have hblocks : ((texts.take stop).drop start).length = stop - start := by
    rw [List.length_drop, List.length_take, min_eq_left hstop]
  rw [articleLength]
  dsimp only
  rw [placeIn_natCast, getD_prefixSums texts hstop, getD_prefixSums texts (hstart.trans hstop),
    joinedLength, hblocks, hsplit]
  push_cast
  omega

/-- The longest article is one of them, and no other is longer. -/
theorem longestArticle_spec (texts : List Text) {articles : List (ℕ × ℤ)} {article : ℕ × ℤ}
    (h : longestArticle texts articles = some article) :
    article ∈ articles ∧ ∀ other ∈ articles,
      articleLength texts other ≤ articleLength texts article := by
  induction articles using List.reverseRecOn generalizing article with
  | nil => cases h
  | append_singleton articles last ih =>
      rw [longestArticle, List.foldl_append] at h
      change (match longestArticle texts articles with
        | none => some last
        | some other =>
          if articleLength texts other < articleLength texts last then some last else some other) =
          some article at h
      cases hlongest : longestArticle texts articles with
      | none =>
          rw [hlongest] at h
          obtain rfl := Option.some.inj h
          have hnil : articles = [] := by
            by_contra hne
            obtain ⟨front, other, rfl⟩ := List.eq_nil_or_concat articles |>.resolve_left hne
            rw [List.concat_eq_append, longestArticle, List.foldl_append, List.foldl_cons,
              List.foldl_nil] at hlongest
            split at hlongest
            · cases hlongest
            · split_ifs at hlongest
          subst hnil
          exact ⟨by simp, fun other hother => by rw [List.mem_singleton.mp hother]⟩
      | some other =>
          obtain ⟨hmem, hmost⟩ := ih hlongest
          rw [hlongest] at h
          dsimp only at h
          split_ifs at h with hlonger
          · obtain rfl := Option.some.inj h
            refine ⟨by simp, fun another hanother => ?_⟩
            rcases List.mem_append.mp hanother with hanother | hanother
            · exact (hmost another hanother).trans hlonger.le
            · rw [List.mem_singleton.mp hanother]
          · obtain rfl := Option.some.inj h
            refine ⟨List.mem_append_left _ hmem, fun another hanother => ?_⟩
            rcases List.mem_append.mp hanother with hanother | hanother
            · exact hmost another hanother
            · rw [List.mem_singleton.mp hanother]
              exact not_lt.mp hlonger

theorem blocksWhere_sublist {texts : List Text} {flags : List Bool}
    (h : flags.length = texts.length) (wanted : Bool) :
    (blocksWhere texts flags wanted).Sublist texts := by
  have hsublist := (List.filter_sublist (p := fun block : Text × Bool => block.2 = wanted)
    (l := texts.zip flags)).map Prod.fst
  rwa [List.map_fst_zip h.ge] at hsublist

namespace FetchTables

variable {t : FetchTables} {parser : BlockExtractor}

/-- The area is made of the page's blocks in their order, and is all of them unless it holds
enough. -/
theorem BlocksClosed.mainArea (h : t.BlocksClosed parser) (visibleChars : ℕ) :
    (parser.mainArea visibleChars).Sublist parser.texts ∧
      (parser.mainArea visibleChars = parser.texts ∨
        mainAreaMinChars ≤ joinedLength (parser.mainArea visibleChars)) := by
  have hrest : ∀ area, (area = if mainAreaMinChars
      ≤ joinedLength (blocksWhere parser.texts parser.inFurniture false) ∧
      visibleChars ≤ 2 * joinedLength (blocksWhere parser.texts parser.inFurniture false) then
        blocksWhere parser.texts parser.inFurniture false else parser.texts) →
      area.Sublist parser.texts ∧ (area = parser.texts ∨ mainAreaMinChars ≤ joinedLength area) := by
    rintro area rfl
    split_ifs with hkept
    · exact ⟨blocksWhere_sublist h.furniture false, Or.inr hkept.1⟩
    · exact ⟨List.Sublist.refl _, Or.inl rfl⟩
  rw [BlockExtractor.mainArea]
  by_cases hmain : mainAreaMinChars ≤ joinedLength (blocksWhere parser.texts parser.inMain true)
  · rw [if_pos hmain]
    exact ⟨blocksWhere_sublist h.main true, Or.inr hmain⟩
  · rw [if_neg hmain]
    cases hlongest : longestArticle parser.texts parser.articles with
    | none => exact hrest _ rfl
    | some article =>
        dsimp only
        by_cases hlong : (mainAreaMinChars : ℤ) ≤ articleLength parser.texts article
        · obtain ⟨stop, hstop, hle, hwithin⟩ :=
            h.articles article (longestArticle_spec _ hlongest).1
          have heq : article = (article.1, (stop : ℤ)) := Prod.ext rfl hstop
          rw [heq, articleLength_eq hle hwithin] at hlong
          rw [if_pos (by rw [heq, articleLength_eq hle hwithin]; exact hlong), hstop,
            placeIn_natCast]
          exact ⟨(List.drop_sublist _ _).trans (List.take_sublist _ _),
            Or.inr (by exact_mod_cast hlong)⟩
        · rw [if_neg hlong]
          exact hrest _ rfl

/-- For every page, whatever its tags and however they nest. Every article ends within the blocks,
where the running lengths give the length of its blocks; the blocks joined are the whole visible
text; and what is read is the visible text as `extract_text` gives it where that is short, and
otherwise blocks of the page in their order, all of them or enough of them, on a line each and cut
at the most that is read. -/
theorem reading_text_blocks (hblank : t.isspace ' ' = true) (body : Text) (limit : ℕ) :
    let parser := t.blocksOf (t.htmlEvents body)
    (∀ article ∈ parser.articles, ∃ stop : ℕ,
      article.2 = stop ∧ article.1 ≤ stop ∧ stop ≤ parser.texts.length ∧
      articleLength parser.texts article = joinedLength ((parser.texts.take stop).drop article.1)) ∧
    (∀ maxChars, ([' '].intercalate parser.texts).take maxChars =
      t.extractText body "text/html".toList maxChars) ∧
    (t.readingText body "text/html".toList limit = t.extractText body "text/html".toList limit ∧
        ([' '].intercalate parser.texts).length ≤ limit ∨
      ∃ area, area.Sublist parser.texts ∧
        (area = parser.texts ∨ mainAreaMinChars ≤ joinedLength area) ∧
        t.readingText body "text/html".toList limit =
          (['\n'].intercalate area).take readingTextMaxChars ∧
        limit < ([' '].intercalate parser.texts).length) := by
  intro parser
  have hclosed : t.BlocksClosed parser := blocksClosed hblank (t.htmlEvents body)
  have hextract : ∀ maxChars, ([' '].intercalate parser.texts).take maxChars =
      t.extractText body "text/html".toList maxChars := by
    intro maxChars
    rw [hclosed.visible, text_blocksOf, extractText, if_pos rfl]
  refine ⟨fun article harticle => ?_, hextract, ?_⟩
  · obtain ⟨stop, hstop, hle, hwithin⟩ := hclosed.articles article harticle
    refine ⟨stop, hstop, hle, hwithin, ?_⟩
    rw [← articleLength_eq hle hwithin, ← hstop]
  · rw [readingText, if_pos rfl, hclosed.visible]
    by_cases hshort : (collapse t.isspace ' ' ([' '].intercalate parser.text.parts)).length ≤ limit
    · refine Or.inl ⟨(if_pos hshort).trans ?_, hshort⟩
      rw [← hextract, hclosed.visible, List.take_of_length_le hshort]
    · exact Or.inr ⟨_, (hclosed.mainArea _).1, (hclosed.mainArea _).2, if_neg hshort,
        not_le.mp hshort⟩

end FetchTables

/-- A page with one article, and every letter ASCII. -/
def articlePage : FetchTables :=
  { PassageTables.asciiPassageTables with
    isPlaceholder := fun _ => false
    isControl := fun ch => ch.toNat < 32
    ipAddress := fun text => if text = "1.1.1.1".toList then some (.v4 0x01010101) else none
    isGlobal := fun _ => true
    isMulticast := fun _ => false
    isReserved := fun _ => false
    netlocOk := fun _ => true
    isdigit := fun text => text ≠ [] ∧ text.all Char.isDigit
    int := fun text => some (text.foldl (fun value ch => 10 * value + (ch.toNat - '0'.toNat)) 0)
    charsetOf := fun _ => none
    decode := fun _ body => some (body.map fun byte => Char.ofNat byte.toNat)
    decodeUtf8 := fun body => body.map fun byte => Char.ofNat byte.toNat
    htmlEvents := fun text =>
      [.startTag "article".toList, .data text, .startTag "script".toList, .data "x".toList,
        .endTag "script".toList,
        .endTag "article".toList] }

theorem reading_text_blocks_article :
    ([' '].intercalate (articlePage.blocksOf (articlePage.htmlEvents "a  b".toList)).texts).take 3 =
      articlePage.extractText "a  b".toList "text/html".toList 3 :=
  (FetchTables.reading_text_blocks (t := articlePage) (by decide) "a  b".toList 3).2.1 3

example : articlePage.readingText "a  b".toList "text/html".toList 3 = "a b".toList := by
  decide +kernel

end Quorum
