import Quorum.ProviderReply
import Quorum.StreamLines

/-! What a fold of frames comes to: the text, the annotations, the usage and the reason that the
frames state between them. -/

namespace Quorum

/-- A fold whose steps act on one view of the state acts on it by all the items in turn. -/
theorem foldl_view {σ γ β ν : Type} {step : σ → γ → σ} (view : σ → ν) {items : γ → List β}
    {act : ν → β → ν} {inputs : List γ}
    (h : ∀ input ∈ inputs, ∀ state, view (step state input) = (items input).foldl act (view state))
    (state : σ) :
    view (inputs.foldl step state) = (inputs.flatMap items).foldl act (view state) := by
  induction inputs generalizing state with
  | nil => rfl
  | cons input inputs ih =>
      rw [List.foldl_cons, ih fun other hother => h other (List.mem_cons_of_mem _ hother),
        h input List.mem_cons_self, List.flatMap_cons, List.foldl_append]

theorem foldl_kept {σ γ ν : Type} {step : σ → γ → σ} (view : σ → ν) {inputs : List γ}
    (h : ∀ input ∈ inputs, ∀ state, view (step state input) = view state) (state : σ) :
    view (inputs.foldl step state) = view state := by
  induction inputs generalizing state with
  | nil => rfl
  | cons input inputs ih =>
      rw [List.foldl_cons, ih fun other hother => h other (List.mem_cons_of_mem _ hother),
        h input List.mem_cons_self]

theorem foldl_snoc {β : Type} (items initial : List β) :
    items.foldl (fun found item => found ++ [item]) initial = initial ++ items := by
  induction items generalizing initial with
  | nil => rw [List.foldl_nil, List.append_nil]
  | cons item items ih => rw [List.foldl_cons, ih, List.append_assoc, List.singleton_append]

theorem foldl_last {β : Type} (items : List β) (initial : Option β) :
    items.foldl (fun _ item => some item) initial = items.getLast?.or initial := by
  induction items generalizing initial with
  | nil => rfl
  | cons item items ih =>
      rw [List.foldl_cons, ih, List.getLast?_cons]
      cases items.getLast? <;> rfl

namespace StreamFold

/-- The delta of a choice. -/
def deltaOf (choice : Json) : Option Json :=
  (choice.get? "delta").bind Json.mapping?

def choiceTexts (choice : Json) : List Text :=
  ((deltaOf choice).bind fun delta => (delta.get? "content").bind Json.str?).toList

/-- The items under a key of the choice's delta. -/
def choiceItems (key : String) (choice : Json) : List Json :=
  ((deltaOf choice).bind fun delta => (delta.get? key).bind Json.arr?).getD []

def choiceReasons (choice : Json) : List Json :=
  (choice.present? "finish_reason").toList

def isUnclean (reason : Json) : Bool :=
  (reason.str?).any fun text => text ∈ uncleanFinishReasons

/-- How a reason settles what the reasons before it came to. -/
def settle (settled : Option Json × Bool) (reason : Json) : Option Json × Bool :=
  (if isUnclean reason || !settled.2 then some reason else settled.1, settled.2 || isUnclean reason)

/-- The terminator once a reason was read. -/
def stopped (terminator : StreamTerminator) : StreamTerminator :=
  if terminator = .none ∨ terminator = .error then .finishReason else terminator

theorem noteSite_eq (fold : StreamFold) (site : AnnotationSite) (container : Option Json) :
    ∃ sites, fold.noteSite site container = { fold with annotationSites := sites } := by
  rw [noteSite]
  split_ifs
  · exact ⟨_, rfl⟩
  · exact ⟨fold.annotationSites, rfl⟩

/-- What the delta of a choice does, if it has one. -/
theorem takeDelta_eq (fold : StreamFold) (choice : Json) :
    ∃ sites, fold.takeDelta (deltaOf choice)
      = { fold with
          annotationSites := sites
          textParts := fold.textParts ++ choiceTexts choice
          annotations := fold.annotations ++ choiceItems "annotations" choice
          citations := fold.citations ++ choiceItems "citations" choice } := by
  rw [choiceTexts, choiceItems, choiceItems]
  cases deltaOf choice with
  | none => exact ⟨fold.annotationSites, by simp [takeDelta]⟩
  | some delta =>
      obtain ⟨sites, hsites⟩ := fold.noteSite_eq .delta (some delta)
      simp only [takeDelta, hsites]
      exact ⟨sites, rfl⟩

/-- What the reason of a choice does, if it has one. -/
theorem takeReason_eq (fold : StreamFold) (choice : Json) :
    fold.takeReason (choice.present? "finish_reason")
      = { fold with
          finishReason := ((choiceReasons choice).foldl settle (fold.finishReason, fold.latched)).1
          latched := ((choiceReasons choice).foldl settle (fold.finishReason, fold.latched)).2
          terminator := (choiceReasons choice).foldl (fun terminator _ => stopped terminator)
            fold.terminator } := by
  rw [choiceReasons]
  cases choice.present? "finish_reason" <;> rfl

/-- All that a choice does. -/
theorem takeCounted_eq (fold : StreamFold) (choice : Json) :
    ∃ sites, fold.takeCounted choice
      = { fold with
          annotationSites := sites
          textParts := fold.textParts ++ choiceTexts choice
          annotations := fold.annotations ++ choiceItems "annotations" choice
          citations := fold.citations ++ choiceItems "citations" choice
          finishReason := ((choiceReasons choice).foldl settle (fold.finishReason, fold.latched)).1
          latched := ((choiceReasons choice).foldl settle (fold.finishReason, fold.latched)).2
          terminator := (choiceReasons choice).foldl (fun terminator _ => stopped terminator)
            fold.terminator } := by
  obtain ⟨first, hchoice⟩ := fold.noteSite_eq .choice (some choice)
  obtain ⟨second, hmessage⟩ := noteSite_eq { fold with annotationSites := first } .message
    (choice.get? "message")
  obtain ⟨sites, hdelta⟩ := takeDelta_eq { fold with annotationSites := second } choice
  refine ⟨sites, ?_⟩
  rw [takeCounted, hchoice, hmessage, ← deltaOf, hdelta, takeReason_eq]

def frameError (frame : Json) : Option Json :=
  (frame.get? "error").bind Json.mapping?

def frameUsage (frame : Json) : Option Json :=
  (frame.get? "usage").bind Json.mapping?

/-- The choices of a frame that count. -/
def zeroChoices (frame : Json) : List Json :=
  (((frame.get? "choices").bind Json.arr?).getD []).filterMap counted

theorem foldl_takeChoice (choices : List Json) (fold : StreamFold) :
    choices.foldl takeChoice fold = (choices.filterMap counted).foldl takeCounted fold := by
  rw [List.foldl_filterMap]
  congr 1
  funext fold choice
  rw [takeChoice]
  cases counted choice <;> rfl

/-- A frame without an error states its usage and what its choices state. -/
theorem takeFrame_eq (fold : StreamFold) {frame : Json} (herror : frameError frame = none) :
    ∃ sites, fold.takeFrame frame
      = (zeroChoices frame).foldl takeCounted
          { fold with
            frameCount := fold.frameCount + 1
            usage := (frameUsage frame).or fold.usage
            annotationSites := sites } := by
  rw [frameError] at herror
  rw [zeroChoices, frameUsage]
  cases frame with
  | obj fields =>
      simp only [← foldl_takeChoice, takeFrame, herror]
      cases husage : ((Json.obj fields).get? "usage").bind Json.mapping? with
      | none =>
          obtain ⟨sites, hsites⟩ := noteSite_eq { fold with frameCount := fold.frameCount + 1 }
            .frame (some (.obj fields))
          exact ⟨sites, by simp only [hsites, Option.none_or]⟩
      | some usage =>
          obtain ⟨sites, hsites⟩ := noteSite_eq
            { fold with frameCount := fold.frameCount + 1, usage := some usage } .frame
            (some (.obj fields))
          exact ⟨sites, by simp only [hsites, Option.some_or]⟩
  | null => exact ⟨fold.annotationSites, rfl⟩
  | bool value => exact ⟨fold.annotationSites, rfl⟩
  | int value => exact ⟨fold.annotationSites, rfl⟩
  | float value => exact ⟨fold.annotationSites, rfl⟩
  | str value => exact ⟨fold.annotationSites, rfl⟩
  | arr items => exact ⟨fold.annotationSites, rfl⟩

/-- A view that only the choices act on is acted on by the choices of all the frames. -/
theorem foldl_takeFrame_view {ν β : Type} (view : StreamFold → ν) {items : Json → List β}
    {act : ν → β → ν} {frames : List Json} (herror : ∀ frame ∈ frames, frameError frame = none)
    (hframe : ∀ (fold : StreamFold) count usage sites,
      view { fold with frameCount := count, usage, annotationSites := sites } = view fold)
    (hchoice : ∀ fold choice, view (takeCounted fold choice) = (items choice).foldl act (view fold))
    (fold : StreamFold) :
    view (frames.foldl takeFrame fold)
      = (frames.flatMap fun frame => (zeroChoices frame).flatMap items).foldl act (view fold) := by
  refine foldl_view view (fun frame hframe' fold => ?_) fold
  obtain ⟨sites, htake⟩ := fold.takeFrame_eq (herror frame hframe')
  rw [htake, foldl_view view fun choice _ fold => hchoice fold choice, hframe]

def frameTexts (frame : Json) : List Text :=
  (zeroChoices frame).flatMap choiceTexts

def frameItems (key : String) (frame : Json) : List Json :=
  (zeroChoices frame).flatMap (choiceItems key)

def frameReasons (frame : Json) : List Json :=
  (zeroChoices frame).flatMap choiceReasons

section Run

variable {frames : List Json} (herror : ∀ frame ∈ frames, frameError frame = none)
  (fold : StreamFold)

include herror

theorem foldl_takeFrame_textParts :
    (frames.foldl takeFrame fold).textParts = fold.textParts ++ frames.flatMap frameTexts := by
  rw [← foldl_snoc]
  refine foldl_takeFrame_view textParts herror (fun _ _ _ _ => rfl) (fun fold choice => ?_) fold
  obtain ⟨_, htake⟩ := fold.takeCounted_eq choice
  rw [htake, foldl_snoc]

theorem foldl_takeFrame_annotations :
    (frames.foldl takeFrame fold).annotations
      = fold.annotations ++ frames.flatMap (frameItems "annotations") := by
  rw [← foldl_snoc]
  refine foldl_takeFrame_view annotations herror (fun _ _ _ _ => rfl) (fun fold choice => ?_) fold
  obtain ⟨_, htake⟩ := fold.takeCounted_eq choice
  rw [htake, foldl_snoc]

theorem foldl_takeFrame_citations :
    (frames.foldl takeFrame fold).citations
      = fold.citations ++ frames.flatMap (frameItems "citations") := by
  rw [← foldl_snoc]
  refine foldl_takeFrame_view citations herror (fun _ _ _ _ => rfl) (fun fold choice => ?_) fold
  obtain ⟨_, htake⟩ := fold.takeCounted_eq choice
  rw [htake, foldl_snoc]

theorem foldl_takeFrame_settled :
    ((frames.foldl takeFrame fold).finishReason, (frames.foldl takeFrame fold).latched)
      = (frames.flatMap frameReasons).foldl settle (fold.finishReason, fold.latched) := by
  refine foldl_takeFrame_view (fun fold => (fold.finishReason, fold.latched)) herror
    (fun _ _ _ _ => rfl) (fun fold choice => ?_) fold
  obtain ⟨_, htake⟩ := fold.takeCounted_eq choice
  rw [htake]

theorem foldl_takeFrame_terminator :
    (frames.foldl takeFrame fold).terminator
      = (frames.flatMap frameReasons).foldl (fun terminator _ => stopped terminator)
          fold.terminator := by
  refine foldl_takeFrame_view terminator herror (fun _ _ _ _ => rfl) (fun fold choice => ?_) fold
  obtain ⟨_, htake⟩ := fold.takeCounted_eq choice
  rw [htake]

theorem foldl_takeFrame_kept {ν : Type} (view : StreamFold → ν)
    (hframe : ∀ (fold : StreamFold) count usage sites,
      view { fold with frameCount := count, usage, annotationSites := sites } = view fold)
    (hchoice : ∀ fold choice, view (takeCounted fold choice) = view fold) :
    view (frames.foldl takeFrame fold) = view fold := by
  refine foldl_kept view (fun frame hframe' fold => ?_) fold
  obtain ⟨sites, htake⟩ := fold.takeFrame_eq (herror frame hframe')
  rw [htake, foldl_kept view fun choice _ fold => hchoice fold choice, hframe]

theorem foldl_takeFrame_usage :
    (frames.foldl takeFrame fold).usage
      = (frames.filterMap frameUsage).getLast?.or fold.usage := by
  have hview : (frames.foldl takeFrame fold).usage
      = (frames.flatMap fun frame => (frameUsage frame).toList).foldl (fun _ usage => some usage)
          fold.usage := by
    refine foldl_view StreamFold.usage (fun frame hframe fold => ?_) fold
    obtain ⟨sites, htake⟩ := fold.takeFrame_eq (herror frame hframe)
    have hkept : ∀ choice ∈ zeroChoices frame, ∀ fold,
        (takeCounted fold choice).usage = fold.usage := by
      intro choice _ fold
      obtain ⟨_, hcounted⟩ := fold.takeCounted_eq choice
      rw [hcounted]
    rw [htake, foldl_kept StreamFold.usage hkept]
    cases frameUsage frame <;> simp
  rw [hview, foldl_last, List.filterMap_eq_flatMap_toList]

end Run

/-- What some reasons settle on: the last unclean one, or else the last. -/
def settledReason (reasons : List Json) : Option Json :=
  (reasons.filter isUnclean).getLast?.or reasons.getLast?

theorem foldl_settle (reasons : List Json) :
    reasons.foldl settle (none, false) = (settledReason reasons, reasons.any isUnclean) := by
  induction reasons using List.reverseRecOn with
  | nil => rfl
  | append_singleton reasons reason ih =>
      rw [List.foldl_append, ih, List.foldl_cons, List.foldl_nil, settle, settledReason,
        settledReason, List.filter_append, List.any_append, List.getLast?_append]
      by_cases hunclean : isUnclean reason
      · simp [hunclean]
      · by_cases hlatched : reasons.any isUnclean
        · have hsome : (reasons.filter isUnclean).getLast? ≠ none := by
            simpa [List.any_eq_true] using hlatched
          obtain ⟨latched, hlast⟩ := Option.ne_none_iff_exists'.mp hsome
          simp [hunclean, hlatched, hlast]
        · have hnone : reasons.filter isUnclean = [] := by
            simpa [List.any_eq_true] using hlatched
          simp [hunclean, hlatched, hnone]

theorem foldl_stopped (reasons : List Json) :
    reasons.foldl (fun terminator _ => stopped terminator) .none
      = if reasons = [] then .none else .finishReason := by
  cases reasons with
  | nil => rfl
  | cons reason reasons =>
      have hstays : reasons.foldl (fun terminator _ => stopped terminator) .finishReason
          = .finishReason := by
        induction reasons with
        | nil => rfl
        | cons other reasons ih => exact ih
      exact hstays

end StreamFold

end Quorum
