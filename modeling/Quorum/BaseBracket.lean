import Mathlib.Data.List.Basic
import Mathlib.Tactic

/-! Texts with brackets, read from left to right: a closing bracket closes the innermost open one,
and a closed pair may take a trailer with it, in which no bracket counts. Every text has a
reading. -/

universe u

namespace Bracket

/-- The brackets, and how much of what follows a closed pair is its trailer, if it has one. -/
structure Signs (α : Type u) where
  opener : α
  closer : α
  trailer : List α → Option ℕ
  distinct : opener ≠ closer
  bounded : ∀ text n, trailer text = some n → n ≤ text.length

/-- A text whose brackets are all closed: plain symbols, pairs, and pairs with a trailer. -/
inductive Prose (α : Type u)
  | nil
  | char (a : α) (rest : Prose α)
  | group (inner rest : Prose α)
  | link (inner : Prose α) (trailer : List α) (rest : Prose α)

/-- A text: prose between closing brackets that close nothing and, after these, opening brackets
that nothing closes. -/
inductive Page (α : Type u)
  | done (prose : Prose α)
  | closed (prose : Prose α) (rest : Page α)
  | opened (prose : Prose α) (rest : Page α)

/-- A symbol of the text, or a whole pair with its trailer. -/
inductive Item (α : Type u)
  | char (a : α)
  | link (text : List α)

variable {α : Type u} (s : Signs α)

def Prose.render : Prose α → List α
  | .nil => []
  | .char a rest => a :: rest.render
  | .group inner rest => s.opener :: (inner.render ++ s.closer :: rest.render)
  | .link inner trailer rest => s.opener :: (inner.render ++ s.closer :: (trailer ++ rest.render))

def Page.render : Page α → List α
  | .done prose => prose.render s
  | .closed prose rest => prose.render s ++ s.closer :: rest.render
  | .opened prose rest => prose.render s ++ s.opener :: rest.render

/-- The prose is read so when this text follows it: its symbols are plain, and a pair has a trailer
where the signs say so, as long as they say. -/
def Prose.WellRead : Prose α → List α → Prop
  | .nil, _ => True
  | .char a rest, after => a ≠ s.opener ∧ a ≠ s.closer ∧ rest.WellRead after
  | .group inner rest, after =>
      inner.WellRead (s.closer :: (rest.render s ++ after))
        ∧ s.trailer (rest.render s ++ after) = none ∧ rest.WellRead after
  | .link inner trailer rest, after =>
      inner.WellRead (s.closer :: (trailer ++ (rest.render s ++ after)))
        ∧ s.trailer (trailer ++ (rest.render s ++ after)) = some trailer.length
        ∧ rest.WellRead after

/-- The page is read so; after an open bracket no closing one is left over. -/
def Page.WellRead : Page α → Bool → Prop
  | .done prose, _ => prose.WellRead s []
  | .closed prose rest, isOpen =>
      isOpen = false ∧ prose.WellRead s (s.closer :: rest.render s) ∧ rest.WellRead false
  | .opened prose rest, _ => prose.WellRead s (s.opener :: rest.render s) ∧ rest.WellRead true

instance Prose.decidableWellRead [DecidableEq α] :
    (prose : Prose α) → (after : List α) → Decidable (prose.WellRead s after)
  | .nil, _ => isTrue trivial
  | .char a rest, after =>
      have := rest.decidableWellRead after
      inferInstanceAs (Decidable (a ≠ s.opener ∧ a ≠ s.closer ∧ rest.WellRead s after))
  | .group inner rest, after =>
      have := inner.decidableWellRead (s.closer :: (rest.render s ++ after))
      have := rest.decidableWellRead after
      inferInstanceAs (Decidable (inner.WellRead s (s.closer :: (rest.render s ++ after))
        ∧ s.trailer (rest.render s ++ after) = none ∧ rest.WellRead s after))
  | .link inner trailer rest, after =>
      have := inner.decidableWellRead (s.closer :: (trailer ++ (rest.render s ++ after)))
      have := rest.decidableWellRead after
      inferInstanceAs
        (Decidable (inner.WellRead s (s.closer :: (trailer ++ (rest.render s ++ after)))
        ∧ s.trailer (trailer ++ (rest.render s ++ after)) = some trailer.length
            ∧ rest.WellRead s after))

instance Page.decidableWellRead [DecidableEq α] :
    (page : Page α) → (isOpen : Bool) → Decidable (page.WellRead s isOpen)
  | .done prose, _ => inferInstanceAs (Decidable (prose.WellRead s []))
  | .closed prose rest, isOpen =>
      have := rest.decidableWellRead false
      inferInstanceAs (Decidable (isOpen = false ∧ prose.WellRead s (s.closer :: rest.render s)
        ∧ rest.WellRead s false))
  | .opened prose rest, _ =>
      have := rest.decidableWellRead true
      inferInstanceAs (Decidable (prose.WellRead s (s.opener :: rest.render s)
        ∧ rest.WellRead s true))

/-- What is left of the prose when every link stands for one item. -/
def Prose.items : Prose α → List (Item α)
  | .nil => []
  | .char a rest => .char a :: rest.items
  | .group inner rest => .char s.opener :: (inner.items ++ .char s.closer :: rest.items)
  | .link inner trailer rest =>
      .link (s.opener :: (inner.render s ++ s.closer :: trailer)) :: rest.items

def Page.items : Page α → List (Item α)
  | .done prose => prose.items s
  | .closed prose rest => prose.items s ++ .char s.closer :: rest.items
  | .opened prose rest => prose.items s ++ .char s.opener :: rest.items

def Item.render : Item α → List α
  | .char a => [a]
  | .link text => text

variable {s}

/-- The items spell the text. -/
theorem Prose.items_render (prose : Prose α) :
    (prose.items s).flatMap Item.render = prose.render s := by
  induction prose with
  | nil => rfl
  | char a rest ih => rw [items, List.flatMap_cons, ih, render]; rfl
  | group inner rest ihinner ihrest =>
      rw [items, List.flatMap_cons, List.flatMap_append, List.flatMap_cons, ihinner, ihrest, render]
      rfl
  | link inner trailer rest _ ihrest =>
      rw [items, List.flatMap_cons, ihrest, render, Item.render]
      simp

theorem Page.items_render (page : Page α) :
    (page.items s).flatMap Item.render = page.render s := by
  induction page with
  | done prose => exact prose.items_render
  | closed prose rest ih | opened prose rest ih =>
      rw [items, List.flatMap_append, List.flatMap_cons, ih, prose.items_render, render]
      rfl

/-- Where the reading of a closed prose ends: at the end, at a bracket that closes nothing in it, or
at one that nothing closes. -/
def Stuck (s : Signs α) (text : List α) : Prop :=
  text = [] ∨ (∃ rest, text = s.closer :: rest)
    ∨ ∃ page : Page α, page.WellRead s true ∧ text = s.opener :: page.render s

/-- Every text begins with prose and is stuck after it. -/
theorem exists_prose [DecidableEq α] (s : Signs α) :
    ∀ (n : ℕ) (text : List α), text.length ≤ n →
      ∃ (prose : Prose α) (after : List α), text = prose.render s ++ after ∧ prose.WellRead s after
        ∧ Stuck s after := by
  intro n
  induction n with
  | zero =>
      intro text hlength
      obtain rfl : text = [] := List.length_eq_zero_iff.mp (Nat.le_zero.mp hlength)
      exact ⟨.nil, [], rfl, trivial, Or.inl rfl⟩
  | succ n ih =>
      intro text hlength
      cases text with
      | nil => exact ⟨.nil, [], rfl, trivial, Or.inl rfl⟩
      | cons a rest =>
          have hrest : rest.length ≤ n := by simpa using hlength
          by_cases hcloser : a = s.closer
          · subst hcloser
            exact ⟨.nil, _, rfl, trivial, Or.inr (Or.inl ⟨rest, rfl⟩)⟩
          by_cases hopener : a = s.opener
          · subst hopener
            obtain ⟨inner, after, hinner, hread, hstuck⟩ := ih rest hrest
            rcases hstuck with rfl | ⟨tail, rfl⟩ | ⟨page, hpage, rfl⟩
            · -- nothing closes the bracket
              refine ⟨.nil, _, rfl, trivial, Or.inr (Or.inr ⟨.done inner, hread, ?_⟩)⟩
              rw [hinner, List.append_nil]
              rfl
            · have htail : tail.length ≤ n := by
                rw [hinner, List.length_append, List.length_cons] at hrest
                omega
              cases htrailer : s.trailer tail with
              | none =>
                  obtain ⟨prose, after, rfl, hprose, hstuck⟩ := ih tail htail
                  refine ⟨.group inner prose, after, ?_, ⟨hread, htrailer, hprose⟩, hstuck⟩
                  rw [hinner, Prose.render]
                  simp
              | some k =>
                  have hk := s.bounded tail k htrailer
                  have hdrop : (tail.drop k).length ≤ n := by
                    rw [List.length_drop]
                    omega
                  obtain ⟨prose, after, hprose', hprose, hstuck⟩ := ih (tail.drop k) hdrop
                  have hsplit : tail = tail.take k ++ (prose.render s ++ after) := by
                    rw [← hprose', List.take_append_drop]
                  have hlen : (tail.take k).length = k := List.length_take_of_le hk
                  refine ⟨.link inner (tail.take k) prose, after, ?_, ⟨?_, ?_, hprose⟩, hstuck⟩
                  · rw [hinner, Prose.render]
                    conv_lhs => rw [hsplit]
                    simp
                  · rwa [← hsplit]
                  · rw [← hsplit, htrailer, hlen]
            · refine ⟨.nil, _, rfl, trivial,
                Or.inr (Or.inr ⟨.opened inner page, ⟨hread, hpage⟩, ?_⟩)⟩
              rw [hinner]
              rfl
          · obtain ⟨prose, after, hprose', hprose, hstuck⟩ := ih rest hrest
            refine ⟨.char a prose, after, ?_, ⟨hopener, hcloser, hprose⟩, hstuck⟩
            rw [hprose']
            rfl

/-- Every text has a reading. -/
theorem exists_page [DecidableEq α] (s : Signs α) (text : List α) :
    ∃ page : Page α, page.WellRead s false ∧ page.render s = text := by
  induction hlength : text.length using Nat.strong_induction_on generalizing text with
  | _ n ih =>
      obtain ⟨prose, after, htext, hprose, hstuck⟩ := exists_prose s text.length text le_rfl
      rcases hstuck with rfl | ⟨tail, rfl⟩ | ⟨page, hpage, rfl⟩
      · exact ⟨.done prose, hprose, (htext.trans (List.append_nil _)).symm⟩
      · have hshort : tail.length < n := by
          rw [← hlength, htext, List.length_append, List.length_cons]
          omega
        obtain ⟨page, hpage, rfl⟩ := ih _ hshort tail rfl
        exact ⟨.closed prose page, ⟨rfl, hprose, hpage⟩, htext.symm⟩
      · exact ⟨.opened prose page, ⟨hprose, hpage⟩, htext.symm⟩

/-! ### What the links are -/

variable (s)

/-- What stands in the brackets of each link and what follows them, in the order in which the links
close. -/
def Prose.links : Prose α → List α → List (List α × List α)
  | .nil, _ => []
  | .char _ rest, after => rest.links after
  | .group inner rest, after =>
      inner.links (s.closer :: (rest.render s ++ after)) ++ rest.links after
  | .link inner trailer rest, after =>
      inner.links (s.closer :: (trailer ++ (rest.render s ++ after)))
        ++ (inner.render s, trailer ++ (rest.render s ++ after)) :: rest.links after

def Page.links : Page α → List (List α × List α)
  | .done prose => prose.links s []
  | .closed prose rest => prose.links s (s.closer :: rest.render s) ++ rest.links
  | .opened prose rest => prose.links s (s.opener :: rest.render s) ++ rest.links

variable {s}

/-- Each link of a prose stands in it, with what follows it. -/
theorem Prose.links_split (prose : Prose α) : ∀ after, ∀ link ∈ prose.links s after,
    ∃ before, prose.render s ++ after = before ++ s.opener :: (link.1 ++ s.closer :: link.2) := by
  induction prose with
  | nil => exact fun after link h => absurd h List.not_mem_nil
  | char a rest ih =>
      intro after link h
      obtain ⟨before, hsplit⟩ := ih after link h
      exact ⟨a :: before, congrArg (a :: ·) hsplit⟩
  | group inner rest ihinner ihrest =>
      intro after link h
      rw [render, List.cons_append, List.append_assoc, List.cons_append]
      rcases List.mem_append.mp h with hinner | hrest
      · obtain ⟨before, hsplit⟩ := ihinner _ link hinner
        exact ⟨s.opener :: before, congrArg (s.opener :: ·) hsplit⟩
      · obtain ⟨before, hsplit⟩ := ihrest _ link hrest
        refine ⟨s.opener :: (inner.render s ++ s.closer :: before), ?_⟩
        rw [hsplit]
        simp only [List.cons_append, List.append_assoc]
  | link inner trailer rest ihinner ihrest =>
      intro after link h
      rw [render, List.cons_append, List.append_assoc, List.cons_append, List.append_assoc]
      rcases List.mem_append.mp h with hinner | hmore
      · obtain ⟨before, hsplit⟩ := ihinner _ link hinner
        exact ⟨s.opener :: before, congrArg (s.opener :: ·) hsplit⟩
      · rcases List.mem_cons.mp hmore with rfl | hrest
        · exact ⟨[], rfl⟩
        · obtain ⟨before, hsplit⟩ := ihrest _ link hrest
          refine ⟨s.opener :: (inner.render s ++ s.closer :: (trailer ++ before)), ?_⟩
          rw [hsplit]
          simp only [List.cons_append, List.append_assoc]

theorem Page.links_split (page : Page α) : ∀ link ∈ page.links s,
    ∃ before, page.render s = before ++ s.opener :: (link.1 ++ s.closer :: link.2) := by
  induction page with
  | done prose =>
      intro link h
      obtain ⟨before, hsplit⟩ := prose.links_split [] link h
      exact ⟨before, by rw [render, ← hsplit, List.append_nil]⟩
  | closed prose rest ih =>
      intro link h
      rcases List.mem_append.mp h with hprose | hrest
      · exact prose.links_split _ link hprose
      · obtain ⟨before, hsplit⟩ := ih link hrest
        refine ⟨prose.render s ++ s.closer :: before, ?_⟩
        rw [render, hsplit, List.append_assoc, List.cons_append]
  | opened prose rest ih =>
      intro link h
      rcases List.mem_append.mp h with hprose | hrest
      · exact prose.links_split _ link hprose
      · obtain ⟨before, hsplit⟩ := ih link hrest
        refine ⟨prose.render s ++ s.opener :: before, ?_⟩
        rw [render, hsplit, List.append_assoc, List.cons_append]

/-! ### The places of the links -/

variable (s)

/-- The places of the links of a prose that starts at an index, in the order in which they close. -/
def Prose.spans : Prose α → ℕ → List (ℕ × ℕ)
  | .nil, _ => []
  | .char _ rest, index => rest.spans (index + 1)
  | .group inner rest, index =>
      inner.spans (index + 1) ++ rest.spans (index + (inner.render s).length + 2)
  | .link inner trailer rest, index =>
      inner.spans (index + 1)
        ++ (index, index + (inner.render s).length + 2 + trailer.length)
          :: rest.spans (index + (inner.render s).length + 2 + trailer.length)

/-- The same places in the order in which they start. -/
def Prose.places : Prose α → ℕ → List (ℕ × ℕ)
  | .nil, _ => []
  | .char _ rest, index => rest.places (index + 1)
  | .group inner rest, index =>
      inner.places (index + 1) ++ rest.places (index + (inner.render s).length + 2)
  | .link inner trailer rest, index =>
      (index, index + (inner.render s).length + 2 + trailer.length)
        :: (inner.places (index + 1)
          ++ rest.places (index + (inner.render s).length + 2 + trailer.length))

def Page.spans : Page α → ℕ → List (ℕ × ℕ)
  | .done prose, index => prose.spans s index
  | .closed prose rest, index =>
      prose.spans s index ++ rest.spans (index + (prose.render s).length + 1)
  | .opened prose rest, index =>
      prose.spans s index ++ rest.spans (index + (prose.render s).length + 1)

def Page.places : Page α → ℕ → List (ℕ × ℕ)
  | .done prose, index => prose.places s index
  | .closed prose rest, index =>
      prose.places s index ++ rest.places (index + (prose.render s).length + 1)
  | .opened prose rest, index =>
      prose.places s index ++ rest.places (index + (prose.render s).length + 1)

variable {s}

theorem Prose.spans_perm (prose : Prose α) (index : ℕ) :
    (prose.spans s index).Perm (prose.places s index) := by
  induction prose generalizing index with
  | nil => exact List.Perm.refl _
  | char a rest ih => exact ih _
  | group inner rest ihinner ihrest => exact (ihinner _).append (ihrest _)
  | link inner trailer rest ihinner ihrest =>
      exact List.perm_middle.trans (((ihinner _).append (ihrest _)).cons _)

theorem Page.spans_perm (page : Page α) (index : ℕ) :
    (page.spans s index).Perm (page.places s index) := by
  induction page generalizing index with
  | done prose => exact prose.spans_perm index
  | closed prose rest ih | opened prose rest ih => exact (prose.spans_perm index).append (ih _)

/-- Every link lies within the prose. -/
theorem Prose.places_within (prose : Prose α) (index : ℕ) :
    ∀ place ∈ prose.places s index, index ≤ place.1 ∧ place.1 < index + (prose.render s).length
      ∧ place.2 ≤ index + (prose.render s).length := by
  induction prose generalizing index with
  | nil => exact fun place h => absurd h List.not_mem_nil
  | char a rest ih =>
      intro place h
      have := ih (index + 1) place h
      rw [render, List.length_cons]
      omega
  | group inner rest ihinner ihrest =>
      intro place h
      rw [render, List.length_cons, List.length_append, List.length_cons]
      rcases List.mem_append.mp h with hinner | hrest
      · have := ihinner (index + 1) place hinner
        omega
      · have := ihrest _ place hrest
        omega
  | link inner trailer rest ihinner ihrest =>
      intro place h
      rw [render, List.length_cons, List.length_append, List.length_cons, List.length_append]
      rcases List.mem_cons.mp h with rfl | h
      · dsimp only
        omega
      rcases List.mem_append.mp h with hinner | hrest
      · have := ihinner (index + 1) place hinner
        omega
      · have := ihrest _ place hrest
        omega

theorem Page.places_after (page : Page α) (index : ℕ) :
    ∀ place ∈ page.places s index, index ≤ place.1 := by
  induction page generalizing index with
  | done prose => exact fun place h => (prose.places_within index place h).1
  | closed prose rest ih | opened prose rest ih =>
      intro place h
      rcases List.mem_append.mp h with hprose | hrest
      · exact (prose.places_within index place hprose).1
      · have := ih _ place hrest
        omega

/-- No two links start at one place. -/
theorem Prose.places_sorted (prose : Prose α) (index : ℕ) :
    (prose.places s index).Pairwise fun left right => left.1 < right.1 := by
  induction prose generalizing index with
  | nil => exact List.Pairwise.nil
  | char a rest ih => exact ih _
  | group inner rest ihinner ihrest =>
      apply List.pairwise_append.mpr
      refine ⟨ihinner _, ihrest _, fun left hleft right hright => ?_⟩
      have := inner.places_within _ left hleft
      have := rest.places_within _ right hright
      omega
  | link inner trailer rest ihinner ihrest =>
      apply List.pairwise_cons.mpr
      constructor
      · intro right hright
        rcases List.mem_append.mp hright with hinner | hrest
        · have := inner.places_within _ right hinner
          dsimp only
          omega
        · have := rest.places_within _ right hrest
          dsimp only
          omega
      · apply List.pairwise_append.mpr
        refine ⟨ihinner _, ihrest _, fun left hleft right hright => ?_⟩
        have := inner.places_within _ left hleft
        have := rest.places_within _ right hright
        omega

theorem Page.places_sorted (page : Page α) (index : ℕ) :
    (page.places s index).Pairwise fun left right => left.1 < right.1 := by
  induction page generalizing index with
  | done prose => exact prose.places_sorted index
  | closed prose rest ih | opened prose rest ih =>
      apply List.pairwise_append.mpr
      refine ⟨prose.places_sorted index, ih _, fun left hleft right hright => ?_⟩
      have := prose.places_within index left hleft
      have := rest.places_after _ right hright
      omega

/-- In the order of their starts the links stand as the reading places them. -/
theorem Page.spans_sorted (page : Page α) (index : ℕ) :
    (page.spans s index).insertionSort (fun left right => left.1 ≤ right.1)
      = page.places s index := by
  have hsorted := page.places_sorted (s := s) index
  have hperm := (List.perm_insertionSort (fun left right : ℕ × ℕ => left.1 ≤ right.1)
    (page.spans s index)).trans (page.spans_perm index)
  have hnodup : ((page.places s index).map Prod.fst).Nodup :=
    List.pairwise_map.mpr (hsorted.imp fun h => Nat.ne_of_lt h)
  apply hperm.eq_of_pairwise
  · intro left right hleft hright hle hge
    exact List.inj_on_of_nodup_map hnodup (hperm.mem_iff.mp hleft) hright (Nat.le_antisymm hle hge)
  · exact List.pairwise_insertionSort (Order.Preimage Prod.fst (· ≤ ·)) (page.spans s index)
  · exact hsorted.imp fun h => Nat.le_of_lt h

end Bracket
