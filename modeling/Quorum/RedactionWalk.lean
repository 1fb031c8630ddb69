import Quorum.BaseDict
import Quorum.RedactionPatterns
import Mathlib.Data.Finset.Card
import Mathlib.Logic.Relation

/-! The redaction of what a log call hands over: a walk of any value, shared or cyclic, into new
containers whose texts are scrubbed, whose depth is bounded and whose mappings keep an entry for
each they had. -/

open IsoTime

namespace Quorum

/-- What `id` tells of a value. -/
abbrev Ref := ℕ

/-- A number as keys compare it: 1, 1.0 and True are one, and a NaN is equal to itself. -/
inductive Number
  | rational (value : ℚ)
  | infinite (negative : Bool)
  | nan (identity : Ref)
  deriving DecidableEq

/-- The scalars that `json` takes as keys. -/
inductive Scalar
  | none
  | bool (value : Bool)
  | int (value : ℤ)
  | float (value : Number)

/-- An object that is no text, no exact scalar and no container: what its renderers answer, none
where one raises. -/
structure PlainObject where
  str : Option Text
  repr : Option Text
  sentryRepr : Option Text
  /-- The number that an instance of a subclass of `int` or `float` is. -/
  number : Option Number
  hashes : Bool
  /-- Its id is among those that this thread is rendering. -/
  rendering : Bool

inductive CollectionKind
  | list
  | tuple
  | set
  | frozenset
  deriving DecidableEq

/-- A value by its type; a container's traversal is none where it raises. -/
inductive ExtraNode
  | str (text : Text) (exact : Bool)
  | scalar (value : Scalar)
  | complex (real imaginary : Number)
  | object (value : PlainObject)
  | mapping (items : Option (List (Ref × Ref)))
  | collection (kind : CollectionKind) (items : Option (List Ref))

abbrev ExtraHeap := Ref → ExtraNode

/-- A key of a rebuilt mapping. -/
inductive PlacedKey
  | str (text : Text)
  | scalar (value : Scalar)
  | object (ref : Ref) (value : PlainObject)

/-- What the walk answers. A set is given by what was added to it, where equal elements are one. -/
inductive Redacted
  | str (text : Text)
  | scalar (value : Scalar)
  | complex (real imaginary : Number)
  | object (ref : Ref) (value : PlainObject)
  | dict (entries : List (PlacedKey × Redacted))
  | collection (kind : CollectionKind) (items : List Redacted)

mutual

/-- The value has a hash. -/
def Redacted.hashes : Redacted → Bool
  | .str _ => true
  | .scalar _ => true
  | .complex _ _ => true
  | .object _ value => value.hashes
  | .dict _ => false
  | .collection .list _ => false
  | .collection .set _ => false
  | .collection .tuple items => allHash items
  | .collection .frozenset _ => true

def allHash : List Redacted → Bool
  | [] => true
  | item :: items => item.hashes && allHash items

end

/-- Keys up to their equality. -/
inductive KeyClass
  | text (text : Text)
  | none
  | number (value : Number)
  | other (ref : Ref)
  deriving DecidableEq

def Scalar.keyClass : Scalar → KeyClass
  | .none => .none
  | .bool value => .number (.rational (if value then 1 else 0))
  | .int value => .number (.rational value)
  | .float value => .number value

def PlainObject.keyClass (ref : Ref) (value : PlainObject) : KeyClass :=
  match value.number with
  | some number => .number number
  | none => .other ref

def PlacedKey.keyClass : PlacedKey → KeyClass
  | .str text => .text text
  | .scalar value => value.keyClass
  | .object ref value => value.keyClass ref

/-- How Python writes a number and a container out; a container's text is none where an element's
raises. -/
structure Renderings where
  scalarText : Scalar → Text
  complexText : Number → Number → Text
  containerText : Redacted → Option Text

def maxExtraRedactionDepth : ℕ := 25

def cyclePlaceholder : Text := "<cycle>".toList

def depthCapPlaceholder : Text := "<max-depth>".toList

def unreadablePlaceholder : Text := "<unreadable>".toList

def placeholders : List Text := [cyclePlaceholder, depthCapPlaceholder, unreadablePlaceholder]

/-- No pattern matches in a placeholder. -/
theorem redactSecrets_placeholder (t : RegexTables) : ∀ text ∈ placeholders,
    t.redactSecrets text = text := by
  intro text htext
  simp only [placeholders, List.mem_cons, List.not_mem_nil, or_false] at htext
  rcases htext with rfl | rfl | rfl
  · rfl
  · rfl
  · rfl

variable (scrub : Text → Text) (r : Renderings) (heap : ExtraHeap)

def redactTextForm (ref : Ref) (value : PlainObject) : Redacted :=
  if value.rendering then .object ref value
  else
    let forms := [value.str, value.repr, value.sentryRepr].filterMap id
    match forms with
    | [] => .object ref value
    | first :: _ =>
        if forms.all fun form => scrub form = form then .object ref value else .str (scrub first)

/-- The text that tells a colliding key from the first; its `repr` may raise. -/
def PlacedKey.base : PlacedKey → Option Text
  | .str text => some text
  | .scalar value => some (r.scalarText value)
  | .object _ value => value.repr

def suffixed (base : Text) (suffix : ℕ) : Text := base ++ '.' :: Nat.toDigits 10 suffix

/-- The loop for a free suffix, over as many candidates as are taken. -/
def freeSuffix (taken : List KeyClass) (base : Text) : ℕ → ℕ → ℕ
  | 0, suffix => suffix
  | tries + 1, suffix =>
      if KeyClass.text (suffixed base suffix) ∈ taken then
        freeSuffix taken base tries (suffix + 1) else suffix

/-- The key, or a free variant of it, with the suffixes that the next search starts from; none where
the key raises. -/
def disambiguatedKey (key : PlacedKey) (taken : List KeyClass) (nextSuffix : Dict Text ℕ) :
    Option (PlacedKey × Dict Text ℕ) :=
  if key.keyClass ∉ taken then some (key, nextSuffix)
  else
    (key.base r).map fun base =>
      let suffix := freeSuffix taken base taken.length ((nextSuffix.get? base).getD 2)
      (.str (suffixed base suffix), nextSuffix.set base (suffix + 1))

/-- A key as `json` takes it; `str` of another one may raise. -/
def serializableKey : Redacted → Option PlacedKey
  | .str text => some (.str text)
  | .scalar value => some (.scalar value)
  | .complex real imaginary => some (.str (r.complexText real imaginary))
  | .object ref value =>
      if value.number.isSome then if value.hashes then some (.object ref value) else none
      else value.str.map .str
  | .dict entries => (r.containerText (.dict entries)).map .str
  | .collection kind items => (r.containerText (.collection kind items)).map .str

/-- The entries of a mapping, placed one after the other. -/
def rebuildMapping (walk : Ref → Redacted) :
    List (Ref × Ref) → List (PlacedKey × Redacted) → Dict Text ℕ →
    Option (List (PlacedKey × Redacted))
  | [], rebuilt, _ => some rebuilt
  | (key, item) :: items, rebuilt, nextSuffix =>
      (serializableKey r (walk key)).bind fun key =>
        (disambiguatedKey r key (rebuilt.map fun entry => entry.1.keyClass) nextSuffix).bind
          fun (placed, nextSuffix) =>
          rebuildMapping walk items (rebuilt ++ [(placed, walk item)]) nextSuffix

/-- One level of a container; none where its traversal, a key or a hash raises. -/
def rebuildContainer (walk : Ref → Redacted) : ExtraNode → Option Redacted
  | .mapping items => items.bind fun items => (rebuildMapping r walk items [] .empty).map .dict
  | .collection kind items =>
      items.bind fun items =>
        let rebuilt := items.map walk
        match kind with
        | .list | .tuple => some (.collection kind rebuilt)
        | .set | .frozenset =>
            if rebuilt.all Redacted.hashes then some (.collection kind rebuilt) else none
  | _ => none

/-- What stands for a value that is no container, and `container` for one that is. -/
def redactLeaf (ref : Ref) (container : Redacted) : Redacted :=
  match heap ref with
  | .str text _ => .str (scrub text)
  | .scalar value => .scalar value
  | .complex real imaginary => .complex real imaginary
  | .object value => redactTextForm scrub ref value
  | .mapping _ => container
  | .collection _ _ => container

/-- The walk with room for so many containers more on the path. -/
def redactWithin : ℕ → Finset Ref → Ref → Redacted
  | 0, _, ref => redactLeaf scrub heap ref (.str depthCapPlaceholder)
  | room + 1, ancestors, ref =>
      redactLeaf scrub heap ref <|
        if ref ∈ ancestors then .str cyclePlaceholder
        else (rebuildContainer r (redactWithin room (insert ref ancestors)) (heap ref)).getD
          (.str unreadablePlaceholder)

def redactExtraValue (ancestors : Finset Ref) (ref : Ref) : Redacted :=
  redactWithin scrub r heap (maxExtraRedactionDepth - ancestors.card) ancestors ref

/-- The walk as it reads: the cap, the cycle guard, then the container a level down, whose failure
is caught here. -/
theorem redactExtraValue_eq (ancestors : Finset Ref) (ref : Ref) :
    redactExtraValue scrub r heap ancestors ref =
      redactLeaf scrub heap ref (
        if maxExtraRedactionDepth ≤ ancestors.card then .str depthCapPlaceholder
        else if ref ∈ ancestors then .str cyclePlaceholder
        else (rebuildContainer r
          (redactExtraValue scrub r heap (insert ref ancestors)) (heap ref)).getD
          (.str unreadablePlaceholder)) := by
  unfold redactExtraValue
  by_cases hcap : maxExtraRedactionDepth ≤ ancestors.card
  · rw [if_pos hcap, Nat.sub_eq_zero_of_le hcap, redactWithin]
  · rw [if_neg hcap]
    obtain ⟨room, hroom⟩ : ∃ room, maxExtraRedactionDepth - ancestors.card = room + 1 :=
      Nat.exists_eq_succ_of_ne_zero (by omega)
    rw [hroom, redactWithin]
    by_cases href : ref ∈ ancestors
    · rw [if_pos href, if_pos href]
    · have hbelow : maxExtraRedactionDepth - (insert ref ancestors).card = room := by
        rw [Finset.card_insert_of_notMem href]
        omega
      rw [if_neg href, if_neg href, funext fun below => congrArg (fun room =>
        redactWithin scrub r heap room (insert ref ancestors) below) hbelow]

/-! ### Keys -/

variable {scrub r heap}

theorem suffixed_injective (base : Text) : Function.Injective (suffixed base) := by
  intro m n h
  have hdigits : Nat.toDigits 10 m = Nat.toDigits 10 n :=
    (List.cons.inj (List.append_cancel_left h)).2
  rw [← Nat.ofDigitChars_ten_toDigits (n := m), hdigits, Nat.ofDigitChars_ten_toDigits]

theorem freeSuffix_taken {taken : List KeyClass} {base : Text} (tries : ℕ) :
    ∀ suffix, KeyClass.text (suffixed base (freeSuffix taken base tries suffix)) ∈ taken →
      ∀ offset ≤ tries, KeyClass.text (suffixed base (suffix + offset)) ∈ taken := by
  induction tries with
  | zero =>
      intro suffix h offset hoffset
      rw [Nat.le_zero.mp hoffset]
      exact h
  | succ tries ih =>
      intro suffix h offset hoffset
      rw [freeSuffix] at h
      split_ifs at h with hfirst
      · cases offset with
        | zero => exact hfirst
        | succ offset =>
            have hnext := ih (suffix + 1) h offset (by omega)
            rwa [show suffix + 1 + offset = suffix + (offset + 1) by omega] at hnext
      · exact absurd h hfirst

/-- The search ends at a free suffix: there are more candidates than taken keys. -/
theorem freeSuffix_free (taken : List KeyClass) (base : Text) (suffix : ℕ) :
    KeyClass.text (suffixed base (freeSuffix taken base taken.length suffix)) ∉ taken := by
  intro h
  have hall := freeSuffix_taken taken.length suffix h
  have hnodup : ((List.range (taken.length + 1)).map fun offset =>
      KeyClass.text (suffixed base (suffix + offset))).Nodup := by
    apply List.Nodup.map _ List.nodup_range
    intro m n hmn
    exact Nat.add_left_cancel (suffixed_injective base (KeyClass.text.inj hmn))
  have hsubset : ((List.range (taken.length + 1)).map fun offset =>
      KeyClass.text (suffixed base (suffix + offset))) ⊆ taken := by
    intro candidate hcandidate
    obtain ⟨offset, hoffset, rfl⟩ := List.mem_map.mp hcandidate
    exact hall offset (Nat.lt_succ_iff.mp (List.mem_range.mp hoffset))
  have hlength := (List.subperm_of_subset hnodup hsubset).length_le
  rw [List.length_map, List.length_range] at hlength
  omega

theorem disambiguatedKey_fresh {key placed : PlacedKey} {taken : List KeyClass}
    {nextSuffix later : Dict Text ℕ}
    (h : disambiguatedKey r key taken nextSuffix = some (placed, later)) :
    placed.keyClass ∉ taken ∧ (placed = key ∨
      key.keyClass ∈ taken ∧ ∃ base suffix,
        key.base r = some base ∧ placed = .str (suffixed base suffix)) := by
  rw [disambiguatedKey] at h
  split_ifs at h with htaken
  · obtain ⟨base, hbase, hplaced⟩ := Option.map_eq_some_iff.mp h
    cases hplaced
    exact ⟨freeSuffix_free _ _ _, .inr ⟨htaken, base, _, hbase, rfl⟩⟩
  · cases h
    exact ⟨htaken, .inl rfl⟩

variable (r) in
/-- The entry carries the item's walk, under the item's key or, where an earlier entry took that,
under a variant. -/
def EntryOf (walk : Ref → Redacted) (earlier : List (PlacedKey × Redacted)) (item : Ref × Ref)
    (entry : PlacedKey × Redacted) : Prop :=
  entry.2 = walk item.2 ∧ ∃ key, serializableKey r (walk item.1) = some key ∧
    (entry.1 = key ∨ key.keyClass ∈ earlier.map (fun entry => entry.1.keyClass) ∧
      ∃ base suffix, key.base r = some base ∧ entry.1 = .str (suffixed base suffix))

/-- A rebuilt mapping has an entry for each item, in their order, under keys that differ. -/
theorem rebuildMapping_entries {walk : Ref → Redacted} (items : List (Ref × Ref)) :
    ∀ {rebuilt entries : List (PlacedKey × Redacted)} {nextSuffix : Dict Text ℕ},
      rebuildMapping r walk items rebuilt nextSuffix = some entries →
      (rebuilt.map fun entry => entry.1.keyClass).Nodup →
      ∃ placed, entries = rebuilt ++ placed ∧ placed.length = items.length ∧
        (entries.map fun entry => entry.1.keyClass).Nodup ∧
        ∀ index item entry, items[index]? = some item → placed[index]? = some entry →
          EntryOf r walk (rebuilt ++ placed.take index) item entry := by
  induction items with
  | nil =>
      intro rebuilt entries nextSuffix h hnodup
      cases h
      exact ⟨[], (List.append_nil _).symm, rfl, hnodup,
        fun index item entry hitem _ => by simp at hitem⟩
  | cons item items ih =>
      intro rebuilt entries nextSuffix h hnodup
      obtain ⟨key, hkey, h⟩ := Option.bind_eq_some_iff.mp h
      obtain ⟨⟨placed, later⟩, hplaced, h⟩ := Option.bind_eq_some_iff.mp h
      obtain ⟨hfresh, horigin⟩ := disambiguatedKey_fresh hplaced
      have hnodup' : ((rebuilt ++ [(placed, walk item.2)]).map fun entry =>
          entry.1.keyClass).Nodup := by
        rw [List.map_append, List.map_singleton]
        exact List.nodup_append.mpr ⟨hnodup, List.nodup_singleton _,
          fun found hfound other hother heq =>
          hfresh (List.mem_singleton.mp hother ▸ heq ▸ hfound)⟩
      obtain ⟨rest, hentries, hlength, hall, hrest⟩ := ih h hnodup'
      refine ⟨(placed, walk item.2) :: rest,
        by rw [hentries, List.append_assoc]; rfl, by simp [hlength], hall, ?_⟩
      intro index found entry hfound hentry
      cases index with
      | zero =>
          cases Option.some.inj hfound
          cases Option.some.inj hentry
          rw [List.take_zero, List.append_nil]
          exact ⟨rfl, key, hkey, horigin⟩
      | succ index =>
          have hof := hrest index found entry hfound hentry
          rwa [List.append_assoc, List.singleton_append, ← List.take_succ_cons] at hof

/-! ### Parts of the result -/

/-- The values that a rebuilt container holds. -/
def Redacted.children : Redacted → List Redacted
  | .dict entries => entries.map Prod.snd
  | .collection _ items => items
  | _ => []

/-- `part` is in `whole`, at any depth. -/
def Redacted.Part (part whole : Redacted) : Prop :=
  Relation.ReflTransGen (fun outer inner => inner ∈ Redacted.children outer) whole part

def Redacted.isContainer : Redacted → Bool
  | .dict _ => true
  | .collection _ _ => true
  | _ => false

/-- No chain of containers in the value is longer. -/
def Redacted.DepthAtMost : ℕ → Redacted → Prop
  | 0, value => value.isContainer = false
  | depth + 1, value => ∀ child ∈ value.children, child.DepthAtMost depth

def ExtraNode.isContainer : ExtraNode → Bool
  | .mapping _ => true
  | .collection _ _ => true
  | _ => false

/-- What a node's traversal hands over, keys included. -/
def ExtraNode.children : ExtraNode → List Ref
  | .mapping items => (items.getD []).flatMap fun item => [item.1, item.2]
  | .collection _ items => items.getD []
  | _ => []

theorem Redacted.children_of_leaf {value : Redacted} (h : value.isContainer = false) :
    value.children = [] := by
  cases value <;> first | rfl | cases h

theorem redactTextForm_cases (ref : Ref) (value : PlainObject) :
    (redactTextForm scrub ref value = .object ref value ∧
      (value.rendering = true ∨ ∀ form, value.str = some form → scrub form = form)) ∨
      ∃ form, redactTextForm scrub ref value = .str (scrub form) := by
  unfold redactTextForm
  split_ifs with hrendering
  · exact .inl ⟨rfl, .inl hrendering⟩
  · have hform : ∀ form, value.str = some form → form ∈ [value.str, value.repr,
        value.sentryRepr].filterMap id :=
      fun form hform => List.mem_filterMap.mpr ⟨some form, hform ▸ List.mem_cons_self, rfl⟩
    dsimp only
    generalize [value.str, value.repr, value.sentryRepr].filterMap id = forms at hform
    cases forms with
    | nil => exact .inl ⟨rfl, .inr fun form hstr => absurd (hform form hstr) List.not_mem_nil⟩
    | cons first forms =>
        dsimp only
        split_ifs with hall
        · exact .inl ⟨rfl, .inr fun form hstr =>
            of_decide_eq_true (List.all_eq_true.mp hall form (hform form hstr))⟩
        · exact .inr ⟨first, rfl⟩

/-- The walk of a value that is no container. -/
theorem redactLeaf_cases (ref : Ref) (container : Redacted) :
    redactLeaf scrub heap ref container = container ∨
      (∃ text, redactLeaf scrub heap ref container = .str (scrub text)) ∨
      (∀ text, redactLeaf scrub heap ref container ≠ .str text) ∧
        (redactLeaf scrub heap ref container).isContainer = false ∧
        (heap ref).isContainer = false := by
  unfold redactLeaf
  cases heap ref with
  | str text exact => exact .inr (.inl ⟨text, rfl⟩)
  | scalar value => exact .inr (.inr ⟨fun text h => (nomatch h), rfl, rfl⟩)
  | complex real imaginary => exact .inr (.inr ⟨fun text h => (nomatch h), rfl, rfl⟩)
  | object value =>
      rcases @redactTextForm_cases scrub ref value with ⟨hvalue, -⟩ | ⟨form, hvalue⟩
      · exact .inr (.inr ⟨fun text h => (nomatch hvalue.symm.trans h),
          congrArg Redacted.isContainer hvalue, rfl⟩)
      · exact .inr (.inl ⟨form, hvalue⟩)
  | mapping items => exact .inl rfl
  | collection kind items => exact .inl rfl

/-- What the walk answers: a scrubbed text or a placeholder, another value that is no container, or
a container whose children are walked a level down. -/
theorem redactExtraValue_cases (ancestors : Finset Ref) (ref : Ref) :
    (∃ text, redactExtraValue scrub r heap ancestors ref = .str (scrub text)) ∨
    (∃ text ∈ placeholders, redactExtraValue scrub r heap ancestors ref = .str text) ∨
    ((∀ text, redactExtraValue scrub r heap ancestors ref ≠ .str text) ∧
      (redactExtraValue scrub r heap ancestors ref).isContainer = false ∧
        (heap ref).isContainer = false) ∨
    (ancestors.card < maxExtraRedactionDepth ∧ ref ∉ ancestors ∧
      ((∃ items entries, heap ref = .mapping (some items) ∧
          rebuildMapping r (redactExtraValue scrub r heap (insert ref ancestors)) items [] .empty =
            some entries ∧
          redactExtraValue scrub r heap ancestors ref = .dict entries) ∨
        ∃ kind items, heap ref = .collection kind (some items) ∧
          redactExtraValue scrub r heap ancestors ref =
            .collection kind
              (items.map (redactExtraValue scrub r heap (insert ref ancestors))))) := by
  rw [redactExtraValue_eq]
  generalize hcontainer : (if maxExtraRedactionDepth
    ≤ ancestors.card then Redacted.str depthCapPlaceholder
    else if ref ∈ ancestors then .str cyclePlaceholder
    else (rebuildContainer r (redactExtraValue scrub r heap (insert ref ancestors)) (heap ref)).getD
      (.str unreadablePlaceholder)) = container
  rcases @redactLeaf_cases scrub heap ref container with hleaf | ⟨text, hleaf⟩ | ⟨htext, hleaf⟩
  · rw [hleaf]
    split_ifs at hcontainer with hcap hcycle
    · exact .inr (.inl ⟨depthCapPlaceholder, by decide, hcontainer.symm⟩)
    · exact .inr (.inl ⟨cyclePlaceholder, by decide, hcontainer.symm⟩)
    · cases hrebuilt : rebuildContainer r (redactExtraValue scrub r heap (insert ref ancestors))
        (heap ref) with
      | none =>
          rw [hrebuilt] at hcontainer
          exact .inr (.inl ⟨unreadablePlaceholder, by decide, hcontainer.symm⟩)
      | some rebuilt =>
          rw [hrebuilt, Option.getD_some] at hcontainer
          refine .inr (.inr (.inr ⟨not_le.mp hcap, hcycle, ?_⟩))
          rw [← hcontainer]
          cases hnode : heap ref with
          | mapping items =>
              rw [hnode, rebuildContainer] at hrebuilt
              obtain ⟨items, rfl, hmapping⟩ := Option.bind_eq_some_iff.mp hrebuilt
              obtain ⟨entries, hentries, rfl⟩ := Option.map_eq_some_iff.mp hmapping
              exact .inl ⟨items, entries, rfl, hentries, rfl⟩
          | collection kind items =>
              rw [hnode, rebuildContainer] at hrebuilt
              obtain ⟨items, rfl, hitems⟩ := Option.bind_eq_some_iff.mp hrebuilt
              refine .inr ⟨kind, items, rfl, ?_⟩
              cases kind with
              | list => exact (Option.some.inj hitems).symm
              | tuple => exact (Option.some.inj hitems).symm
              | set =>
                  dsimp only at hitems
                  split_ifs at hitems
                  exact (Option.some.inj hitems).symm
              | frozenset =>
                  dsimp only at hitems
                  split_ifs at hitems
                  exact (Option.some.inj hitems).symm
          | str text exact => rw [hnode] at hrebuilt; cases hrebuilt
          | scalar value => rw [hnode] at hrebuilt; cases hrebuilt
          | complex real imaginary => rw [hnode] at hrebuilt; cases hrebuilt
          | object value => rw [hnode] at hrebuilt; cases hrebuilt
  · exact .inl ⟨text, hleaf⟩
  · exact .inr (.inr (.inl ⟨htext, hleaf⟩))

theorem EntryOf.value {walk : Ref → Redacted} {earlier : List (PlacedKey × Redacted)}
    {item : Ref × Ref} {entry : PlacedKey × Redacted} (h : EntryOf r walk earlier item entry) :
    entry.2 = walk item.2 := h.1

/-- A rebuilt mapping's values are walked a level down. -/
theorem redactExtraValue_child {ancestors : Finset Ref} {ref : Ref} {child : Redacted}
    (h : child ∈ (redactExtraValue scrub r heap ancestors ref).children) :
    ancestors.card < maxExtraRedactionDepth ∧ ref ∉ ancestors ∧
      ∃ below ∈ (heap ref).children,
        child = redactExtraValue scrub r heap (insert ref ancestors) below := by
  rcases @redactExtraValue_cases scrub r heap ancestors ref with
    ⟨text, hvalue⟩ | ⟨text, -, hvalue⟩ | ⟨-, hleaf, -⟩ | ⟨hcap, hcycle,
      ⟨items, entries, hnode, hentries, hvalue⟩ |
      ⟨kind, items, hnode, hvalue⟩⟩
  · rw [hvalue] at h
    exact absurd h List.not_mem_nil
  · rw [hvalue] at h
    exact absurd h List.not_mem_nil
  · rw [Redacted.children_of_leaf hleaf] at h
    exact absurd h List.not_mem_nil
  · refine ⟨hcap, hcycle, ?_⟩
    rw [hvalue] at h
    obtain ⟨entry, hentry, rfl⟩ := List.mem_map.mp h
    obtain ⟨placed, rfl, hlength, -, hof⟩ := rebuildMapping_entries items hentries List.nodup_nil
    obtain ⟨index, hindex, hget⟩ := List.mem_iff_getElem.mp hentry
    have hindex' : index < items.length := by
      rw [← hlength]
      exact hindex
    have hvalue := (hof index items[index] entry (List.getElem?_eq_getElem hindex')
      (List.getElem?_eq_some_iff.mpr ⟨hindex, hget⟩)).value
    refine ⟨items[index].2, ?_, hvalue⟩
    rw [hnode]
    exact List.mem_flatMap.mpr ⟨items[index], List.getElem_mem hindex', by simp⟩
  · refine ⟨hcap, hcycle, ?_⟩
    rw [hvalue] at h
    obtain ⟨below, hbelow, rfl⟩ := List.mem_map.mp h
    rw [hnode]
    exact ⟨below, hbelow, rfl⟩

/-- Every part of the result is the walk of a value that the given one leads to. -/
theorem redactExtraValue_part {ancestors : Finset Ref} {ref : Ref} {part : Redacted}
    (h : part.Part (redactExtraValue scrub r heap ancestors ref)) :
    ∃ path below,
      Relation.ReflTransGen (fun outer inner => inner ∈ (heap outer).children) ref below ∧
      part = redactExtraValue scrub r heap path below := by
  induction h with
  | refl => exact ⟨ancestors, ref, .refl, rfl⟩
  | tail hwhole hchild ih =>
      obtain ⟨path, below, hreach, rfl⟩ := ih
      obtain ⟨-, -, inner, hinner, hpart⟩ := redactExtraValue_child hchild
      exact ⟨insert below path, inner, hreach.tail hinner, hpart⟩

/-- Each container of the result stands on a path with room for it. -/
theorem redactExtraValue_depth (room : ℕ) : ∀ {ancestors : Finset Ref} (ref : Ref),
    maxExtraRedactionDepth - ancestors.card = room →
    (redactExtraValue scrub r heap ancestors ref).DepthAtMost room := by
  induction room with
  | zero =>
      intro ancestors ref hroom
      rcases @redactExtraValue_cases scrub r heap ancestors ref with
        ⟨text, hvalue⟩ | ⟨text, -, hvalue⟩ | ⟨-, hleaf, -⟩ | ⟨hcap, -⟩
      · rw [hvalue]
        rfl
      · rw [hvalue]
        rfl
      · exact hleaf
      · omega
  | succ room ih =>
      intro ancestors ref hroom child hchild
      obtain ⟨hcap, hcycle, below, -, rfl⟩ := redactExtraValue_child hchild
      refine ih below ?_
      rw [Finset.card_insert_of_notMem hcycle]
      omega

/-! ### Texts of the result -/

/-- A key that is written out by `str` as it is: a container, and an object that is being
rendered. -/
def WrittenOut (heap : ExtraHeap) (key : Ref) : Prop :=
  match heap key with
  | .mapping _ => True
  | .collection _ _ => True
  | .object value => value.rendering = true
  | _ => False

section
variable (hidempotent : ∀ text, scrub (scrub text) = scrub text)
  (hplaceholders : ∀ text ∈ placeholders, scrub text = text)
include hidempotent hplaceholders

theorem redactExtraValue_str {ancestors : Finset Ref} {ref : Ref} {text : Text}
    (h : redactExtraValue scrub r heap ancestors ref = .str text) : scrub text = text := by
  rcases @redactExtraValue_cases scrub r heap ancestors ref with
    ⟨source, hvalue⟩ | ⟨placeholder, hplaceholder, hvalue⟩ | ⟨hleaf, -⟩ | ⟨-, -,
      ⟨items, entries, -, -, hvalue⟩ |
      ⟨kind, items, -, hvalue⟩⟩
  · cases hvalue.symm.trans h
    exact hidempotent source
  · cases hvalue.symm.trans h
    exact hplaceholders _ hplaceholder
  · exact absurd h (hleaf text)
  · cases hvalue.symm.trans h
  · cases hvalue.symm.trans h

omit hplaceholders in
/-- A key's text is scrubbed, where it is not written out as it is. -/
theorem serializableKey_str (hcomplex : ∀ real imaginary,
    scrub (r.complexText real imaginary) = r.complexText real imaginary)
    {ancestors : Finset Ref} {ref : Ref} {text : Text}
    (h : serializableKey r (redactExtraValue scrub r heap ancestors ref) = some (.str text))
    (hkey : ¬WrittenOut heap ref) :
    scrub text = text := by
  rw [redactExtraValue_eq, redactLeaf] at h
  rw [WrittenOut] at hkey
  cases hnode : heap ref with
  | str source exact =>
      rw [hnode] at h
      cases h
      exact hidempotent source
  | scalar value => rw [hnode] at h; cases h
  | complex real imaginary =>
      rw [hnode] at h
      cases h
      exact hcomplex real imaginary
  | object value =>
      rw [hnode] at h hkey
      dsimp only at h hkey
      rcases @redactTextForm_cases scrub ref value with ⟨hvalue, hform⟩ | ⟨form, hvalue⟩
      · rw [hvalue, serializableKey] at h
        by_cases hnumber : value.number.isSome = true
        · rw [if_pos hnumber] at h
          split_ifs at h
          cases h
        · rw [if_neg hnumber] at h
          obtain ⟨form, hstr, htext⟩ := Option.map_eq_some_iff.mp h
          cases htext
          exact hform.resolve_left hkey _ hstr
      · rw [hvalue] at h
        cases h
        exact hidempotent form
  | mapping items => rw [hnode] at hkey; exact absurd trivial hkey
  | collection kind items => rw [hnode] at hkey; exact absurd trivial hkey

end

end Quorum
