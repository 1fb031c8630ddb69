import Quorum.RedactionWalk

/-! The hook that redacts the extras of a log record in the record itself: keys and values, the keys
that change one by one deleted and written back. -/

open IsoTime
open scoped List

namespace Quorum

/-- The attributes of every record, which no extra names. -/
def reservedRecordAttrs : List Text :=
  ["name", "msg", "args", "levelname", "levelno", "pathname", "filename", "module", "exc_info",
    "exc_text", "stack_info",
    "lineno", "funcName", "created", "msecs", "relativeCreated", "thread", "threadName",
    "processName", "process",
    "taskName"].map String.toList

inductive AttrKey
  | given (ref : Ref)
  | placed (key : PlacedKey)

inductive AttrValue
  | given (ref : Ref)
  | redacted (value : Redacted)

abbrev RecordAttrs := List (AttrKey × AttrValue)

variable (scrub : Text → Text) (r : Renderings) (heap : ExtraHeap)

/-- A key up to equality; a container is equal to no text and to no number. -/
def refClass (ref : Ref) : KeyClass :=
  match heap ref with
  | .str text _ => .text text
  | .scalar value => value.keyClass
  | .object value => value.keyClass ref
  | _ => .other ref

def AttrKey.keyClass : AttrKey → KeyClass
  | .given ref => refClass heap ref
  | .placed key => key.keyClass

/-- The attribute is one of the record's own, or private. -/
def skipsAttr (key : Ref) : Bool :=
  match heap key with
  | .str text _ => text ∈ reservedRecordAttrs || text.head? = some '_'
  | _ => false

/-- The redacted key is of another type, or `_differs` from the given one. -/
def keyChanged (key : Ref) (redactedKey : PlacedKey) : Bool :=
  match heap key, redactedKey with
  | .str text exact, .str redactedText => !exact || redactedText ≠ text
  | .scalar _, .scalar _ => false
  | .object _, .object _ _ => false
  | _, _ => true

/-- One attribute of the snapshot; none where the key raises. -/
def redactAttr (key value : Ref) (attrs : RecordAttrs) (nextSuffix : Dict Text ℕ) :
    Option (RecordAttrs × Dict Text ℕ) :=
  if skipsAttr heap key then some (attrs, nextSuffix)
  else
    (serializableKey r (redactExtraValue scrub r heap ∅ key)).bind fun redactedKey =>
      let redactedValue := AttrValue.redacted (redactExtraValue scrub r heap ∅ value)
      if keyChanged heap key redactedKey then
        let left := attrs.filter fun attr => attr.1.keyClass heap ≠ refClass heap key
        (disambiguatedKey r redactedKey (left.map fun attr => attr.1.keyClass heap) nextSuffix).map
          fun (placed, nextSuffix) => (left ++ [(.placed placed, redactedValue)], nextSuffix)
      else
        some (attrs.map fun attr =>
          if attr.1.keyClass heap = refClass heap key then (attr.1, redactedValue) else attr,
          nextSuffix)

def redactAttrs : List (Ref × Ref) → RecordAttrs → Dict Text ℕ → Option RecordAttrs
  | [], attrs, _ => some attrs
  | (key, value) :: todo, attrs, nextSuffix =>
      (redactAttr scrub r heap key value attrs nextSuffix).bind fun (attrs, nextSuffix) =>
        redactAttrs todo attrs nextSuffix

/-- What the hook makes of the attributes that `makeRecord` left. -/
def makeRecordWithExtraRedaction (attrs : List (Ref × Ref)) : Option RecordAttrs :=
  redactAttrs scrub r heap attrs (attrs.map fun attr => (.given attr.1, .given attr.2)) .empty

/-- What stands for the value of an attribute once the hook ran. -/
def attrValue (attr : Ref × Ref) : AttrValue :=
  if skipsAttr heap attr.1 then .given attr.2
  else .redacted (redactExtraValue scrub r heap ∅ attr.2)

variable {scrub r heap}

/-- A key that changes is a text. -/
theorem keyChanged_str {key : Ref} {redactedKey : PlacedKey}
    (h : serializableKey r (redactExtraValue scrub r heap ∅ key) = some redactedKey)
    (hchanged : keyChanged heap key redactedKey = true) : ∃ text, redactedKey = .str text := by
  rcases @redactExtraValue_cases scrub r heap ∅ key with
    ⟨text, hvalue⟩ | ⟨text, -, hvalue⟩ | ⟨-, -, hleaf⟩ | ⟨-, -,
      ⟨items, entries, -, -, hvalue⟩ | ⟨kind, items, -, hvalue⟩⟩
  · rw [hvalue] at h
    exact ⟨_, (Option.some.inj h).symm⟩
  · rw [hvalue] at h
    exact ⟨_, (Option.some.inj h).symm⟩
  · rw [redactExtraValue_eq, redactLeaf] at h
    unfold keyChanged at hchanged
    cases hnode : heap key with
    | str text exact =>
        rw [hnode] at h
        exact ⟨_, (Option.some.inj h).symm⟩
    | scalar value =>
        rw [hnode] at h hchanged
        cases h
        cases hchanged
    | complex real imaginary =>
        rw [hnode] at h
        exact ⟨_, (Option.some.inj h).symm⟩
    | object value =>
        rw [hnode] at h hchanged
        dsimp only at h
        rcases @redactTextForm_cases scrub key value with ⟨hvalue, -⟩ | ⟨form, hvalue⟩
        · rw [hvalue, serializableKey] at h
          by_cases hnumber : value.number.isSome = true
          · rw [if_pos hnumber] at h
            split_ifs at h
            cases h
            cases hchanged
          · rw [if_neg hnumber] at h
            obtain ⟨text, -, htext⟩ := Option.map_eq_some_iff.mp h
            exact ⟨text, htext.symm⟩
        · rw [hvalue] at h
          exact ⟨_, (Option.some.inj h).symm⟩
    | mapping items => rw [hnode] at hleaf; cases hleaf
    | collection kind items => rw [hnode] at hleaf; cases hleaf
  · rw [hvalue] at h
    obtain ⟨text, -, htext⟩ := Option.map_eq_some_iff.mp h
    exact ⟨text, htext.symm⟩
  · rw [hvalue] at h
    obtain ⟨text, -, htext⟩ := Option.map_eq_some_iff.mp h
    exact ⟨text, htext.symm⟩

/-- A dictionary around one of its entries. -/
theorem split_attr {attrs : RecordAttrs}
    (hnodup : (attrs.map fun attr => attr.1.keyClass heap).Nodup) {attr : AttrKey × AttrValue}
    (h : attr ∈ attrs) :
    ∃ before after, attrs = before ++ attr :: after ∧
      ∀ other ∈ before ++ after, other.1.keyClass heap ≠ attr.1.keyClass heap := by
  obtain ⟨before, after, rfl⟩ := List.append_of_mem h
  refine ⟨before, after, rfl, fun other hother heq => ?_⟩
  have hperm : ((before ++ attr :: after).map fun attr => attr.1.keyClass heap).Perm
      (attr.1.keyClass heap :: (before ++ after).map fun attr => attr.1.keyClass heap) :=
    List.perm_middle.map _
  have hcons := List.nodup_cons.mp (hperm.nodup_iff.mp hnodup)
  exact hcons.1 (List.mem_map.mpr ⟨other, hother, heq⟩)

/-- The record between two attributes of the snapshot: one key for each value, and the rest of the
snapshot as given. -/
structure Redacting (heap : ExtraHeap) (done : List AttrValue) (todo : List (Ref × Ref))
    (attrs : RecordAttrs) : Prop where
  keyed : (attrs.map fun attr => attr.1.keyClass heap).Nodup
  values : (attrs.map Prod.snd).Perm (done ++ todo.map fun attr => .given attr.2)
  given : ∀ attr ∈ todo, (AttrKey.given attr.1, AttrValue.given attr.2) ∈ attrs

theorem Redacting.step {done : List AttrValue} {key value : Ref} {todo : List (Ref × Ref)}
    {attrs : RecordAttrs}
    (h : Redacting heap done ((key, value) :: todo) attrs)
    (htodo : ∀ attr ∈ todo, refClass heap attr.1 ≠ refClass heap key)
    (hkey : skipsAttr heap key = false →
      (serializableKey r (redactExtraValue scrub r heap ∅ key)).isSome)
    (nextSuffix : Dict Text ℕ) :
    ∃ attrs' later, redactAttr scrub r heap key value attrs nextSuffix = some (attrs', later) ∧
      Redacting heap (done ++ [attrValue scrub r heap (key, value)]) todo attrs' := by
  obtain ⟨hkeyed, hvalues, hgiven⟩ := h
  rw [redactAttr, attrValue]
  by_cases hskips : skipsAttr heap key = true
  · rw [if_pos hskips, if_pos hskips]
    refine ⟨attrs, nextSuffix, rfl, hkeyed, ?_,
      fun attr hattr => hgiven attr (List.mem_cons_of_mem _ hattr)⟩
    rw [List.append_assoc]
    exact hvalues
  rw [if_neg hskips, if_neg hskips]
  obtain ⟨redactedKey, hredacted⟩ :=
    Option.isSome_iff_exists.mp (hkey (Bool.not_eq_true _ ▸ hskips))
  rw [hredacted, Option.bind_some]
  obtain ⟨before, after, rfl, hothers⟩ := split_attr hkeyed (hgiven (key, value) List.mem_cons_self)
  have hrest : ((before ++ after).map Prod.snd).Perm
      (done ++ todo.map fun attr => .given attr.2) := by
    have hmiddle : (AttrValue.given value :: (before ++ after).map Prod.snd).Perm
        (AttrValue.given value :: (done ++ todo.map fun attr => .given attr.2)) := by
      refine (List.perm_middle.map Prod.snd).symm.trans (hvalues.trans ?_)
      exact List.perm_middle
    exact hmiddle.cons_inv
  have hleft : ∀ attr ∈ todo, (AttrKey.given attr.1, AttrValue.given attr.2) ∈ before ++ after := by
    intro attr hattr
    have hmem := hgiven attr (List.mem_cons_of_mem _ hattr)
    rcases List.mem_append.mp hmem with hmem | hmem
    · exact List.mem_append_left _ hmem
    · rcases List.mem_cons.mp hmem with heq | hmem
      · cases heq
        exact absurd rfl (htodo attr hattr)
      · exact List.mem_append_right _ hmem
  dsimp only
  by_cases hchanged : keyChanged heap key redactedKey = true
  · rw [if_pos hchanged]
    obtain ⟨text, rfl⟩ := keyChanged_str hredacted hchanged
    have hkept : (before ++ after).filter (fun attr => attr.1.keyClass heap ≠ refClass heap key)
        = before ++ after :=
      List.filter_eq_self.mpr fun attr hattr => decide_eq_true (hothers attr hattr)
    have hfilter : (before ++ (AttrKey.given key, AttrValue.given value) :: after).filter
        (fun attr => attr.1.keyClass heap ≠ refClass heap key) = before ++ after := by
      have hself : decide ((AttrKey.given key).keyClass heap ≠ refClass heap key) = false :=
        decide_eq_false fun h => h rfl
      rw [List.filter_append, List.filter_cons_of_neg (by rw [hself]; exact Bool.false_ne_true),
        ← List.filter_append, hkept]
    rw [hfilter]
    obtain ⟨⟨placed, later⟩, hplaced⟩ : ∃ found, disambiguatedKey r (.str text)
        ((before ++ after).map fun attr => attr.1.keyClass heap) nextSuffix = some found := by
      unfold disambiguatedKey
      split_ifs
      · exact ⟨_, rfl⟩
      · exact ⟨_, rfl⟩
    obtain ⟨hfresh, -⟩ := disambiguatedKey_fresh hplaced
    rw [hplaced]
    refine ⟨_, later, rfl, ?_, ?_, fun attr hattr => List.mem_append_left _ (hleft attr hattr)⟩
    · rw [List.map_append]
      refine List.nodup_append.mpr ⟨?_, List.nodup_singleton _,
        fun found hfound other hother heq => ?_⟩
      · exact (List.nodup_cons.mp (((List.perm_middle.map _).nodup_iff).mp hkeyed)).2
      · rw [List.mem_singleton.mp hother] at heq
        rw [heq] at hfound
        exact hfresh hfound
    · rw [List.map_append, List.append_assoc]
      set redacted : AttrValue := .redacted (redactExtraValue scrub r heap ∅ value)
      calc (before ++ after).map Prod.snd ++ [redacted]
          ~ redacted :: (before ++ after).map Prod.snd := List.perm_append_singleton _ _
        _ ~ redacted :: (done ++ todo.map fun attr => .given attr.2) := hrest.cons _
        _ ~ _ := List.perm_middle.symm
  · rw [if_neg hchanged]
    have hreplace : (before ++ (AttrKey.given key, AttrValue.given value) :: after).map (fun attr =>
        if attr.1.keyClass heap = refClass heap key then
          (attr.1, AttrValue.redacted (redactExtraValue scrub r heap ∅ value)) else attr)
        = before ++ (AttrKey.given key,
            AttrValue.redacted (redactExtraValue scrub r heap ∅ value)) :: after := by
      have hsame : ∀ attrs ⊆ before ++ after,
          attrs.map (fun attr => if attr.1.keyClass heap = refClass heap key then
          (attr.1, AttrValue.redacted (redactExtraValue scrub r heap ∅ value)) else attr)
            = attrs := by
        intro attrs hattrs
        refine (List.map_congr_left fun attr hattr => if_neg (hothers attr (hattrs hattr))).trans
          (List.map_id _)
      rw [List.map_append, List.map_cons, hsame before (List.subset_append_left _ _),
        hsame after (List.subset_append_right _ _)]
      exact congrArg (before ++ · :: after) (if_pos rfl)
    rw [hreplace]
    refine ⟨_, nextSuffix, rfl, ?_, ?_, fun attr hattr => ?_⟩
    · rw [List.map_append, List.map_cons] at hkeyed ⊢
      exact hkeyed
    · rw [List.append_assoc]
      set redacted : AttrValue := .redacted (redactExtraValue scrub r heap ∅ value)
      calc (before ++ (AttrKey.given key, redacted) :: after).map Prod.snd
          ~ redacted :: (before ++ after).map Prod.snd := List.perm_middle.map Prod.snd
        _ ~ redacted :: (done ++ todo.map fun attr => .given attr.2) := hrest.cons _
        _ ~ _ := List.perm_middle.symm
    · rcases List.mem_append.mp (hleft attr hattr) with hmem | hmem
      · exact List.mem_append_left _ hmem
      · exact List.mem_append_right _ (List.mem_cons_of_mem _ hmem)

/-- The hook ends where each key it writes can be written, with each value under one key. -/
theorem Redacting.run {todo : List (Ref × Ref)} : ∀ {done : List AttrValue} {attrs : RecordAttrs},
    Redacting heap done todo attrs → (todo.map fun attr => refClass heap attr.1).Nodup →
    (∀ attr ∈ todo, skipsAttr heap attr.1 = false →
      (serializableKey r (redactExtraValue scrub r heap ∅ attr.1)).isSome) →
    ∀ nextSuffix, ∃ attrs', redactAttrs scrub r heap todo attrs nextSuffix = some attrs' ∧
      Redacting heap (done ++ todo.map (attrValue scrub r heap)) [] attrs' := by
  induction todo with
  | nil =>
      intro done attrs h _ _ nextSuffix
      rw [List.map_nil, List.append_nil]
      exact ⟨attrs, rfl, h⟩
  | cons attr todo ih =>
      intro done attrs h hnodup hkeys nextSuffix
      obtain ⟨hfirst, hnodup⟩ := List.nodup_cons.mp hnodup
      have htodo : ∀ other ∈ todo, refClass heap other.1 ≠ refClass heap attr.1 :=
        fun other hother heq =>
        hfirst (List.mem_map.mpr ⟨other, hother, heq⟩)
      obtain ⟨attrs', later, hstep, hnext⟩ :=
        h.step htodo (hkeys attr List.mem_cons_self) nextSuffix
      obtain ⟨final, hrun, hfinal⟩ :=
        ih hnext hnodup (fun other hother => hkeys other (List.mem_cons_of_mem _ hother)) later
      refine ⟨final, ?_, ?_⟩
      · rw [redactAttrs, hstep, Option.bind_some]
        exact hrun
      · rw [List.append_assoc] at hfinal
        exact hfinal

/-- The walk answers for every value, bounded and scrubbed, with an entry for each a mapping had;
the hook leaves each extra's value under one key. -/
theorem redaction_loses_nothing {scrub : Text → Text} {r : Renderings}
    (hidempotent : ∀ text, scrub (scrub text) = scrub text)
    (hplaceholders : ∀ text ∈ placeholders, scrub text = text)
    (hcomplex : ∀ real imaginary,
      scrub (r.complexText real imaginary) = r.complexText real imaginary) (heap : ExtraHeap) :
    (∀ ref, (redactExtraValue scrub r heap ∅ ref).DepthAtMost maxExtraRedactionDepth ∧
      (∀ text, (Redacted.str text).Part (redactExtraValue scrub r heap ∅ ref) → scrub text = text) ∧
      ∀ entries, (Redacted.dict entries).Part (redactExtraValue scrub r heap ∅ ref) →
        ∃ path mapping items, heap mapping = .mapping (some items) ∧
          Relation.ReflTransGen (fun outer inner => inner ∈ (heap outer).children) ref mapping ∧
          entries.length = items.length ∧ (entries.map fun entry => entry.1.keyClass).Nodup ∧
          ∀ index item entry, items[index]? = some item → entries[index]? = some entry →
            EntryOf r (redactExtraValue scrub r heap (insert mapping path))
              (entries.take index) item entry ∧
            ∀ text, entry.1 = .str text → ¬WrittenOut heap item.1 → scrub text = text ∨
              ∃ (key : PlacedKey) (base : Text) (suffix : ℕ),
                key.keyClass ∈ (entries.take index).map (fun entry => entry.1.keyClass) ∧
                key.base r = some base ∧ text = suffixed base suffix) ∧
    ∀ attrs : List (Ref × Ref), (attrs.map fun attr => refClass heap attr.1).Nodup →
      (∀ attr ∈ attrs, skipsAttr heap attr.1 = false →
        (serializableKey r (redactExtraValue scrub r heap ∅ attr.1)).isSome) →
      ∃ attrs', makeRecordWithExtraRedaction scrub r heap attrs = some attrs' ∧
        (attrs'.map fun attr => attr.1.keyClass heap).Nodup ∧
        (attrs'.map Prod.snd).Perm (attrs.map (attrValue scrub r heap)) := by
  refine ⟨fun ref => ⟨redactExtraValue_depth _ ref rfl, ?_, ?_⟩, ?_⟩
  · intro text hpart
    obtain ⟨path, below, -, hwalk⟩ := redactExtraValue_part hpart
    exact redactExtraValue_str hidempotent hplaceholders hwalk.symm
  · intro entries hpart
    obtain ⟨path, mapping, hreach, hwalk⟩ := redactExtraValue_part hpart
    rcases @redactExtraValue_cases scrub r heap path mapping with
      ⟨text, hvalue⟩ | ⟨text, -, hvalue⟩ | ⟨-, hleaf, -⟩ | ⟨-, -,
        ⟨items, found, hnode, hentries, hvalue⟩ |
        ⟨kind, items, -, hvalue⟩⟩
    · cases hvalue.symm.trans hwalk.symm
    · cases hvalue.symm.trans hwalk.symm
    · rw [← hwalk] at hleaf
      cases hleaf
    · cases hvalue.symm.trans hwalk.symm
      obtain ⟨placed, rfl, hlength, hnodup, hof⟩ :=
        rebuildMapping_entries items hentries List.nodup_nil
      refine ⟨path, mapping, items, hnode, hreach, hlength, hnodup,
        fun index item entry hitem hentry => ?_⟩
      have hentryOf := hof index item entry hitem hentry
      refine ⟨hentryOf, fun text htext hwritten => ?_⟩
      obtain ⟨-, key, hkey, hplaced | ⟨htaken, base, suffix, hbase, hplaced⟩⟩ := hentryOf
      · rw [htext] at hplaced
        exact .inl (serializableKey_str hidempotent hcomplex (hplaced ▸ hkey) hwritten)
      · cases htext.symm.trans hplaced
        exact .inr ⟨key, base, suffix, htaken, hbase, rfl⟩
    · cases hvalue.symm.trans hwalk.symm
  · intro attrs hnodup hkeys
    have hstart : Redacting heap [] attrs (attrs.map fun attr =>
        (.given attr.1, .given attr.2)) := by
      refine ⟨?_, ?_, fun attr hattr => List.mem_map.mpr ⟨attr, hattr, rfl⟩⟩
      · rw [List.map_map]
        exact hnodup
      · rw [List.map_map]
        exact List.Perm.refl _
    obtain ⟨attrs', hrun, hkeyed, hvalues, -⟩ := hstart.run hnodup hkeys .empty
    refine ⟨attrs', hrun, hkeyed, ?_⟩
    rw [List.map_nil, List.append_nil] at hvalues
    exact hvalues

/-! ### A usage map by key -/

def Redacted.stringKeys : Redacted → List Text
  | .dict entries => entries.filterMap fun entry =>
      match entry.1 with
      | .str text => some text
      | _ => none
  | _ => []

def plainRenderings : Renderings := ⟨fun _ => "None".toList, fun _ _ => "1j".toList, fun _ => none⟩

/-- Two usage keys that end in one short token, and an object whose `str` raises. -/
def usageHeap : ExtraHeap
  | 0 => .mapping (some [(1, 3), (2, 3)])
  | 1 => .str "sk-aaaaaaaaaa Bearer abcdef".toList true
  | 2 => .str "sk-bbbbbbbbbb Bearer abcdef".toList true
  | 4 => .object ⟨none, some "handle".toList, none, none, true, false⟩
  | _ => .scalar .none

def scrubKeys (text : Text) : Text := if "sk-".toList.isPrefixOf text then redactedText else text

theorem scrubKeys_idempotent (text : Text) : scrubKeys (scrubKeys text) = scrubKeys text := by
  by_cases hkey : "sk-".toList.isPrefixOf text = true
  · rw [scrubKeys, scrubKeys, if_pos hkey]
    rfl
  · rw [scrubKeys, scrubKeys, if_neg hkey, if_neg hkey]

theorem redaction_loses_nothing_usage :
    ((redactExtraValue scrubKeys plainRenderings usageHeap ∅ 0).DepthAtMost maxExtraRedactionDepth ∧
      (∀ text, (Redacted.str text).Part (redactExtraValue scrubKeys plainRenderings usageHeap ∅ 0) →
        scrubKeys text = text)) ∧
    ∃ attrs', makeRecordWithExtraRedaction scrubKeys plainRenderings usageHeap [(1, 3), (2, 3)]
      = some attrs' ∧
      (attrs'.map fun attr => attr.1.keyClass usageHeap).Nodup ∧
      (attrs'.map Prod.snd).Perm
        ([(1, 3), (2, 3)].map (attrValue scrubKeys plainRenderings usageHeap)) := by
  have hall := redaction_loses_nothing (r := plainRenderings) scrubKeys_idempotent
    (by decide +kernel) (fun _ _ => rfl) usageHeap
  exact ⟨⟨(hall.1 0).1, (hall.1 0).2.1⟩,
    hall.2 [(1, 3), (2, 3)] (by decide +kernel) (by decide +kernel)⟩

/-- The suffix of a colliding key can complete a token, which the scrubber would then take; and the
hook does not end where a key's `str` raises. -/
theorem suffixed_key_not_fixed :
    (∃ text ∈ (redactExtraValue asciiRegexTables.redactSecrets
      plainRenderings usageHeap ∅ 0).stringKeys,
      asciiRegexTables.redactSecrets text ≠ text) ∧
    (makeRecordWithExtraRedaction asciiRegexTables.redactSecrets plainRenderings
      usageHeap [(4, 3)]).isNone :=
  ⟨⟨"[REDACTED] Bearer abcdef.2".toList, by decide +kernel, by decide +kernel⟩, by decide +kernel⟩

end Quorum
