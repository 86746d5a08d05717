import Colony.Defs.Core.Event

namespace Colony.Core

open Colony.Data

def hasTagMatch (key : String) (values : List String) (ev : Event) : Bool :=
  values.any fun filterVal =>
    ((ev.tags.filter fun t => t.kind == key).filterMap Tag.content).any (· == filterVal)

def tagMatchOne (key : SingleLetterTag) (values : List String) (ev : StoredEvent) : Bool :=
  let keyText := key.toText
  let hasMatch := hasTagMatch keyText values ev.event
  if !hasMatch && keyText == "h" then
    -- An event without h tags of its own falls back on the channel it was stored under.
    if !ev.event.tags.any (fun t => t.kind == "h") then
      match ev.channelId with
      | some chId => values.any (· == chId.toText)
      | none => false
    else false
  else hasMatch

def filterMatchOne (f : Filter) (ev : StoredEvent) : Bool :=
  (match f.kinds with
    | some kinds => kinds.contains ev.event.kind
    | none => true) &&
  (match f.authors with
    | some authors => authors.contains ev.event.pubkey
    | none => true) &&
  (match f.since with
    | some since => !decide (ev.event.createdAt < since)
    | none => true) &&
  (match f.until with
    | some untilAt => !decide (ev.event.createdAt > untilAt)
    | none => true) &&
  (match f.ids with
    | some ids => ids.any fun id => id.toHex.toList.isPrefixOf ev.event.id.toHex.toList
    | none => true) &&
  f.genericTags.entries.all fun entry => tagMatchOne entry.1 entry.2 ev

def filtersMatch (filters : List Filter) (ev : StoredEvent) : Bool :=
  filters.any fun f => filterMatchOne f ev

theorem filterMatchOne_kinds {f : Filter} {ev : StoredEvent} {kinds : List Kind}
    (h : filterMatchOne f ev = true) (hk : f.kinds = some kinds) : ev.event.kind ∈ kinds := by
  simp only [filterMatchOne, hk, Bool.and_eq_true, List.contains_eq_mem, decide_eq_true_eq] at h
  exact h.1.1.1.1.1

theorem filterMatchOne_tag {f : Filter} {ev : StoredEvent} {key : SingleLetterTag}
    {values : List String} (h : filterMatchOne f ev = true)
    (hk : f.genericTags.lookup key = some values) : tagMatchOne key values ev = true := by
  simp only [filterMatchOne, Bool.and_eq_true, List.all_eq_true] at h
  exact h.2 ⟨key, values⟩ ((Dict.mem_lookup_entries _ _ _).1 hk)

theorem tagMatchOne_of_ne_h {key : SingleLetterTag} {values : List String} {ev : StoredEvent}
    (hk : key.toText ≠ "h") (h : tagMatchOne key values ev = true) :
    ∃ t ∈ ev.event.tags, t.kind = key.toText ∧ ∃ v ∈ values, t.content = some v := by
  have hm : hasTagMatch key.toText values ev.event = true := by
    simpa [tagMatchOne, hk] using h
  simp only [hasTagMatch, List.any_eq_true, List.mem_filterMap, List.mem_filter, beq_iff_eq] at hm
  obtain ⟨v, hv, c, ⟨t, ⟨ht, hkind⟩, hc⟩, rfl⟩ := hm
  exact ⟨t, ht, hkind, c, hv, hc⟩

end Colony.Core
