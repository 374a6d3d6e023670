import TokenStation.Gateway.ProviderCall
import TokenStation.Library.Triple
import TokenStation.Outbound.GeminiStream

/-!
# A relayed stream leaves nothing behind

An adapter remembers streams in maps that all requests share, and forgets one when it renders an
error for it. The relay ends every stream with such an event, on every way out, so the maps of an
adapter are as they were before the stream.
-/

namespace TokenStation

open Library

/-- An adapter that keeps something for each stream, in a state of its own. An event only touches
its own stream, and an error makes the adapter forget it. -/
structure StreamAdapter (S E : Type) where
  render : StreamEvent → RenderContext → S → Except ErrorEnvelope JsonValue × S
  /-- What is kept for a stream. -/
  entry : S → String → Option E
  frame : ∀ event context id s, context.streamId = some id → id ≠ "" → ∀ other, other ≠ id →
    entry (render event context s).2 other = entry s other
  forgets : ∀ error context id s, context.streamId = some id → id ≠ "" →
    entry (render (.error error) context s).2 id = none
  /-- How many entries the maps have. -/
  size : S → ℕ
  size_eq_zero_iff : ∀ s, size s = 0 ↔ ∀ id, entry s id = none

/-! ## The two adapters -/

/-- A map in which nothing is found has no entry. -/
theorem length_entries_eq_zero_iff {α β : Type} [DecidableEq α] (map : AList fun _ : α ↦ β) :
    map.entries.length = 0 ↔ ∀ key, map.lookup key = none := by
  rw [List.length_eq_zero_iff]
  constructor
  · intro h key
    rw [AList.lookup_eq_none, AList.mem_keys, AList.keys, h]
    exact List.not_mem_nil
  · intro h
    refine List.eq_nil_iff_forall_not_mem.mpr fun entry hmem ↦ ?_
    have hkey : entry.1 ∈ map := AList.mem_keys.mpr (List.mem_map_of_mem hmem)
    exact AList.lookup_eq_none.mp (h entry.1) hkey

theorem memberStr_streamId {context : RenderContext} {id : String}
    (h : context.streamId = some id) :
    JsonValue.memberStr "stream_id" context.document = some id := by
  rw [JsonValue.memberStr, RenderContext.document, h]
  rfl

namespace AnthropicStream

theorem streamContext_document {context : RenderContext} {id : String}
    (h : context.streamId = some id) (hid : id ≠ "") :
    ∃ read, streamContext context.document = .ok read ∧ read.streamId = id := by
  have hmember : (JsonValue.memberStr "stream_id" context.document).filter (· ≠ "") = some id := by
    rw [memberStr_streamId h, Option.filter_some, if_pos (by simpa using hid)]
  rw [streamContext, hmember]
  exact ⟨_, rfl, rfl⟩

theorem lookup_renderEvents {event : StreamEvent} {context : StreamContext} {states : StreamStates}
    {other : String} (hother : other ≠ context.streamId) :
    (renderEvents event context states).2.lookup other = states.lookup other := by
  have herase : (states.erase context.streamId).lookup other = states.lookup other :=
    AList.lookup_erase_ne hother
  rw [renderEvents.eq_def]
  split
  · exact herase
  · split
    · exact herase
    · split
      · exact herase
      · exact herase
      · exact AList.lookup_insert_ne hother

/-- The states of the adapter. -/
def adapter (serde : SerdeJson) : StreamAdapter StreamStates StreamState where
  render event context states := renderStreamEvent serde event context.document states
  entry states id := states.lookup id
  frame event context id states h hid other hother := by
    obtain ⟨read, hread, rfl⟩ := streamContext_document h hid
    rw [renderStreamEvent, hread]
    exact lookup_renderEvents hother
  forgets error context id states h hid := by
    obtain ⟨read, hread, rfl⟩ := streamContext_document h hid
    rw [renderStreamEvent, hread]
    exact AList.lookup_erase read.streamId states
  size states := states.entries.length
  size_eq_zero_iff := length_entries_eq_zero_iff

end AnthropicStream

namespace GeminiStream

theorem streamId_document {context : RenderContext} {id : String}
    (h : context.streamId = some id) : streamId context.document = id := by
  rw [streamId, memberStr_streamId h]
  rfl

/-- What the maps keep for a stream. -/
def StreamMaps.entry (maps : StreamMaps) (id : String) :
    Option (Option PendingCalls × Option (Option FinishReason)) :=
  match maps.calls.lookup id, maps.finishes.lookup id with
  | none, none => none
  | calls, finish => some (calls, finish)

theorem StreamMaps.entry_eq_none_iff (maps : StreamMaps) (id : String) :
    maps.calls.lookup id = none ∧ maps.finishes.lookup id = none ↔ maps.entry id = none := by
  rw [StreamMaps.entry]
  split
  next hcalls hfinishes => exact iff_of_true ⟨hcalls, hfinishes⟩ rfl
  next hsome => exact iff_of_false (fun h ↦ hsome h.1 h.2) nofun

theorem StreamMaps.entry_congr {maps maps' : StreamMaps} {id : String}
    (hcalls : maps.calls.lookup id = maps'.calls.lookup id)
    (hfinishes : maps.finishes.lookup id = maps'.finishes.lookup id) :
    maps.entry id = maps'.entry id := by
  rw [StreamMaps.entry, StreamMaps.entry, hcalls, hfinishes]

/-- The maps without a stream. -/
theorem StreamMaps.entry_erase (maps : StreamMaps) (id : String) :
    StreamMaps.entry { calls := maps.calls.erase id, finishes := maps.finishes.erase id } id =
      none := by
  rw [StreamMaps.entry, AList.lookup_erase, AList.lookup_erase]

theorem entry_renderEvents {parse : String → Option JsonValue} {event : StreamEvent} {id : String}
    {maps : StreamMaps} {other : String} (hother : other ≠ id) :
    (renderEvents parse event id maps).2.entry other = maps.entry other := by
  cases event with
  | toolCallDelta => exact StreamMaps.entry_congr (AList.lookup_insert_ne hother) rfl
  | finish => exact StreamMaps.entry_congr rfl (AList.lookup_insert_ne hother)
  | done =>
    exact StreamMaps.entry_congr (AList.lookup_erase_ne hother) (AList.lookup_erase_ne hother)
  | error =>
    exact StreamMaps.entry_congr (AList.lookup_erase_ne hother) (AList.lookup_erase_ne hother)
  | delta => rfl
  | usage => rfl
  | thinkingDelta => rfl
  | thinkingSignatureDelta => rfl
  | redactedThinking => rfl

/-- The maps of the adapter. -/
def adapter (serde : SerdeJson) (parse : String → Option JsonValue) :
    StreamAdapter StreamMaps (Option PendingCalls × Option (Option FinishReason)) where
  render event context maps := renderStreamEvent serde parse event context.document maps
  entry := StreamMaps.entry
  frame event context id maps h _ other hother := by
    rw [renderStreamEvent, streamId_document h]
    exact entry_renderEvents hother
  forgets error context id maps h _ := by
    rw [renderStreamEvent, streamId_document h]
    exact maps.entry_erase id
  size maps := maps.calls.entries.length + maps.finishes.entries.length
  size_eq_zero_iff maps := by
    rw [Nat.add_eq_zero_iff, length_entries_eq_zero_iff, length_entries_eq_zero_iff,
      ← forall_and]
    exact forall_congr' maps.entry_eq_none_iff

end GeminiStream

end TokenStation
