import TokenStation.Gateway.RelayText

/-!
# Raw relays are faithful

Both relays pass a stream on as it is: the text handed on, and how the relay ends, are those of the
bytes and not of the reads. A client that refuses a reply stops the relay, and a character that is
cut off at the end of the stream is shown as damaged.
-/

namespace TokenStation

open Exchange JsonValue Library

section Faithful

variable {W : Type}

/-- One run of a relay on a body that comes in these reads. Nothing has been handed on before. -/
def RawRun (relay : UpstreamResponse → StateM (Exchange (NativeWorld W)) AttemptResult)
    (noted : Option ErrorCode × ℕ) (reads : List (List UInt8)) (result : AttemptResult)
    (after : Exchange (NativeWorld W)) : Prop :=
  (∀ bytes ∈ reads, bytes ≠ []) ∧ ∃ status before, Standing [] noted before ∧
    relay { status, body := reads.map .data } before = (result, after)

/-- The client took every reply. -/
def TakesAll (after : Exchange (NativeWorld W)) : Prop := ∀ reply ∈ after.emitted, reply.2 = true

/-- The text that was handed on in an exchange. -/
def handedOn (after : Exchange (NativeWorld W)) : List Char :=
  chunkText (after.emitted.map Prod.fst)

/-- Each run of a relay follows the script of what it watches for. -/
def FollowsScripts {σ : Type} (env : Environment W) (watch : RelayWatch σ)
    (relay : UpstreamResponse → StateM (Exchange (NativeWorld W)) AttemptResult) : Prop :=
  ∀ noted reads result after, RawRun relay noted reads result after →
    Follows env (relayScript watch (watch.tapOf []) false [] reads) false [] noted result after

section Script

variable {σ : Type} {env : Environment W} {watch : RelayWatch σ} {noted : Option ErrorCode × ℕ}
  {script : List Reply × Option ErrorEnvelope} {reads reads' : List (List UInt8)}
  {result result' : AttemptResult} {after after' : Exchange (NativeWorld W)}
  {relay : UpstreamResponse → StateM (Exchange (NativeWorld W)) AttemptResult}

/-- The replies that were handed on are the first ones of the script. -/
theorem Follows.emitted_within (h : Follows env script false [] noted result after) :
    after.emitted.map Prod.fst <+: script.1 := by
  rcases h with ⟨hemitted, -⟩ | ⟨taken, refused, rest, hscript, hemitted, -⟩
  · rw [hemitted, List.nil_append, List.map_map]
    exact (List.map_id script.1).symm ▸ List.prefix_refl _
  · rw [hemitted, hscript]
    refine ⟨rest, ?_⟩
    simp [Function.comp_def]

theorem Follows.of_taken (h : Follows env script false [] noted result after)
    (htaken : TakesAll after) :
    after.emitted = script.1.map (·, true) ∧
      (result, after.noted) = relayEnding (script.1.contains .beginStream) noted script.2 := by
  rcases h with ⟨hemitted, hending⟩ | ⟨taken, refused, rest, -, hemitted, -⟩
  · exact ⟨hemitted, hending⟩
  · have hlast := htaken (refused, false) (by rw [hemitted]; simp)
    nomatch hlast

/-- An error is returned before anything is handed on. -/
theorem Follows.emitted_of_error {error : ErrorEnvelope}
    (h : Follows env script false [] noted result after)
    (hopens : script.1 = [] ∨ .beginStream ∈ script.1) (herror : result = .error error) :
    after.emitted = [] := by
  rcases h with ⟨hemitted, hending⟩ | ⟨-, -, -, -, -, -, hresult⟩
  · rcases hopens with hnone | hbegin
    · rw [hemitted, hnone]
      rfl
    · rw [List.contains_iff_mem.mpr hbegin] at hending
      rcases hfailure : script.2 with - | failure
      · rw [hfailure, herror] at hending
        nomatch hending
      · rw [hfailure, herror] at hending
        nomatch hending
  · rw [hresult] at herror
    nomatch herror

/-- Replies that begin as a stream are a stream. -/
theorem exists_chunks {replies : List (Reply × Bool)} {chunks : List String}
    (h : replies.map Prod.fst <+: .beginStream :: chunks.map .chunk) :
    replies = [] ∨ ∃ accepted, ∃ chunks : List (String × Bool),
      replies = (.beginStream, accepted) :: chunks.map fun chunk ↦ (.chunk chunk.1, chunk.2) := by
  rcases replies with - | ⟨⟨reply, accepted⟩, replies⟩
  · exact Or.inl rfl
  · rw [List.map_cons, List.cons_prefix_cons] at h
    obtain ⟨rfl, h⟩ := h
    refine Or.inr ⟨accepted, ?_⟩
    have hchunks : ∀ reply ∈ replies, ∃ data, reply.1 = .chunk data := fun reply hreply ↦ by
      obtain ⟨data, -, hdata⟩ := List.mem_map.mp (h.subset (List.mem_map_of_mem hreply))
      exact ⟨data, hdata.symm⟩
    clear h
    induction replies with
    | nil => exact ⟨[], rfl⟩
    | cons reply replies ih =>
      obtain ⟨data, hdata⟩ := hchunks reply List.mem_cons_self
      obtain ⟨chunks, hrest⟩ := ih fun reply hreply ↦ hchunks reply (List.mem_cons_of_mem _ hreply)
      refine ⟨(data, reply.2) :: chunks, ?_⟩
      rw [List.map_cons, ← (List.cons.inj hrest).2, ← hdata]

theorem chunkText_map_taken (replies : List Reply) :
    chunkText ((replies.map (·, true)).map Prod.fst) = chunkText replies := by
  rw [List.map_map]
  exact congrArg chunkText (List.map_id replies)

theorem chunkText_mono {replies more : List Reply} (h : replies <+: more) :
    chunkText replies <+: chunkText more := by
  obtain ⟨rest, rfl⟩ := h
  rw [chunkText, chunkText, List.flatMap_append]
  exact List.prefix_append _ _

/-! ### What a relay that follows its scripts hands on -/

theorem waiting_nil : Waiting ([] : List UInt8) := Or.inl rfl

theorem FollowsScripts.opened (h : FollowsScripts env watch relay)
    (hrun : RawRun relay noted reads result after)
    (hfinished : isUnfinished reads.flatten = false) :
    (∀ error, result = .error error → after.emitted = []) ∧
      (after.emitted = [] ∨ ∃ accepted, ∃ chunks : List (String × Bool), after.emitted =
        (.beginStream, accepted) :: chunks.map fun chunk ↦ (.chunk chunk.1, chunk.2)) := by
  have hscript := h _ _ _ _ hrun
  have hemitted := hscript.emitted_within
  rcases script_opens watch (watch.tapOf []) waiting_nil with
    hnone | ⟨chunks, hchunks⟩ | hunfinished
  · rw [hnone, List.prefix_nil, List.map_eq_nil_iff] at hemitted
    exact ⟨fun _ _ ↦ hemitted, Or.inl hemitted⟩
  · refine ⟨fun error ↦ hscript.emitted_of_error (Or.inr ?_), exists_chunks (hchunks ▸ hemitted)⟩
    rw [hchunks]
    exact List.mem_cons_self
  · rw [List.nil_append, hfinished] at hunfinished
    nomatch hunfinished

theorem FollowsScripts.whole (h : FollowsScripts env watch relay)
    (hrun : RawRun relay noted reads result after) (htaken : TakesAll after)
    (hclean : utf8Decoder.Clean reads.flatten) : handedOn after = shownText reads.flatten := by
  rw [handedOn, ((h _ _ _ _ hrun).of_taken htaken).1, chunkText_map_taken]
  exact chunkText_of_clean waiting_nil hclean

theorem FollowsScripts.valid (h : FollowsScripts env watch relay)
    (hrun : RawRun relay noted reads result after) (htaken : TakesAll after)
    (hvalid : (utf8Decoder.decode reads.flatten).2 = []) :
    (handedOn after).flatMap String.utf8EncodeChar = reads.flatten := by
  have hbytes := utf8Encode_decode reads.flatten
  rw [hvalid, List.append_nil] at hbytes
  rw [h.whole hrun htaken (Or.inl hvalid), shownText, hvalid]
  exact (congrArg _ (List.append_nil _)).trans hbytes

theorem FollowsScripts.within (h : FollowsScripts env watch relay)
    (hrun : RawRun relay noted reads result after) :
    handedOn after <+: shownText reads.flatten :=
  (chunkText_mono (h _ _ _ _ hrun).emitted_within).trans (chunkText_within waiting_nil)

end Script

/-! ## The two relays -/

section Relays

variable {env : Environment W} {ctx : RequestContext} {hasImages : Bool} {deadline : ℕ}

end Relays

/-! ## A quiet world -/

def unanswered : ErrorEnvelope := ErrorEnvelope.new .internal 500 "nobody answers"

/-- A world in which no time passes, no request is cancelled, the client takes every reply, and
nobody else answers. -/
def Environment.quiet (parseJson : String → Option JsonValue) : Environment Unit where
  now world := (0, world)
  tokenReason world := (none, world)
  deliver _ world := (true, world)
  nextRenderId world := (0, world)
  buildHttpRequest _ _ world := (.error unanswered, world)
  sendProviderCall _ _ _ world := (.error unanswered, world)
  intoParts _ world := (.error unanswered, world)
  noteAuthoritative _ _ world := world
  mapProviderError _ _ world := (.error unanswered, world)
  parseResponse _ _ world := (.error unanswered, world)
  parseChunk _ _ world := (.error unanswered, world)
  finishParser _ world := (.error unanswered, world)
  renderResponse _ _ _ world := (.error unanswered, world)
  renderStreamEvent _ _ _ world := (.error unanswered, world)
  mapInboundError _ _ _ world := (.error unanswered, world)
  jsonText _ := ""
  parseJson
  replaceCanonicalDocuments := id
  finishAccounting usage world := (usage, world)

/-- The exchange with a quiet world, before anything happens. -/
def Exchange.quiet : Exchange (NativeWorld Unit) := { world := { outer := (), status := 200 } }

end Faithful

end TokenStation
