import TokenStation.Gateway.OfferedTrace

/-!
# The chunks of a traced answer

An upstream's answer is recorded chunk by chunk, as the reads happen to cut it. Each chunk is made
text on its own, so a character that two chunks share is recorded as replacement characters. What is
recorded is therefore independent of the chunks exactly when the text of the whole answer is settled
within what the body and the budget allow: up to there its characters have one byte each, or from
the first longer one on nothing but replacement characters fits.
-/

namespace TokenStation

open Library

/-! ## One body -/

/-- A body that was begun with some budget holds what fits of a text. -/
structure Copied (remaining : ℕ) (text : List Char) (copy : BodyCopy) : Prop where
  body : copy.body = fit Char.utf8Size (min maxBodyBytes remaining) text
  spent : utf8Length copy.body + copy.remaining = remaining
  truncated : copy.truncated = decide (min maxBodyBytes remaining < utf8Length text)

section Copied

variable {remaining : ℕ} {text : List Char} {copy : BodyCopy}

theorem copied_new (remaining : ℕ) : Copied remaining [] { remaining } where
  body := fit_nil.symm
  spent := Nat.zero_add remaining
  truncated := rfl

theorem Copied.append (h : Copied remaining text copy) (value : List UInt8) :
    Copied remaining (text ++ fromUtf8Lossy value) (appendBody copy value) := by
  have hspent := (appendBody_spent copy value).trans h.spent
  by_cases hfull : utf8Length text ≤ min maxBodyBytes remaining
  · -- all of the text is there, and the chunk may take what is left
    have hall : copy.body = text := h.body.trans (fit_of_le hfull)
    have hopen : copy.truncated = false :=
      h.truncated.trans (decide_eq_false (Nat.not_lt_of_le hfull))
    have hallowed : copy.allowed = min maxBodyBytes remaining - utf8Length text := by
      have hleft := h.spent
      rw [BodyCopy.allowed, hall] at *
      omega
    refine ⟨?_, hspent, ?_⟩
    · rw [appendBody_eq hopen, fit_append]
      dsimp only
      rw [hall, hallowed]
      exact (if_pos hfull).symm
    · rw [appendBody_eq hopen, utf8Length_append]
      dsimp only
      rw [hallowed, decide_eq_decide]
      omega
  · -- something was left out already
    have hover : min maxBodyBytes remaining < utf8Length text := Nat.lt_of_not_le hfull
    have hclosed : copy.truncated = true := h.truncated.trans (decide_eq_true hover)
    rw [appendBody_of_truncated hclosed] at hspent ⊢
    refine ⟨?_, hspent, ?_⟩
    · rw [h.body, fit_append]
      exact (if_neg hfull).symm
    · rw [hclosed, utf8Length_append]
      exact (decide_eq_true (by omega)).symm

/-- A body that is copied chunk by chunk holds what fits of the chunks' texts. -/
theorem copied_chunks (remaining : ℕ) (chunks : List (List UInt8)) :
    Copied remaining (chunks.flatMap fromUtf8Lossy)
      (runSteps appendBody { remaining } chunks) := by
  induction chunks using List.reverseRecOn with
  | nil => exact copied_new remaining
  | append_singleton chunks chunk ih =>
    rw [runSteps_concat, List.flatMap_append, List.flatMap_singleton]
    exact ih.append chunk

end Copied

/-! ## The last response -/

namespace HttpTraceCapture

variable (jsonWrites : JsonValue → List (List UInt8)) (capture : HttpTraceCapture)

/-- A chunk is copied into the last response. -/
theorem appendUpstreamResponseBody_withCopy (exchange : UpstreamHttpExchange)
    (response : HttpResponseSnapshot) (copy : BodyCopy) (value : List UInt8) :
    (capture.withCopy exchange response copy).appendUpstreamResponseBody value =
      capture.withCopy exchange response (appendBody copy value) := by
  rw [HttpTraceCapture.appendUpstreamResponseBody]
  simp [withCopy, setLastExchange]

theorem runSteps_appendUpstreamResponseBody (exchange : UpstreamHttpExchange)
    (response : HttpResponseSnapshot) (copy : BodyCopy) (chunks : List (List UInt8)) :
    runSteps (HttpTraceCapture.record jsonWrites) (capture.withCopy exchange response copy)
        (chunks.map .appendUpstreamResponseBody) =
      capture.withCopy exchange response (runSteps appendBody copy chunks) := by
  induction chunks using List.reverseRecOn with
  | nil => rfl
  | append_singleton chunks chunk ih =>
    rw [List.map_append, List.map_singleton, runSteps_concat, ih, runSteps_concat]
    exact capture.appendUpstreamResponseBody_withCopy _ _ _ _

/-- The text of an upstream's answer that is recorded for the last exchange, from its head on. -/
def capturedResponse (status : ℕ) (headers : List (String × String))
    (chunks : List (List UInt8)) : Option (List Char) :=
  let capture := runSteps (HttpTraceCapture.record jsonWrites) capture
    (.captureUpstreamResponseHead status headers :: chunks.map .appendUpstreamResponseBody)
  (capture.snapshot.upstreamExchanges.getLast?.bind (·.response)).map (·.body)

variable {jsonWrites capture} {status : ℕ} {headers : List (String × String)}

/-- What is recorded of an answer is what fits of its chunks' texts. -/
theorem capturedResponse_eq {exchange : UpstreamHttpExchange}
    (h : capture.snapshot.upstreamExchanges.getLast? = some exchange)
    (chunks : List (List UInt8)) :
    capture.capturedResponse jsonWrites status headers chunks =
      some (fit Char.utf8Size (min maxBodyBytes capture.remainingBodyBytes)
        (chunks.flatMap fromUtf8Lossy)) := by
  have hhead : capture.captureUpstreamResponseHead status headers =
      capture.withCopy exchange { status, headers := capturedHeaders headers }
        { remaining := capture.remainingBodyBytes } := by
    rw [HttpTraceCapture.captureUpstreamResponseHead, h]
    rfl
  have hrun : runSteps (HttpTraceCapture.record jsonWrites) capture
      (.captureUpstreamResponseHead status headers :: chunks.map .appendUpstreamResponseBody) =
      capture.withCopy exchange { status, headers := capturedHeaders headers }
        (runSteps appendBody { remaining := capture.remainingBodyBytes } chunks) := by
    rw [← capture.runSteps_appendUpstreamResponseBody jsonWrites, ← hhead]
    rfl
  rw [← (copied_chunks capture.remainingBodyBytes chunks).body]
  simp [capturedResponse, hrun, withCopy, setLastExchange]

theorem capturedResponse_of_no_exchange (h : capture.snapshot.upstreamExchanges = [])
    (chunks : List (List UInt8)) :
    capture.capturedResponse jsonWrites status headers chunks = none := by
  have hrun : runSteps (HttpTraceCapture.record jsonWrites) capture
      (.captureUpstreamResponseHead status headers :: chunks.map .appendUpstreamResponseBody) =
      capture := by
    induction chunks using List.reverseRecOn with
    | nil =>
      change capture.captureUpstreamResponseHead status headers = capture
      rw [HttpTraceCapture.captureUpstreamResponseHead, h]
      rfl
    | append_singleton chunks chunk ih =>
      rw [List.map_append, List.map_singleton, ← List.cons_append, runSteps_concat, ih]
      change capture.appendUpstreamResponseBody chunk = capture
      rw [HttpTraceCapture.appendUpstreamResponseBody, h]
      rfl
  simp [capturedResponse, hrun, h]

/-- The recorded text does not depend on the chunks exactly when it is settled. -/
theorem capturedResponse_eq_iff (status : ℕ) (headers : List (String × String))
    (body : List UInt8) :
    (∀ chunks chunks' : List (List UInt8), chunks.flatten = body → chunks'.flatten = body →
      capture.capturedResponse jsonWrites status headers chunks =
        capture.capturedResponse jsonWrites status headers chunks') ↔
      capture.snapshot.upstreamExchanges = [] ∨
        Decoder.Settled replacement Char.utf8Size
          (min maxBodyBytes capture.remainingBodyBytes) (shownPieces body) := by
  rcases hlast : capture.snapshot.upstreamExchanges.getLast? with - | exchange
  · have hnone := List.getLast?_eq_none_iff.mp hlast
    refine iff_of_true (fun chunks chunks' _ _ ↦ ?_) (Or.inl hnone)
    rw [capturedResponse_of_no_exchange hnone, capturedResponse_of_no_exchange hnone]
  · have hsome : capture.snapshot.upstreamExchanges ≠ [] := by
      intro hnil
      rw [hnil] at hlast
      nomatch hlast
    rw [or_iff_right hsome, shownPieces, ← synchronized_utf8Decoder.settled_iff]
    constructor
    · intro hsame chunks hchunks
      have hwhole := hsame chunks [body] hchunks (List.flatten_singleton)
      rw [capturedResponse_eq hlast, capturedResponse_eq hlast, List.flatMap_singleton] at hwhole
      exact Option.some.inj hwhole
    · intro hwhole chunks chunks' hchunks hchunks'
      rw [capturedResponse_eq hlast, capturedResponse_eq hlast]
      exact congrArg some ((hwhole chunks hchunks).trans (hwhole chunks' hchunks').symm)

end HttpTraceCapture

/-! ## Every sequence of calls -/

section Calls

variable (jsonWrites : JsonValue → List (List UInt8))

/-- Once tracing is enabled, it stays so. -/
theorem runSteps_recordCall (capture : HttpTraceCapture) (calls : List TraceCall) :
    runSteps (recordCall jsonWrites) (some capture) calls =
      some (runSteps (HttpTraceCapture.record jsonWrites) capture calls) := by
  induction calls using List.reverseRecOn with
  | nil => rfl
  | append_singleton calls call ih =>
    rw [runSteps_concat, ih, runSteps_concat]
    rfl

theorem bounded_of_calls (calls : List TraceCall) :
    (runSteps (HttpTraceCapture.record jsonWrites) {} calls).Bounded := by
  induction calls using List.reverseRecOn with
  | nil => exact HttpTraceCapture.bounded_new
  | append_singleton calls call ih =>
    rw [runSteps_concat]
    exact ih.record jsonWrites call

theorem traceCopy_of_calls (calls : List TraceCall) :
    TraceCopy (runSteps (HttpTraceCapture.record jsonWrites) {} calls).snapshot
      (runSteps (OfferedTrace.record jsonWrites) {} calls) := by
  induction calls using List.reverseRecOn with
  | nil => exact traceCopy_new
  | append_singleton calls call ih =>
    rw [runSteps_concat, runSteps_concat]
    exact ih.record jsonWrites call

/-- Whatever was called, no body is too long, all of them fit into the budget, and each is marked
exactly when bytes were left out. What is recorded of an answer is independent of its chunks exactly
when it is settled. -/
theorem httpTrace_bounded_and_settled (calls : List TraceCall) :
    ∃ capture, runSteps (recordCall jsonWrites) (some {}) calls = some capture ∧
      (∀ body ∈ capture.snapshot.bodies, utf8Length body ≤ maxBodyBytes) ∧
      (capture.snapshot.bodies.map utf8Length).sum ≤ maxHttpTraceBodyBytes ∧
      TraceCopy capture.snapshot (runSteps (OfferedTrace.record jsonWrites) {} calls) ∧
      ∀ (status : ℕ) (headers : List (String × String)) (body : List UInt8),
        (∀ chunks chunks' : List (List UInt8), chunks.flatten = body → chunks'.flatten = body →
          capture.capturedResponse jsonWrites status headers chunks =
            capture.capturedResponse jsonWrites status headers chunks') ↔
          capture.snapshot.upstreamExchanges = [] ∨
            Decoder.Settled replacement Char.utf8Size
              (min maxBodyBytes capture.remainingBodyBytes) (shownPieces body) := by
  have hbounded := bounded_of_calls jsonWrites calls
  refine ⟨_, runSteps_recordCall jsonWrites {} calls, hbounded.each, ?_,
    traceCopy_of_calls jsonWrites calls, HttpTraceCapture.capturedResponse_eq_iff⟩
  exact (Nat.le_add_right _ _).trans hbounded.shared

end Calls

/-- A character of two bytes, in one chunk and in two. -/
theorem not_httpTrace_chunked : ¬ ∀ (calls : List TraceCall) (capture : HttpTraceCapture),
    runSteps (recordCall fun _ ↦ []) (some {}) calls = some capture →
      ∀ (status : ℕ) (headers : List (String × String)) (body : List UInt8)
        (chunks chunks' : List (List UInt8)), chunks.flatten = body → chunks'.flatten = body →
        capture.capturedResponse (fun _ ↦ []) status headers chunks =
          capture.capturedResponse (fun _ ↦ []) status headers chunks' := by
  intro hall
  have hsame := hall [.captureUpstreamRequest "example" "model-a"
      { url := "https://api.example/v1/chat", auth := none, method := .post, headers := [],
        body := none }] _ rfl 200 [] [0xC3, 0xA9] [[0xC3], [0xA9]] [[0xC3, 0xA9]] rfl rfl
  revert hsame
  decide +kernel

end TokenStation
