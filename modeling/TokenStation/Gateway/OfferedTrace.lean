import TokenStation.Gateway.TraceBudget

/-!
# What was offered to a trace

A trace without bounds would hold all the text that was offered to it. It is kept beside the trace
here, call by call, and each body of the trace is a flagged copy of what it holds: the flag of every
body is set exactly when bytes were left out of it.
-/

namespace TokenStation

open Library

/-! ## The trace without bounds -/

/-- What was offered for one exchange. -/
structure OfferedExchange where
  request : List Char
  response : Option (List Char)

structure OfferedTrace where
  agentRequest : Option (List Char) := none
  upstreamExchanges : List OfferedExchange := []
  agentResponse : Option (List Char) := none

/-- The last response is changed. -/
def OfferedTrace.changeLast (offered : OfferedTrace)
    (change : Option (List Char) → Option (List Char)) : OfferedTrace :=
  match offered.upstreamExchanges.getLast? with
  | none => offered
  | some exchange =>
    { offered with upstreamExchanges := offered.upstreamExchanges.dropLast ++
        [{ exchange with response := change exchange.response }] }

theorem OfferedTrace.changeLast_of_eq {offered : OfferedTrace}
    {change : Option (List Char) → Option (List Char)}
    (h : ∀ exchange, offered.upstreamExchanges.getLast? = some exchange →
      change exchange.response = exchange.response) : offered.changeLast change = offered := by
  rw [changeLast]
  rcases hlast : offered.upstreamExchanges.getLast? with - | exchange
  · rfl
  · have hsame := List.dropLast_append_getLast? exchange hlast
    dsimp only
    rw [h exchange hlast, hsame]

/-- All of a request's body. -/
def offeredBody (jsonWrites : JsonValue → List (List UInt8)) : Option JsonValue → List UInt8
  | none => []
  | some value => (jsonWrites value).flatten

def OfferedTrace.record (jsonWrites : JsonValue → List (List UInt8)) (offered : OfferedTrace) :
    TraceCall → OfferedTrace
  | .captureAgentRequest _ _ _ body => { offered with agentRequest := some (fromUtf8Lossy body) }
  | .captureUpstreamRequest _ _ descriptor =>
    { offered with upstreamExchanges := offered.upstreamExchanges ++
        [{ request := fromUtf8Lossy (offeredBody jsonWrites descriptor.body), response := none }] }
  | .captureUpstreamResponseHead _ _ => offered.changeLast fun _ ↦ some []
  | .appendUpstreamResponseBody value =>
    offered.changeLast fun response ↦ response.map (· ++ fromUtf8Lossy value)
  | .captureAgentResponseHead _ _ => { offered with agentResponse := some [] }
  | .appendAgentResponseBody value =>
    { offered with agentResponse := offered.agentResponse.map (· ++ value) }

/-! ## Flagged copies -/

def RequestCopy (request : HttpRequestSnapshot) (offered : List Char) : Prop :=
  FlaggedCopy request.body request.bodyTruncated offered

def ResponseCopy (response : HttpResponseSnapshot) (offered : List Char) : Prop :=
  FlaggedCopy response.body response.bodyTruncated offered

/-- Both bodies of an exchange are flagged copies. -/
structure ExchangeCopy (exchange : UpstreamHttpExchange) (offered : OfferedExchange) : Prop where
  request : RequestCopy exchange.request offered.request
  response : Option.Rel ResponseCopy exchange.response offered.response

/-- All bodies of a trace are. -/
structure TraceCopy (snapshot : HttpTraceSnapshot) (offered : OfferedTrace) : Prop where
  agentRequest : Option.Rel RequestCopy snapshot.agentRequest offered.agentRequest
  upstreamExchanges :
    List.Forall₂ ExchangeCopy snapshot.upstreamExchanges offered.upstreamExchanges
  agentResponse : Option.Rel ResponseCopy snapshot.agentResponse offered.agentResponse

theorem traceCopy_new : TraceCopy {} {} where
  agentRequest := .none
  upstreamExchanges := .nil
  agentResponse := .none

theorem eq_none_of_rel {α β : Type*} {R : α → β → Prop} {after : Option β}
    (h : Option.Rel R none after) : after = none := by
  match after, h with
  | none, _ => rfl

theorem exists_of_rel_some {α β : Type*} {R : α → β → Prop} {x : α} {after : Option β}
    (h : Option.Rel R (some x) after) : ∃ y, after = some y ∧ R x y := by
  match after, h with
  | some y, .some hrelated => exact ⟨y, rfl, hrelated⟩

/-- Lists that are related have related last elements, which may be replaced. -/
theorem forall₂_replace_last {α β : Type*} {R : α → β → Prop} {before : List α} {before' : List β}
    {last : α} (h : List.Forall₂ R before before') (hlast : before.getLast? = some last) :
    ∃ last', before'.getLast? = some last' ∧ R last last' ∧ ∀ x x', R x x' →
      List.Forall₂ R (before.dropLast ++ [x]) (before'.dropLast ++ [x']) := by
  obtain ⟨front, rfl⟩ := List.getLast?_eq_some_iff.mp hlast
  have hfront := List.forall₂_take_append before' front [last] h.flip
  have hback := List.forall₂_drop_append before' front [last] h.flip
  obtain ⟨last', rest, hrelated, hrest, hdrop⟩ := List.forall₂_cons_right_iff.mp hback
  obtain rfl := List.forall₂_nil_right_iff.mp hrest
  have hsplit : before' = before'.take front.length ++ [last'] := by
    rw [← hdrop, List.take_append_drop]
  refine ⟨last', ?_, hrelated, fun x x' hx ↦ ?_⟩
  · rw [hsplit, List.getLast?_concat]
  · rw [hsplit, List.dropLast_concat, List.dropLast_concat]
    exact List.rel_append hfront.flip (.cons hx .nil)

variable {capture : HttpTraceCapture} {offered : OfferedTrace}

/-- The last response is replaced on both sides. -/
theorem TraceCopy.setLastExchange (h : TraceCopy capture.snapshot offered)
    {exchange : UpstreamHttpExchange} {response : HttpResponseSnapshot}
    {change : Option (List Char) → Option (List Char)}
    (hlast : capture.snapshot.upstreamExchanges.getLast? = some exchange)
    (hchange : ∀ before, Option.Rel ResponseCopy exchange.response before →
      Option.Rel ResponseCopy (some response) (change before)) :
    TraceCopy (capture.setLastExchange { exchange with response := some response }).snapshot
      (offered.changeLast change) := by
  obtain ⟨exchange', hlast', hcopy, hreplace⟩ := forall₂_replace_last h.upstreamExchanges hlast
  rw [OfferedTrace.changeLast, hlast']
  exact { h with
    upstreamExchanges := hreplace _ _ ⟨hcopy.request, hchange _ hcopy.response⟩ }

theorem TraceCopy.captureUpstreamRequest (h : TraceCopy capture.snapshot offered)
    (jsonWrites : JsonValue → List (List UInt8)) (upstream model : String)
    (descriptor : TracedDescriptor) :
    TraceCopy (capture.captureUpstreamRequest jsonWrites upstream model descriptor).snapshot
      (offered.record jsonWrites (.captureUpstreamRequest upstream model descriptor)) := by
  refine { h with
    upstreamExchanges := List.rel_append h.upstreamExchanges (.cons ⟨?_, .none⟩ .nil) }
  rcases hbody : descriptor.body with - | value
  · exact flaggedCopy_writeAll _ [] rfl
  · exact flaggedCopy_writeAll _ _ rfl

theorem TraceCopy.captureUpstreamResponseHead (h : TraceCopy capture.snapshot offered)
    (status : ℕ) (headers : List (String × String)) :
    TraceCopy (capture.captureUpstreamResponseHead status headers).snapshot
      (offered.changeLast fun _ ↦ some []) := by
  rw [HttpTraceCapture.captureUpstreamResponseHead]
  rcases hlast : capture.snapshot.upstreamExchanges.getLast? with - | exchange
  · have hempty := h.upstreamExchanges
    rw [List.getLast?_eq_none_iff.mp hlast, List.forall₂_nil_left_iff] at hempty
    rw [OfferedTrace.changeLast, hempty]
    exact h
  · exact h.setLastExchange hlast fun _ _ ↦ .some (.all [])

theorem TraceCopy.appendUpstreamResponseBody (h : TraceCopy capture.snapshot offered)
    (value : List UInt8) :
    TraceCopy (capture.appendUpstreamResponseBody value).snapshot
      (offered.changeLast fun response ↦ response.map (· ++ fromUtf8Lossy value)) := by
  rcases capture.appendUpstreamResponseBody_cases value with
    ⟨hnone, hsame⟩ | ⟨exchange, response, hlast, hresponse, hcopied⟩
  · -- nothing is recorded, and nothing counts as offered
    rw [hsame, OfferedTrace.changeLast_of_eq]
    · exact h
    · intro exchange' hlast'
      obtain ⟨exchange, hlast, hcopy, -⟩ :=
        forall₂_replace_last (List.Forall₂.flip h.upstreamExchanges) hlast'
      have hresponse := hcopy.response
      rw [hnone exchange hlast] at hresponse
      rw [eq_none_of_rel hresponse, Option.map_none]
  · rw [hcopied]
    refine h.setLastExchange hlast fun before hbefore ↦ ?_
    rw [hresponse] at hbefore
    obtain ⟨text, rfl, hcopy⟩ := exists_of_rel_some hbefore
    exact .some (FlaggedCopy.append hcopy)

theorem TraceCopy.appendAgentResponseBody (h : TraceCopy capture.snapshot offered)
    (value : List Char) :
    TraceCopy (capture.appendAgentResponseBody value).snapshot
      { offered with agentResponse := offered.agentResponse.map (· ++ value) } := by
  have hcopy := h.agentResponse
  rw [HttpTraceCapture.appendAgentResponseBody]
  rcases hresponse : capture.snapshot.agentResponse with - | response
  · rw [hresponse] at hcopy
    have hnone := eq_none_of_rel hcopy
    rw [hnone, Option.map_none, ← hnone]
    exact h
  · rw [hresponse] at hcopy
    obtain ⟨text, htext, hcopy⟩ := exists_of_rel_some hcopy
    have happended := @FlaggedCopy.append
      { remaining := capture.remainingBodyBytes, body := response.body,
        truncated := response.bodyTruncated } (value.flatMap String.utf8EncodeChar) text hcopy
    rw [fromUtf8Lossy_encode] at happended
    rw [htext]
    exact { h with agentResponse := .some happended }

theorem TraceCopy.record (h : TraceCopy capture.snapshot offered)
    (jsonWrites : JsonValue → List (List UInt8)) (call : TraceCall) :
    TraceCopy (capture.record jsonWrites call).snapshot (offered.record jsonWrites call) := by
  cases call with
  | captureAgentRequest method url headers body =>
    exact { h with agentRequest := .some (flaggedCopy_takeBody _ _) }
  | captureUpstreamRequest => exact h.captureUpstreamRequest _ _ _ _
  | captureUpstreamResponseHead => exact h.captureUpstreamResponseHead _ _
  | appendUpstreamResponseBody => exact h.appendUpstreamResponseBody _
  | captureAgentResponseHead => exact { h with agentResponse := .some (.all []) }
  | appendAgentResponseBody => exact h.appendAgentResponseBody _

end TokenStation
