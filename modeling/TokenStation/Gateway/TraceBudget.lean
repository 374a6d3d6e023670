import TokenStation.Gateway.HttpTrace
import TokenStation.Gateway.RelayText

/-!
# What a trace holds

Each body of a trace is bounded, and so are all of them together, because what a body takes is taken
from the budget they share; a body that is replaced gives nothing back. A body that is not marked as
truncated holds all that was offered for it, and one that is marked does not (`FlaggedCopy`).
-/

namespace TokenStation

open Library

/-! ## One body -/

section Body

variable {text : List Char} {n : ℕ} {copy : BodyCopy} {value : List UInt8}

theorem utf8Length_eq_weigh (text : List Char) : utf8Length text = weigh Char.utf8Size text := rfl

theorem isCharBoundary_iff :
    isCharBoundary text n = true ↔ weigh Char.utf8Size (fit Char.utf8Size n text) = n := by
  induction text generalizing n with
  | nil =>
    match n with
    | 0 => simp [isCharBoundary]
    | n + 1 => simp [isCharBoundary]
  | cons c text ih =>
    have hpos := Char.utf8Size_pos c
    match n with
    | 0 => simp [isCharBoundary, fit_cons_of_lt hpos]
    | n + 1 =>
      rw [isCharBoundary, Bool.and_eq_true, decide_eq_true_eq, ih]
      by_cases hc : c.utf8Size ≤ n + 1
      · rw [fit_cons_of_le hc, weigh_cons]
        omega
      · rw [fit_cons_of_lt (Nat.lt_of_not_le hc), weigh_nil]
        omega

/-- The loop ends behind the last character that fits. -/
theorem charBoundary_eq (text : List Char) (n : ℕ) :
    charBoundary text n = weigh Char.utf8Size (fit Char.utf8Size n text) := by
  induction n with
  | zero => exact (Nat.le_zero.mp (weigh_fit_le 0 text)).symm
  | succ n ih =>
    rw [charBoundary]
    by_cases hboundary : isCharBoundary text (n + 1) = true
    · rw [if_pos hboundary, isCharBoundary_iff.mp hboundary]
    · have hle := @weigh_fit_le _ Char.utf8Size (n + 1) text
      have hne := mt isCharBoundary_iff.mpr hboundary
      have hsame : fit Char.utf8Size n text = fit Char.utf8Size (n + 1) text :=
        fit_of_weigh_fit_le (by omega) (Nat.le_succ n)
      rw [if_neg hboundary, ih, hsame]

/-- What is cut at the last boundary before the end is what fits. -/
theorem charBoundary_min (text : List Char) (n : ℕ) :
    charBoundary text (min n (utf8Length text)) = utf8Length (fit Char.utf8Size n text) := by
  rw [charBoundary_eq, utf8Length_eq_weigh, utf8Length_eq_weigh]
  by_cases h : n ≤ weigh Char.utf8Size text
  · rw [min_eq_left h]
  · have hle := Nat.le_of_not_le h
    rw [min_eq_right hle, fit_of_le (Nat.le_refl _), fit_of_le hle]

theorem fit_utf8Length_fit (text : List Char) (n : ℕ) :
    fit Char.utf8Size (utf8Length (fit Char.utf8Size n text)) text = fit Char.utf8Size n text :=
  fit_of_weigh_fit_le (Nat.le_refl _) (weigh_fit_le n text)

/-- How much more a body may hold. -/
def BodyCopy.allowed (copy : BodyCopy) : ℕ :=
  min (maxBodyBytes - utf8Length copy.body) copy.remaining

theorem appendBody_of_truncated (h : copy.truncated = true) : appendBody copy value = copy := by
  rw [appendBody, if_pos (Or.inl h)]

theorem appendBody_eq (h : copy.truncated = false) : appendBody copy value =
    { remaining := copy.remaining -
        utf8Length (fit Char.utf8Size copy.allowed (fromUtf8Lossy value))
      body := copy.body ++ fit Char.utf8Size copy.allowed (fromUtf8Lossy value)
      truncated := copy.allowed < utf8Length (fromUtf8Lossy value) } := by
  rw [appendBody, h]
  by_cases hvalue : value = []
  · rw [if_pos (Or.inr hvalue), hvalue, fromUtf8Lossy_nil, fit_nil, List.append_nil]
    obtain ⟨remaining, body, truncated⟩ := copy
    obtain rfl := h
    rfl
  · rw [if_neg (by simp [hvalue])]
    have hboundary := charBoundary_min (fromUtf8Lossy value) copy.allowed
    rw [BodyCopy.allowed] at hboundary ⊢
    simp only [hboundary, fit_utf8Length_fit]
    congr 2
    exact propext weigh_fit_lt_iff

/-- What a body takes is taken from the budget. -/
theorem appendBody_spent (copy : BodyCopy) (value : List UInt8) :
    utf8Length (appendBody copy value).body + (appendBody copy value).remaining =
      utf8Length copy.body + copy.remaining := by
  by_cases h : copy.truncated = true
  · rw [appendBody_of_truncated h]
  · have htaken : utf8Length (fit Char.utf8Size copy.allowed (fromUtf8Lossy value)) ≤
        copy.remaining := (weigh_fit_le _ _).trans (min_le_right _ _)
    rw [appendBody_eq (eq_false_of_ne_true h), utf8Length_append]
    dsimp only
    omega

theorem appendBody_le (h : utf8Length copy.body ≤ maxBodyBytes) :
    utf8Length (appendBody copy value).body ≤ maxBodyBytes := by
  by_cases htruncated : copy.truncated = true
  · rwa [appendBody_of_truncated htruncated]
  · have htaken : utf8Length (fit Char.utf8Size copy.allowed (fromUtf8Lossy value)) ≤
        maxBodyBytes - utf8Length copy.body := (weigh_fit_le _ _).trans (min_le_left _ _)
    rw [appendBody_eq (eq_false_of_ne_true htruncated), utf8Length_append]
    omega

/-- A body is marked exactly when bytes of a text were left out of it, and holds all of the text
otherwise. -/
structure FlaggedCopy (body : List Char) (truncated : Bool) (offered : List Char) : Prop where
  flag : truncated = true ↔ utf8Length body < utf8Length offered
  whole : truncated = false → body = offered

theorem FlaggedCopy.all (text : List Char) : FlaggedCopy text false text where
  flag := iff_of_false Bool.false_ne_true (Nat.lt_irrefl _)
  whole _ := rfl

theorem FlaggedCopy.of_lt {body offered : List Char} (h : utf8Length body < utf8Length offered) :
    FlaggedCopy body true offered where
  flag := iff_of_true rfl h
  whole hflag := nomatch hflag

theorem FlaggedCopy.append {offered : List Char}
    (h : FlaggedCopy copy.body copy.truncated offered) :
    FlaggedCopy (appendBody copy value).body (appendBody copy value).truncated
      (offered ++ fromUtf8Lossy value) := by
  by_cases htruncated : copy.truncated = true
  · have hless := h.flag.mp htruncated
    rw [appendBody_of_truncated htruncated, htruncated]
    refine .of_lt ?_
    rw [utf8Length_append]
    omega
  · rw [appendBody_eq (eq_false_of_ne_true htruncated), h.whole (eq_false_of_ne_true htruncated)]
    by_cases hfull : copy.allowed < utf8Length (fromUtf8Lossy value)
    · have htaken : utf8Length (fit Char.utf8Size copy.allowed (fromUtf8Lossy value)) <
          utf8Length (fromUtf8Lossy value) := weigh_fit_lt_iff.mpr hfull
      rw [decide_eq_true hfull]
      refine .of_lt ?_
      rw [utf8Length_append, utf8Length_append]
      omega
    · have hall : fit Char.utf8Size copy.allowed (fromUtf8Lossy value) = fromUtf8Lossy value :=
        fit_of_le (Nat.le_of_not_lt hfull)
      rw [decide_eq_false hfull, hall]
      exact .all _

theorem flaggedCopy_takeBody (remaining : ℕ) (value : List UInt8) :
    FlaggedCopy (appendBody { remaining } value).body (appendBody { remaining } value).truncated
      (fromUtf8Lossy value) :=
  @FlaggedCopy.append { remaining } value [] (.all [])

end Body

/-! ## The body of an upstream request -/

section Writer

variable {writer : CappedJsonWriter}

/-- The writer copies the beginning of what is written, and is marked when that was not all. -/
theorem writeAll_spec (values : List (List UInt8)) (h : writer.truncated = false)
    (hbytes : writer.bytes.length ≤ writer.limit) :
    (writer.writeAll values).bytes = (writer.bytes ++ values.flatten).take writer.limit ∧
      (writer.writeAll values).truncated =
        decide (writer.limit < (writer.bytes ++ values.flatten).length) := by
  induction values generalizing writer with
  | nil =>
    rw [CappedJsonWriter.writeAll, List.flatten_nil, List.append_nil,
      List.take_of_length_le hbytes, h, decide_eq_false (Nat.not_lt_of_le hbytes)]
    exact ⟨rfl, rfl⟩
  | cons value values ih =>
    by_cases hfits : value.length ≤ writer.limit - writer.bytes.length
    · have hnext := @ih { writer with bytes := writer.bytes ++ value } h (by
        dsimp only
        rw [List.length_append]
        omega)
      rw [CappedJsonWriter.writeAll, CappedJsonWriter.write, if_pos hfits, List.flatten_cons,
        ← List.append_assoc]
      exact hnext
    · rw [CappedJsonWriter.writeAll, CappedJsonWriter.write, if_neg hfits, List.flatten_cons]
      constructor
      · change writer.bytes ++ value.take (writer.limit - writer.bytes.length) = _
        rw [List.take_append, List.take_of_length_le hbytes,
          List.take_append_of_le_length (Nat.le_of_not_le hfits)]
      · refine (decide_eq_true ?_).symm
        rw [List.length_append, List.length_append]
        omega

/-- What is written to a fresh writer. -/
theorem writeAll_fresh (limit : ℕ) (values : List (List UInt8)) :
    (({ limit } : CappedJsonWriter).writeAll values).bytes = values.flatten.take limit ∧
      (({ limit } : CappedJsonWriter).writeAll values).truncated =
        decide (limit < values.flatten.length) :=
  @writeAll_spec { limit } values rfl (Nat.zero_le _)

theorem appendBody_fresh_le (remaining : ℕ) (value : List UInt8) :
    utf8Length (appendBody { remaining } value).body ≤ min maxBodyBytes remaining := by
  rw [appendBody_eq rfl]
  exact weigh_fit_le _ _

/-- The copy of a request's body is marked when the writer stopped, or when the budget ended. -/
theorem flaggedCopy_writeAll (remaining : ℕ) (values : List (List UInt8))
    {writer : CappedJsonWriter}
    (hwriter : writer = ({ limit := min maxBodyBytes remaining } : CappedJsonWriter).writeAll
      values) :
    FlaggedCopy (appendBody { remaining } writer.bytes).body
      (writer.truncated || (appendBody { remaining } writer.bytes).truncated)
      (fromUtf8Lossy values.flatten) := by
  obtain ⟨hbytes, htruncated⟩ := writeAll_fresh (min maxBodyBytes remaining) values
  rw [← hwriter] at hbytes htruncated
  by_cases hall : values.flatten.length ≤ min maxBodyBytes remaining
  · rw [htruncated, decide_eq_false (Nat.not_lt_of_le hall), Bool.false_or, hbytes,
      List.take_of_length_le hall]
    exact flaggedCopy_takeBody remaining _
  · -- what was cut has at least as many bytes as text
    have hlong := length_le_utf8Length_fromUtf8Lossy values.flatten
    have hcopied := appendBody_fresh_le remaining writer.bytes
    rw [htruncated, decide_eq_true (Nat.lt_of_not_le hall), Bool.true_or]
    exact .of_lt (by omega)

end Writer

/-! ## All bodies -/

def UpstreamHttpExchange.bodies (exchange : UpstreamHttpExchange) : List (List Char) :=
  exchange.request.body :: (exchange.response.map (·.body)).toList

/-- The bodies of a trace. -/
def HttpTraceSnapshot.bodies (snapshot : HttpTraceSnapshot) : List (List Char) :=
  (snapshot.agentRequest.map (·.body)).toList ++
    snapshot.upstreamExchanges.flatMap UpstreamHttpExchange.bodies ++
    (snapshot.agentResponse.map (·.body)).toList

/-- No body is too long, and what all of them hold was taken from the budget. -/
structure HttpTraceCapture.Bounded (capture : HttpTraceCapture) : Prop where
  each : ∀ body ∈ capture.snapshot.bodies, utf8Length body ≤ maxBodyBytes
  shared : weigh utf8Length capture.snapshot.bodies + capture.remainingBodyBytes ≤
    maxHttpTraceBodyBytes

namespace HttpTraceCapture

variable {capture after : HttpTraceCapture}

theorem bounded_new : Bounded {} where
  each := fun _ hbody ↦ nomatch hbody
  shared := Nat.le_refl _

/-- Some bodies give way to others, which take from the budget what they are longer. -/
theorem Bounded.replace (front old new back : List (List Char)) (h : capture.Bounded)
    (hbefore : capture.snapshot.bodies = front ++ old ++ back)
    (hafter : after.snapshot.bodies = front ++ new ++ back)
    (hnew : ∀ body ∈ new, utf8Length body ≤ maxBodyBytes)
    (hspent : weigh utf8Length new + after.remainingBodyBytes ≤
      weigh utf8Length old + capture.remainingBodyBytes) : after.Bounded := by
  obtain ⟨heach, hshared⟩ := h
  rw [hbefore] at heach hshared
  constructor
  · intro body hbody
    rw [hafter, List.mem_append, List.mem_append] at hbody
    rcases hbody with (hfront | hbody) | hback
    · exact heach body (List.mem_append_left _ (List.mem_append_left _ hfront))
    · exact hnew body hbody
    · exact heach body (List.mem_append_right _ hback)
  · rw [weigh_append, weigh_append] at hshared
    rw [hafter, weigh_append, weigh_append]
    omega

/-- A body is appended to, or begun in the place of others. -/
theorem Bounded.copied (front old back : List (List Char)) {copy : BodyCopy} {value : List UInt8}
    (h : capture.Bounded) (hcopy : copy.remaining = capture.remainingBodyBytes)
    (hold : copy.body = [] ∨ old = [copy.body])
    (hbefore : capture.snapshot.bodies = front ++ old ++ back)
    (hafter : after.snapshot.bodies = front ++ [(appendBody copy value).body] ++ back)
    (hremaining : after.remainingBodyBytes = (appendBody copy value).remaining) :
    after.Bounded := by
  have hspent := appendBody_spent copy value
  have hbody : utf8Length copy.body ≤ maxBodyBytes ∧
      utf8Length copy.body ≤ weigh utf8Length old := by
    rcases hold with hempty | rfl
    · rw [hempty]
      exact ⟨Nat.zero_le _, Nat.zero_le _⟩
    · refine ⟨h.each copy.body ?_, by rw [weigh_cons, weigh_nil, Nat.add_zero]⟩
      rw [hbefore]
      exact List.mem_append_left _ (List.mem_append_right _ List.mem_cons_self)
  refine h.replace front old [(appendBody copy value).body] back hbefore hafter ?_ ?_
  · intro body hmem
    rw [List.mem_singleton.mp hmem]
    exact appendBody_le hbody.1
  · rw [hremaining, weigh_cons, weigh_nil]
    omega

/-! ## Each call -/

theorem Bounded.captureAgentRequest (h : capture.Bounded) (method url : String)
    (headers : List (String × String)) (body : List UInt8) :
    (capture.captureAgentRequest method url headers body).Bounded :=
  h.copied [] _ _ rfl (Or.inl rfl) (List.append_assoc _ _ _) (List.append_assoc _ _ _) rfl

theorem Bounded.captureUpstreamRequest (h : capture.Bounded)
    (jsonWrites : JsonValue → List (List UInt8)) (upstream model : String)
    (descriptor : TracedDescriptor) :
    (capture.captureUpstreamRequest jsonWrites upstream model descriptor).Bounded := by
  refine h.copied ((capture.snapshot.agentRequest.map (·.body)).toList ++
    capture.snapshot.upstreamExchanges.flatMap UpstreamHttpExchange.bodies) []
    (capture.snapshot.agentResponse.map (·.body)).toList rfl (Or.inl rfl) ?_ ?_ rfl
  · rw [List.append_nil]
    rfl
  · rw [HttpTraceSnapshot.bodies]
    simp only [HttpTraceCapture.captureUpstreamRequest, takeBody, List.flatMap_append,
      List.flatMap_cons, List.flatMap_nil, List.append_nil, List.append_assoc]
    rfl

/-- The bodies around those of the last exchange. -/
theorem bodies_setLastExchange (exchange : UpstreamHttpExchange) :
    (capture.setLastExchange exchange).snapshot.bodies =
      ((capture.snapshot.agentRequest.map (·.body)).toList ++
        capture.snapshot.upstreamExchanges.dropLast.flatMap UpstreamHttpExchange.bodies ++
        [exchange.request.body]) ++ (exchange.response.map (·.body)).toList ++
      (capture.snapshot.agentResponse.map (·.body)).toList := by
  rw [HttpTraceSnapshot.bodies]
  simp only [setLastExchange, List.flatMap_append, List.flatMap_cons, List.flatMap_nil,
    List.append_nil, List.append_assoc]
  rfl

theorem setLastExchange_self {exchange : UpstreamHttpExchange}
    (h : capture.snapshot.upstreamExchanges.getLast? = some exchange) :
    capture.setLastExchange exchange = capture := by
  have hlast := List.dropLast_append_getLast? exchange h
  rw [setLastExchange, hlast]

/-- The body of the last response is copied. -/
def withCopy (capture : HttpTraceCapture) (exchange : UpstreamHttpExchange)
    (response : HttpResponseSnapshot) (copy : BodyCopy) : HttpTraceCapture :=
  let response := { response with body := copy.body, bodyTruncated := copy.truncated }
  let capture := { capture with remainingBodyBytes := copy.remaining }
  capture.setLastExchange { exchange with response := some response }

/-- A part of an upstream's answer changes nothing but the last response, where there is one. -/
theorem appendUpstreamResponseBody_cases (capture : HttpTraceCapture) (value : List UInt8) :
    ((∀ exchange, capture.snapshot.upstreamExchanges.getLast? = some exchange →
        exchange.response = none) ∧ capture.appendUpstreamResponseBody value = capture) ∨
      ∃ exchange response, capture.snapshot.upstreamExchanges.getLast? = some exchange ∧
        exchange.response = some response ∧
        capture.appendUpstreamResponseBody value = capture.withCopy exchange response
          (appendBody { remaining := capture.remainingBodyBytes, body := response.body,
                        truncated := response.bodyTruncated } value) := by
  rw [HttpTraceCapture.appendUpstreamResponseBody]
  rcases hlast : capture.snapshot.upstreamExchanges.getLast? with - | exchange
  · exact Or.inl ⟨fun _ hsome ↦ (nomatch hsome), rfl⟩
  · dsimp only
    rcases hresponse : exchange.response with - | response
    · exact Or.inl ⟨fun _ hsome ↦ Option.some.inj hsome ▸ hresponse, rfl⟩
    · exact Or.inr ⟨exchange, response, rfl, hresponse, rfl⟩

theorem Bounded.captureUpstreamResponseHead (h : capture.Bounded) (status : ℕ)
    (headers : List (String × String)) :
    (capture.captureUpstreamResponseHead status headers).Bounded := by
  rw [HttpTraceCapture.captureUpstreamResponseHead]
  rcases hlast : capture.snapshot.upstreamExchanges.getLast? with - | exchange
  · exact h
  · have hbefore := @bodies_setLastExchange capture exchange
    rw [setLastExchange_self hlast] at hbefore
    refine h.replace _ _ [[]] _ hbefore (bodies_setLastExchange _) ?_ ?_
    · intro body hbody
      rw [List.mem_singleton.mp hbody]
      exact Nat.zero_le _
    · exact Nat.add_le_add_right (Nat.zero_le _) _

theorem Bounded.appendUpstreamResponseBody (h : capture.Bounded) (value : List UInt8) :
    (capture.appendUpstreamResponseBody value).Bounded := by
  rcases capture.appendUpstreamResponseBody_cases value with
    ⟨-, hsame⟩ | ⟨exchange, response, hlast, hresponse, hcopied⟩
  · rwa [hsame]
  · have hbefore := @bodies_setLastExchange capture exchange
    rw [setLastExchange_self hlast, hresponse] at hbefore
    rw [hcopied]
    exact h.copied _ _ _ rfl (Or.inr rfl) hbefore (bodies_setLastExchange _) rfl

theorem Bounded.captureAgentResponseHead (h : capture.Bounded) (status : ℕ) (streaming : Bool) :
    (capture.captureAgentResponseHead status streaming).Bounded := by
  refine h.replace _ _ [[]] [] (List.append_nil _).symm (List.append_nil _).symm ?_ ?_
  · intro body hbody
    rw [List.mem_singleton.mp hbody]
    exact Nat.zero_le _
  · exact Nat.add_le_add_right (Nat.zero_le _) _

theorem Bounded.appendAgentResponseBody (h : capture.Bounded) (value : List Char) :
    (capture.appendAgentResponseBody value).Bounded := by
  rw [HttpTraceCapture.appendAgentResponseBody]
  rcases hresponse : capture.snapshot.agentResponse with - | response
  · exact h
  · refine h.copied _ [response.body] [] rfl (Or.inr rfl) ?_ (List.append_nil _).symm rfl
    rw [HttpTraceSnapshot.bodies, hresponse]
    exact (List.append_nil _).symm

theorem Bounded.record (h : capture.Bounded) (jsonWrites : JsonValue → List (List UInt8))
    (call : TraceCall) : (capture.record jsonWrites call).Bounded := by
  cases call with
  | captureAgentRequest => exact h.captureAgentRequest _ _ _ _
  | captureUpstreamRequest => exact h.captureUpstreamRequest _ _ _ _
  | captureUpstreamResponseHead => exact h.captureUpstreamResponseHead _ _
  | appendUpstreamResponseBody => exact h.appendUpstreamResponseBody _
  | captureAgentResponseHead => exact h.captureAgentResponseHead _ _
  | appendAgentResponseBody => exact h.appendAgentResponseBody _

end HttpTraceCapture

end TokenStation
