import TokenStation.Protocol.Error

/-!
# Server-sent event framing

Socket reads cut a stream anywhere, and a frame ends at a blank line. The decoder keeps the bytes
after the last complete frame and hands on each frame as text with its line ends made uniform.
-/

namespace TokenStation

namespace Sse

def maxFrameBytes : ℕ := 1024 * 1024

/-- The first place where `pattern` stands in the bytes. -/
def position (pattern : List UInt8) : List UInt8 → Option ℕ
  | [] => none
  | byte :: rest =>
    if pattern.isPrefixOf (byte :: rest) then some 0 else (position pattern rest).map (· + 1)

/-- Where the first frame ends, and the length of the blank line that ends it. -/
def frameBoundary (bytes : List UInt8) : Option (ℕ × ℕ) :=
  match position [10, 10] bytes, position [13, 10, 13, 10] bytes with
  | some left, some right => if left ≤ right then some (left, 2) else some (right, 4)
  | none, some right => some (right, 4)
  | some left, none => some (left, 2)
  | none, none => none

def frameTooLarge : ErrorEnvelope :=
  ErrorEnvelope.new .providerProtocolError 502 "upstream SSE frame exceeds the local framing limit"

/-- `frame.replace("\r\n", "\n")`. -/
def replaceCrlf : List Char → List Char
  | '\r' :: '\n' :: rest => '\n' :: replaceCrlf rest
  | c :: rest => c :: replaceCrlf rest
  | [] => []

theorem position_le {pattern bytes : List UInt8} {i : ℕ} (h : position pattern bytes = some i) :
    i + pattern.length ≤ bytes.length := by
  induction bytes generalizing i with
  | nil => nomatch h
  | cons byte rest ih =>
    rw [position] at h
    split at h
    next hprefix =>
      obtain rfl := Option.some.inj h
      rw [Nat.zero_add]
      exact (List.isPrefixOf_iff_prefix.mp hprefix).length_le
    next =>
      obtain ⟨j, hj, rfl⟩ := Option.map_eq_some_iff.mp h
      have hle := ih hj
      rw [List.length_cons]
      omega

theorem frameBoundary_le {bytes : List UInt8} {stop separator : ℕ}
    (h : frameBoundary bytes = some (stop, separator)) :
    0 < separator ∧ stop + separator ≤ bytes.length := by
  rw [frameBoundary] at h
  split at h
  next left right hleft hright =>
    have hl := position_le hleft
    have hr := position_le hright
    split at h <;> simp only [Option.some.injEq, Prod.mk.injEq] at h <;> obtain ⟨rfl, rfl⟩ := h
    · exact ⟨by decide, hl⟩
    · exact ⟨by decide, hr⟩
  next right _ hright =>
    have hr := position_le hright
    simp only [Option.some.injEq, Prod.mk.injEq] at h
    obtain ⟨rfl, rfl⟩ := h
    exact ⟨by decide, hr⟩
  next left hleft _ =>
    have hl := position_le hleft
    simp only [Option.some.injEq, Prod.mk.injEq] at h
    obtain ⟨rfl, rfl⟩ := h
    exact ⟨by decide, hl⟩
  next => nomatch h

/-- Cut the complete frames off, up to the first one that is too large or not text. -/
def drainFrames (tail : List UInt8) : Except ErrorEnvelope (List String × List UInt8) :=
  match _h : frameBoundary tail with
  | none => .ok ([], tail)
  | some (stop, separator) =>
    let raw := tail.take stop
    let rest := tail.drop (stop + separator)
    if raw.isEmpty then drainFrames rest
    else if raw.length > maxFrameBytes then .error frameTooLarge
    else
      match String.fromUTF8? ⟨raw.toArray⟩ with
      | none =>
        .error (ErrorEnvelope.new .providerProtocolError 502
          "upstream SSE frame is not valid UTF-8")
      | some frame =>
        match drainFrames rest with
        | .error error => .error error
        | .ok (frames, tail) =>
          .ok ((String.ofList (replaceCrlf frame.toList) ++ "\n\n") :: frames, tail)
termination_by tail.length
decreasing_by
  all_goals
    obtain ⟨hpos, hle⟩ := frameBoundary_le _h
    rw [List.length_drop]
    omega

end Sse

/-- The bytes after the last complete frame. -/
structure SseFrameDecoder where
  tail : List UInt8 := []

namespace SseFrameDecoder

/-- Feed one read and take the frames it completes. -/
def push (decoder : SseFrameDecoder) (bytes : List UInt8) :
    Except ErrorEnvelope (List String × SseFrameDecoder) :=
  match Sse.drainFrames (decoder.tail ++ bytes) with
  | .error error => .error error
  | .ok (frames, tail) =>
    if tail.length > Sse.maxFrameBytes then .error Sse.frameTooLarge else .ok (frames, ⟨tail⟩)

/-- At the end of the stream, only blanks may be left over. -/
def finish (decoder : SseFrameDecoder) : Except ErrorEnvelope Unit :=
  if decoder.tail.all fun byte ↦ byte == 32 || byte == 9 || byte == 13 || byte == 10 then .ok ()
  else
    .error (ErrorEnvelope.new .transportTruncated 502
      "upstream SSE connection closed with an incomplete frame")

end SseFrameDecoder

end TokenStation
