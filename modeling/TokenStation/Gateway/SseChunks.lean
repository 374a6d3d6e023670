import TokenStation.Gateway.Sse
import TokenStation.Library.Framing

/-!
# Where the socket cuts an event stream

The decoder of the gateway is an incremental reader: its boundary stays where it is when more bytes
arrive, whichever of the two separators comes first. What a run delivers can still depend on the
reads, because a read that ends in an error delivers nothing, and because a frame of nearly the
maximal size is measured with a part of its separator when a read ends there.
`receive_eq_iff` says for which streams it does not.
-/

namespace TokenStation

open Library

namespace Sse

/-! ## The frame boundary under more bytes -/

theorem position_spec {pattern bytes : List UInt8} {i : ℕ} (h : position pattern bytes = some i) :
    pattern <+: bytes.drop i := by
  induction bytes generalizing i with
  | nil => nomatch h
  | cons byte rest ih =>
    rw [position] at h
    split at h
    next hprefix =>
      obtain rfl := Option.some.inj h
      exact List.isPrefixOf_iff_prefix.mp hprefix
    next =>
      obtain ⟨j, hj, rfl⟩ := Option.map_eq_some_iff.mp h
      exact ih hj

theorem position_append {pattern bytes : List UInt8} {i : ℕ} (more : List UInt8)
    (h : position pattern bytes = some i) : position pattern (bytes ++ more) = some i := by
  induction bytes generalizing i with
  | nil => nomatch h
  | cons byte rest ih =>
    rw [position] at h
    rw [List.cons_append, position]
    have hle : pattern.isPrefixOf (byte :: rest) →
        pattern.isPrefixOf (byte :: (rest ++ more)) := by
      intro hprefix
      have hpre := List.isPrefixOf_iff_prefix.mp hprefix
      exact List.isPrefixOf_iff_prefix.mpr (hpre.trans (List.prefix_append _ more))
    split at h
    next hprefix => rw [if_pos (hle hprefix), ← h]
    next hnot =>
      obtain ⟨j, hj, rfl⟩ := Option.map_eq_some_iff.mp h
      have hfit := position_le hj
      have hnot' : ¬ pattern.isPrefixOf (byte :: (rest ++ more)) := by
        intro hprefix
        apply hnot
        have hpre := List.isPrefixOf_iff_prefix.mp hprefix
        apply List.isPrefixOf_iff_prefix.mpr
        apply List.prefix_of_prefix_length_le hpre (List.prefix_append (byte :: rest) more)
        rw [List.length_cons]
        omega
      rw [if_neg hnot', ih hj]
      rfl

theorem position_prompt {pattern bytes more : List UInt8} {i : ℕ}
    (h : position pattern (bytes ++ more) = some i) (hfit : i + pattern.length ≤ bytes.length)
    (hpattern : pattern ≠ []) : position pattern bytes = some i := by
  induction bytes generalizing i with
  | nil =>
    rw [List.length_nil] at hfit
    exact absurd (List.length_eq_zero_iff.mp (by omega)) hpattern
  | cons byte rest ih =>
    rw [List.cons_append, position] at h
    rw [position]
    split at h
    next hprefix =>
      obtain rfl := Option.some.inj h
      have hpre := List.isPrefixOf_iff_prefix.mp hprefix
      have hpre' : pattern <+: byte :: rest :=
        List.prefix_of_prefix_length_le hpre (List.prefix_append (byte :: rest) more) (by omega)
      rw [if_pos (List.isPrefixOf_iff_prefix.mpr hpre')]
    next hnot =>
      obtain ⟨j, hj, rfl⟩ := Option.map_eq_some_iff.mp h
      have hnot' : ¬ pattern.isPrefixOf (byte :: rest) := by
        intro hprefix
        apply hnot
        have hpre := List.isPrefixOf_iff_prefix.mp hprefix
        exact List.isPrefixOf_iff_prefix.mpr
          (hpre.trans (List.prefix_append (byte :: rest) more))
      rw [List.length_cons] at hfit
      rw [if_neg hnot', ih hj (by omega)]
      rfl

/-- The two separators cannot overlap so that the one that starts first ends last. -/
theorem not_overlap {bytes : List UInt8} {left right : ℕ}
    (hleft : position [10, 10] bytes = some left)
    (hright : position [13, 10, 13, 10] bytes = some right) : left ≠ right + 1 := by
  rintro rfl
  obtain ⟨u, hu⟩ := position_spec hleft
  obtain ⟨v, hv⟩ := position_spec hright
  have hdrop : bytes.drop (right + 1) = [10, 13, 10] ++ v := by
    rw [← List.drop_drop, ← hv]
    rfl
  rw [hdrop] at hu
  nomatch hu

theorem frameBoundary_append {bytes : List UInt8} {p : ℕ × ℕ} (more : List UInt8)
    (h : frameBoundary bytes = some p) : frameBoundary (bytes ++ more) = some p := by
  rw [frameBoundary] at h ⊢
  rcases hleft : position [10, 10] bytes with - | left <;>
    rcases hright : position [13, 10, 13, 10] bytes with - | right
  · rw [hleft, hright] at h
    cases h
  · -- a line feed pair can only appear after the separator that is there
    rw [hleft, hright] at h
    rw [position_append more hright]
    rcases hleft' : position [10, 10] (bytes ++ more) with - | left'
    · exact h
    · have hlate : ¬ left' + 2 ≤ bytes.length := fun hfit ↦ by
        rw [position_prompt hleft' hfit (by decide)] at hleft
        cases hleft
      have hin := position_le hright
      simp only [List.length_cons, List.length_nil] at hin
      simp only [if_neg (show ¬ left' ≤ right by omega)]
      exact h
  · -- likewise for a pair of carriage return and line feed, as the two do not overlap
    rw [hleft, hright] at h
    rw [position_append more hleft]
    rcases hright' : position [13, 10, 13, 10] (bytes ++ more) with - | right'
    · exact h
    · have hlate : ¬ right' + 4 ≤ bytes.length := fun hfit ↦ by
        rw [position_prompt hright' hfit (by decide)] at hright
        cases hright
      have hin := position_le hleft
      simp only [List.length_cons, List.length_nil] at hin
      have hne := not_overlap (position_append more hleft) hright'
      simp only [if_pos (show left ≤ right' by omega)]
      exact h
  · rw [hleft, hright] at h
    rw [position_append more hleft, position_append more hright]
    exact h

theorem frameBoundary_prompt {bytes more : List UInt8} {stop separator : ℕ}
    (h : frameBoundary (bytes ++ more) = some (stop, separator))
    (hfit : stop + separator ≤ bytes.length) : frameBoundary bytes = some (stop, separator) := by
  rcases hbytes : frameBoundary bytes with - | p
  · -- the separator is there, so one of the two searches finds it
    rw [frameBoundary] at h hbytes
    rcases hleft : position [10, 10] bytes with - | left
    · rcases hright : position [13, 10, 13, 10] bytes with - | right
      · rcases hleft' : position [10, 10] (bytes ++ more) with - | left' <;>
          rcases hright' : position [13, 10, 13, 10] (bytes ++ more) with - | right' <;>
          simp only [hleft', hright'] at h
        · cases h
        · obtain ⟨rfl, rfl⟩ := Prod.mk.inj (Option.some.inj h)
          rw [position_prompt hright' hfit (by decide)] at hright
          cases hright
        · obtain ⟨rfl, rfl⟩ := Prod.mk.inj (Option.some.inj h)
          rw [position_prompt hleft' hfit (by decide)] at hleft
          cases hleft
        · split at h <;> obtain ⟨rfl, rfl⟩ := Prod.mk.inj (Option.some.inj h)
          · rw [position_prompt hleft' hfit (by decide)] at hleft
            cases hleft
          · rw [position_prompt hright' hfit (by decide)] at hright
            cases hright
      · rw [hleft, hright] at hbytes
        cases hbytes
    · rcases hright : position [13, 10, 13, 10] bytes with - | right <;>
        simp only [hleft, hright] at hbytes
      · cases hbytes
      · split at hbytes <;> cases hbytes
  · rw [← h, ← frameBoundary_append more hbytes]

theorem separator_of_frameBoundary {bytes : List UInt8} {stop separator : ℕ}
    (h : frameBoundary bytes = some (stop, separator)) : separator = 2 ∨ separator = 4 := by
  rw [frameBoundary] at h
  split at h
  · split at h <;> obtain ⟨-, rfl⟩ := Prod.mk.inj (Option.some.inj h)
    · exact Or.inl rfl
    · exact Or.inr rfl
  · exact Or.inr (Prod.mk.inj (Option.some.inj h)).2.symm
  · exact Or.inl (Prod.mk.inj (Option.some.inj h)).2.symm
  · cases h

/-! ## The decoder as an incremental reader -/

def cutter : Cutter UInt8 where
  boundary := frameBoundary
  bounded := frameBoundary_le
  stable more h := frameBoundary_append more h
  prompt := frameBoundary_prompt

def invalidUtf8 : ErrorEnvelope :=
  ErrorEnvelope.new .providerProtocolError 502 "upstream SSE frame is not valid UTF-8"

/-- What one complete frame is turned into. -/
def judge (raw : List UInt8) : Except ErrorEnvelope (List String) :=
  if raw.isEmpty then .ok []
  else if raw.length > maxFrameBytes then .error frameTooLarge
  else
    match String.fromUTF8? ⟨raw.toArray⟩ with
    | none => .error invalidUtf8
    | some frame => .ok [String.ofList (replaceCrlf frame.toList) ++ "\n\n"]

theorem judge_ok_nil {raw : List UInt8} (h : judge raw = .ok []) : raw = [] := by
  rw [judge] at h
  by_cases hempty : raw.isEmpty
  · exact List.isEmpty_iff.mp hempty
  · rw [if_neg hempty] at h
    split at h
    · cases h
    · split at h
      · cases h
      · cases h

theorem judge_tooLong {raw : List UInt8} :
    judge raw = .error frameTooLarge ↔ maxFrameBytes < raw.length := by
  constructor
  · intro h
    by_contra hshort
    rw [judge, if_neg hshort] at h
    split at h
    · cases h
    · split at h
      · have hmessage := congrArg ErrorEnvelope.message (Except.error.inj h)
        exact absurd hmessage (by decide)
      · cases h
  · intro hlong
    have hne : ¬ raw.isEmpty := by
      intro hempty
      rw [List.isEmpty_iff.mp hempty, List.length_nil] at hlong
      omega
    rw [judge, if_neg hne, if_pos hlong]

def reader : Reader UInt8 String ErrorEnvelope where
  toCutter := cutter
  judge := judge
  limit := maxFrameBytes
  tooLong := frameTooLarge
  separator_le h := by
    have hsep := separator_of_frameBoundary h
    rw [maxFrameBytes]
    omega
  judge_nil := rfl
  judge_ok_nil := judge_ok_nil
  judge_tooLong := judge_tooLong

@[simp] theorem reader_toCutter : reader.toCutter = cutter := rfl

theorem drainFrames_eq (tail : List UInt8) :
    drainFrames tail =
      match reader.collect (cutter.frames tail).1 with
      | .error error => .error error
      | .ok frames => .ok (frames, (cutter.frames tail).2) := by
  induction tail using cutter.frames_induction with
  | unfinished tail h =>
    rw [cutter.frames_of_none h, drainFrames]
    split
    next => rfl
    next h' => rw [show frameBoundary tail = none from h] at h'; cases h'
  | frame tail stop separator h ih =>
    rw [cutter.frames_of_some h, drainFrames]
    split
    next h' => rw [show frameBoundary tail = some _ from h] at h'; cases h'
    next stop' separator' h' =>
      obtain ⟨rfl, rfl⟩ :=
        Prod.mk.inj (Option.some.inj ((show frameBoundary tail = some _ from h).symm.trans h'))
      simp only [ih, Reader.collect]
      rw [show reader.judge (tail.take stop) = judge (tail.take stop) from rfl, judge]
      split
      · rcases Reader.collect _ _ with error | frames
        · rfl
        · rfl
      · split
        · rfl
        · rcases String.fromUTF8? ⟨(tail.take stop).toArray⟩ with - | frame
          · rfl
          · rcases Reader.collect _ _ with error | frames
            · rfl
            · rfl

end Sse

namespace SseFrameDecoder

/-- The reads of a stream in their order, up to the first error: the frames delivered, and the
decoder at the end. -/
def feed (decoder : SseFrameDecoder) :
    List (List UInt8) → List String × Except ErrorEnvelope SseFrameDecoder
  | [] => ([], .ok decoder)
  | bytes :: reads =>
    match decoder.push bytes with
    | .error error => ([], .error error)
    | .ok (frames, decoder) => (frames ++ (feed decoder reads).1, (feed decoder reads).2)

/-- A whole stream through a new decoder: the frames delivered and the error that stopped it, or
what `finish` says. -/
def receive (reads : List (List UInt8)) :
    List String × Except ErrorEnvelope (Except ErrorEnvelope Unit) :=
  let (frames, outcome) := feed {} reads
  (frames, outcome.map finish)

theorem push_eq (decoder : SseFrameDecoder) (bytes : List UInt8) :
    decoder.push bytes =
      match Sse.reader.push decoder.tail bytes with
      | .error error => .error error
      | .ok (frames, tail) => .ok (frames, ⟨tail⟩) := by
  rw [push, Sse.drainFrames_eq, Reader.push, Sse.reader_toCutter]
  rcases Sse.reader.collect (Sse.cutter.frames (decoder.tail ++ bytes)).1 with error | frames
  · rfl
  · by_cases hlong : Sse.maxFrameBytes < (Sse.cutter.frames (decoder.tail ++ bytes)).2.length
    · have hlong' : Sse.reader.limit < (Sse.cutter.frames (decoder.tail ++ bytes)).2.length :=
        hlong
      simp only [gt_iff_lt, if_pos hlong, if_pos hlong']
      rfl
    · have hshort : ¬ Sse.reader.limit < (Sse.cutter.frames (decoder.tail ++ bytes)).2.length :=
        hlong
      simp only [gt_iff_lt, if_neg hlong, if_neg hshort]

theorem feed_eq (decoder : SseFrameDecoder) (reads : List (List UInt8)) :
    decoder.feed reads = ((Sse.reader.run decoder.tail reads).1,
      (Sse.reader.run decoder.tail reads).2.map SseFrameDecoder.mk) := by
  induction reads generalizing decoder with
  | nil => rfl
  | cons bytes reads ih =>
    rw [feed, push_eq, Reader.run]
    rcases Sse.reader.push decoder.tail bytes with error | ⟨frames, tail⟩
    · rfl
    · simp only [ih]

theorem receive_eq (reads : List (List UInt8)) :
    receive reads = ((Sse.reader.run [] reads).1,
      (Sse.reader.run [] reads).2.map fun tail ↦ finish ⟨tail⟩) := by
  rw [receive, feed_eq]
  rcases (Sse.reader.run [] reads).2 with error | tail <;> rfl

/-! ## The streams whose reads do not matter -/

def IsUtf8 (raw : List UInt8) : Prop := (String.fromUTF8? ⟨raw.toArray⟩).isSome = true

instance (raw : List UInt8) : Decidable (IsUtf8 raw) := inferInstanceAs (Decidable (_ = true))

/-- A stream whose first frame that is not empty is refused on its own account, or is followed by
nothing that is refused and is not refused itself. A frame counts with the part of its separator
that a read may end in. -/
def ReadsAlike (bytes : List UInt8) : Prop :=
  match (Sse.cutter.frames bytes).1.dropWhile fun frame ↦ frame.raw.isEmpty with
  | [] => True
  | first :: more =>
    Sse.maxFrameBytes < first.raw.length ∨
      (first.raw.length + first.separator ≤ Sse.maxFrameBytes + 1 ∧ ¬ IsUtf8 first.raw) ∨
      ((∀ frame ∈ first :: more,
          frame.raw.length + frame.separator ≤ Sse.maxFrameBytes + 1 ∧ IsUtf8 frame.raw) ∧
        (Sse.cutter.frames bytes).2.length ≤ Sse.maxFrameBytes)

theorem isUtf8_nil : IsUtf8 [] := by
  decide

theorem judge_ok_iff {raw : List UInt8} (hshort : raw.length ≤ Sse.maxFrameBytes) :
    (∃ frames, Sse.judge raw = .ok frames) ↔ IsUtf8 raw := by
  by_cases hempty : raw.isEmpty
  · rw [List.isEmpty_iff.mp hempty]
    exact ⟨fun _ ↦ isUtf8_nil, fun _ ↦ ⟨[], rfl⟩⟩
  · rw [Sse.judge, if_neg hempty, if_neg (show ¬ raw.length > Sse.maxFrameBytes by omega), IsUtf8]
    rcases String.fromUTF8? ⟨raw.toArray⟩ with - | frame
    · exact ⟨fun ⟨_, h⟩ ↦ (nomatch h), fun h ↦ (nomatch h)⟩
    · exact ⟨fun _ ↦ rfl, fun _ ↦ ⟨_, rfl⟩⟩

theorem taken_iff {frame : Frame UInt8} (hsep : 0 < frame.separator) :
    Sse.reader.Taken frame ↔
      frame.raw.length + frame.separator ≤ Sse.maxFrameBytes + 1 ∧ IsUtf8 frame.raw := by
  refine and_congr_right fun hle ↦ ?_
  have hshort : frame.raw.length ≤ Sse.maxFrameBytes := by
    have hle : frame.raw.length + frame.separator ≤ Sse.maxFrameBytes + 1 := hle
    omega
  exact judge_ok_iff hshort

theorem refused_iff {frame : Frame UInt8} (hsep : 0 < frame.separator) :
    Sse.reader.Refused frame ↔ Sse.maxFrameBytes < frame.raw.length ∨
      (frame.raw.length + frame.separator ≤ Sse.maxFrameBytes + 1 ∧ ¬ IsUtf8 frame.raw) := by
  refine or_congr_right (and_congr_right fun hle ↦ ?_)
  have hshort : frame.raw.length ≤ Sse.maxFrameBytes := by
    have hle : frame.raw.length + frame.separator ≤ Sse.maxFrameBytes + 1 := hle
    omega
  rw [← judge_ok_iff hshort]
  rcases hjudge : Sse.judge frame.raw with error | frames
  · exact ⟨fun _ ⟨_, h⟩ ↦ (nomatch h), fun _ ↦ ⟨error, hjudge⟩⟩
  · refine ⟨fun ⟨error, h⟩ ↦ ?_, fun h ↦ (h ⟨frames, rfl⟩).elim⟩
    have h : Sse.judge frame.raw = .error error := h
    rw [hjudge] at h
    nomatch h

theorem separator_pos {bytes : List UInt8} {frame : Frame UInt8}
    (h : frame ∈ (Sse.cutter.frames bytes).1) : 0 < frame.separator := by
  induction bytes using Sse.cutter.frames_induction with
  | unfinished bytes hb => rw [Sse.cutter.frames_of_none hb] at h; nomatch h
  | frame bytes stop separator hb ih =>
    rw [Sse.cutter.frames_of_some hb] at h
    rcases List.mem_cons.mp h with rfl | h
    · exact (Sse.cutter.bounded hb).1
    · exact ih h

theorem uniform_iff {frames : List (Frame UInt8)} {rest : List UInt8}
    (hsep : ∀ frame ∈ frames, 0 < frame.separator) :
    Sse.reader.Uniform frames rest ↔
      match frames.dropWhile fun frame ↦ frame.raw.isEmpty with
      | [] => True
      | first :: more =>
        Sse.maxFrameBytes < first.raw.length ∨
          (first.raw.length + first.separator ≤ Sse.maxFrameBytes + 1 ∧ ¬ IsUtf8 first.raw) ∨
          ((∀ frame ∈ first :: more,
              frame.raw.length + frame.separator ≤ Sse.maxFrameBytes + 1 ∧ IsUtf8 frame.raw) ∧
            rest.length ≤ Sse.maxFrameBytes) := by
  induction frames with
  | nil => exact Iff.rfl
  | cons frame frames ih =>
    have hhere := hsep frame List.mem_cons_self
    have hmore : ∀ later ∈ frames, 0 < later.separator :=
      fun later hlater ↦ hsep later (List.mem_cons_of_mem _ hlater)
    rw [Reader.Uniform]
    by_cases hempty : frame.raw.isEmpty
    · have hnil := List.isEmpty_iff.mp hempty
      rw [List.dropWhile_cons, if_pos hempty, ← ih hmore]
      simp only [hnil, true_and, ne_eq, not_true_eq_false, false_and, or_false]
    · have hfull : frame.raw ≠ [] := fun h ↦ hempty (List.isEmpty_iff.mpr h)
      have hlater : (∀ later ∈ frames, Sse.reader.Taken later) ↔ ∀ later ∈ frames,
          later.raw.length + later.separator ≤ Sse.maxFrameBytes + 1 ∧ IsUtf8 later.raw :=
        forall₂_congr fun later hlater ↦ taken_iff (hmore later hlater)
      rw [List.dropWhile_cons, if_neg hempty]
      simp only [hfull, false_and, false_or, ne_eq, not_false_eq_true, true_and,
        refused_iff hhere, taken_iff hhere, hlater, List.forall_mem_cons, and_assoc, or_assoc]
      exact Iff.rfl

/-- What is delivered, and how it ends, is the same for all ways to cut a stream into reads
exactly when `ReadsAlike` holds of it. -/
theorem receive_eq_iff (bytes : List UInt8) :
    (∀ reads reads' : List (List UInt8), reads.flatten = bytes → reads'.flatten = bytes →
      receive reads = receive reads') ↔ ReadsAlike bytes := by
  have hiff : Sse.reader.Uniform (Sse.cutter.frames bytes).1 (Sse.cutter.frames bytes).2 ↔
      ReadsAlike bytes := uniform_iff fun frame ↦ separator_pos
  rw [← hiff]
  constructor
  · intro halike
    by_contra hnot
    obtain ⟨reads, reads', hreads, hreads', hdiffer⟩ := Reader.exists_run_ne hnot
    have heq := halike reads reads' hreads hreads'
    rw [receive_eq, receive_eq] at heq
    obtain ⟨hframes, houtcome⟩ := Prod.mk.inj heq
    rcases hdiffer with hne | ⟨error, error', he, he', hne⟩
    · exact hne hframes
    · rw [he, he'] at houtcome
      exact hne (Except.error.inj houtcome)
  · intro huniform reads reads' hreads hreads'
    have hverdict : ∀ pieces : List (List UInt8), pieces.flatten = bytes →
        Sse.reader.run [] pieces = Sse.reader.verdict (Sse.cutter.frames bytes).1
          (Sse.cutter.frames bytes).2 := by
      intro pieces hpieces
      rw [← hpieces] at huniform ⊢
      exact Reader.run_eq_verdict (R := Sse.reader) Sse.reader.boundary_nil
        (Nat.zero_le _) huniform
    rw [receive_eq, receive_eq, hverdict reads hreads, hverdict reads' hreads']

/-- A frame and then one that is not text, `data: 1` and a byte no encoding starts with: in one
read the error takes the frame back. -/
theorem receive_ne_goodThenBad : ¬ ∀ reads reads' : List (List UInt8),
    reads.flatten = [100, 97, 116, 97, 58, 32, 49, 10, 10, 255, 10, 10] →
      reads'.flatten = [100, 97, 116, 97, 58, 32, 49, 10, 10, 255, 10, 10] →
        receive reads = receive reads' := by
  intro halike
  have heq := halike [[100, 97, 116, 97, 58, 32, 49, 10, 10], [255, 10, 10]]
    [[100, 97, 116, 97, 58, 32, 49, 10, 10, 255, 10, 10]] rfl rfl
  have hgood : Sse.cutter.frames [100, 97, 116, 97, 58, 32, 49, 10, 10] =
      ([⟨[100, 97, 116, 97, 58, 32, 49], 2⟩], []) := by
    have hat : Sse.cutter.boundary [100, 97, 116, 97, 58, 32, 49, 10, 10] = some (7, 2) := by
      decide
    rw [Sse.cutter.frames_of_some hat]
    simp [Sse.cutter.frames_of_none Sse.cutter.boundary_nil]
  have hboth : Sse.cutter.frames [100, 97, 116, 97, 58, 32, 49, 10, 10, 255, 10, 10] =
      ([⟨[100, 97, 116, 97, 58, 32, 49], 2⟩, ⟨[255], 2⟩], []) := by
    have hat : Sse.cutter.boundary [255, 10, 10] = some (1, 2) := by decide
    have happend := Sse.cutter.frames_append [100, 97, 116, 97, 58, 32, 49, 10, 10] [255, 10, 10]
    rw [hgood, List.nil_append, Sse.cutter.frames_of_some hat] at happend
    simpa [Sse.cutter.frames_of_none Sse.cutter.boundary_nil] using happend
  have htaken : Sse.reader.Taken ⟨[100, 97, 116, 97, 58, 32, 49], 2⟩ :=
    (taken_iff (by decide)).mpr (by decide)
  have hrefused : Sse.reader.Refused ⟨[255], 2⟩ := (refused_iff (by decide)).mpr (by decide)
  obtain ⟨delivered, hdelivered⟩ := Reader.collect_of_taken (R := Sse.reader)
    (List.forall_mem_singleton.mpr htaken)
  obtain ⟨error, herror⟩ := Reader.refused_judge hrefused
  have hall : Sse.reader.collect [⟨[100, 97, 116, 97, 58, 32, 49], 2⟩, ⟨[255], 2⟩] =
      .error error := by
    have happend :
        Sse.reader.collect ([⟨[100, 97, 116, 97, 58, 32, 49], 2⟩] ++ [⟨[255], 2⟩]) = _ :=
      Reader.collect_append hdelivered
    have hbad : Sse.reader.collect [⟨[255], 2⟩] = .error error := by
      simp only [Reader.collect, herror]
    rw [hbad] at happend
    exact happend
  rw [receive_eq, receive_eq, Reader.run_cons_of_complete hgood hdelivered,
    Reader.run_cons_of_refused hboth hall] at heq
  have hnil := (List.append_eq_nil_iff.mp (Prod.mk.inj heq).1).1
  exact Reader.collect_ne_nil hdelivered ⟨_, List.mem_cons_self, by decide⟩ hnil

end SseFrameDecoder

end TokenStation
