import Mathlib.Data.List.Basic
import Mathlib.Tactic.Common

/-!
# Incremental framing

A reader that gets a byte stream in pieces keeps what follows the last complete frame, cuts the
frames off as they are completed, judges each of them and refuses an unfinished frame that grows
past a limit. `Cutter` says what a frame boundary must satisfy for the frames not to depend on the
pieces, and `Reader.run_eq_verdict` and `Reader.exists_run_ne` say on which streams the whole
reader, with its refusals, does not depend on them either.

## Where pieces can matter

A piece that ends in a refusal hands out nothing, not even the frames completed in it. So a refusal
after a frame that was worth handing out always depends on the pieces, and so does a frame that is
within the limit while frame and separator together, less one, are not: the unfinished frame is
refused when a piece ends inside the separator, and taken when none does.
-/

namespace Library

variable {α β ε : Type*}

/-- Where the first frame ends and how long its separator is. A boundary stays where it is when
more arrives, and is seen as soon as its separator is complete. -/
structure Cutter (α : Type*) where
  boundary : List α → Option (ℕ × ℕ)
  bounded : ∀ {b i n}, boundary b = some (i, n) → 0 < n ∧ i + n ≤ b.length
  stable : ∀ {b p} c, boundary b = some p → boundary (b ++ c) = some p
  prompt : ∀ {b c i n}, boundary (b ++ c) = some (i, n) → i + n ≤ b.length →
    boundary b = some (i, n)

/-- A complete frame with the length of the separator after it. -/
structure Frame (α : Type*) where
  raw : List α
  separator : ℕ
  deriving DecidableEq

namespace Cutter

variable (K : Cutter α)

/-- The complete frames of a stream, and what follows the last of them. -/
def frames (b : List α) : List (Frame α) × List α :=
  match _h : K.boundary b with
  | none => ([], b)
  | some (i, n) =>
    let (more, rest) := frames (b.drop (i + n))
    (⟨b.take i, n⟩ :: more, rest)
termination_by b.length
decreasing_by
  obtain ⟨hpos, hle⟩ := K.bounded _h
  rw [List.length_drop]
  omega

@[simp] theorem boundary_nil : K.boundary [] = none := by
  rcases h : K.boundary [] with - | ⟨i, n⟩
  · rfl
  · have hle := K.bounded h
    rw [List.length_nil] at hle
    omega

theorem frames_of_none {b : List α} (h : K.boundary b = none) : K.frames b = ([], b) := by
  rw [frames]
  split
  next => rfl
  next h' => rw [h] at h'; nomatch h'

theorem frames_of_some {b : List α} {i n : ℕ} (h : K.boundary b = some (i, n)) :
    K.frames b = (⟨b.take i, n⟩ :: (K.frames (b.drop (i + n))).1,
      (K.frames (b.drop (i + n))).2) := by
  rw [frames]
  split
  next h' => rw [h] at h'; nomatch h'
  next i' n' h' =>
    obtain ⟨rfl, rfl⟩ := Prod.mk.inj (Option.some.inj (h.symm.trans h'))
    rfl

/-- Induction along the frames of a stream. -/
theorem frames_induction {motive : List α → Prop}
    (unfinished : ∀ b, K.boundary b = none → motive b)
    (frame : ∀ b i n, K.boundary b = some (i, n) → motive (b.drop (i + n)) → motive b)
    (b : List α) : motive b := by
  induction hlen : b.length using Nat.strongRecOn generalizing b with
  | _ m ih =>
    rcases hb : K.boundary b with - | ⟨i, n⟩
    · exact unfinished b hb
    · obtain ⟨hpos, hle⟩ := K.bounded hb
      apply frame b i n hb
      apply ih (b.drop (i + n)).length _ _ rfl
      rw [List.length_drop]
      omega

@[simp] theorem boundary_rest (b : List α) : K.boundary (K.frames b).2 = none := by
  induction b using K.frames_induction with
  | unfinished b hb => rw [K.frames_of_none hb]; exact hb
  | frame b i n hb ih => rw [K.frames_of_some hb]; exact ih

theorem frames_rest_suffix (b : List α) : (K.frames b).2 <:+ b := by
  induction b using K.frames_induction with
  | unfinished b hb => exact K.frames_of_none hb ▸ List.suffix_refl b
  | frame b i n hb ih =>
    rw [K.frames_of_some hb]
    exact ih.trans (List.drop_suffix (i + n) b)

/-- The frames do not depend on the pieces: what was left over is read on with the next piece. -/
theorem frames_append (b c : List α) :
    K.frames (b ++ c) = ((K.frames b).1 ++ (K.frames ((K.frames b).2 ++ c)).1,
      (K.frames ((K.frames b).2 ++ c)).2) := by
  induction b using K.frames_induction with
  | unfinished b hb => rw [K.frames_of_none hb, List.nil_append]
  | frame b i n hb ih =>
    have hle := (K.bounded hb).2
    rw [K.frames_of_some (K.stable c hb), List.drop_append_of_le_length hle,
      List.take_append_of_le_length (by omega), K.frames_of_some hb, ih, List.cons_append]

/-- A frame that the next piece completes is longer, with its separator, than what was left
over. -/
theorem lt_of_unfinished {b c : List α} {s : Frame α} {more : List (Frame α)}
    (hb : K.boundary b = none) (h : (K.frames (b ++ c)).1 = s :: more) :
    b.length < s.raw.length + s.separator := by
  rcases hbc : K.boundary (b ++ c) with - | ⟨i, n⟩
  · rw [K.frames_of_none hbc] at h
    nomatch h
  · rw [K.frames_of_some hbc] at h
    obtain ⟨rfl, -⟩ := List.cons.inj h
    have hle := (K.bounded hbc).2
    have hlt : ¬ i + n ≤ b.length := fun hin ↦ by
      rw [K.prompt hbc hin] at hb
      nomatch hb
    rw [List.length_take]
    simp only
    omega

/-- A stream can be cut after any of its frames. -/
theorem exists_cut {b : List α} {before after : List (Frame α)}
    (h : (K.frames b).1 = before ++ after) :
    ∃ c d, b = c ++ d ∧ K.frames c = (before, []) ∧ (K.frames d).1 = after := by
  induction b using K.frames_induction generalizing before with
  | unfinished b hb =>
    rw [K.frames_of_none hb] at h
    obtain ⟨rfl, rfl⟩ := List.append_eq_nil_iff.mp h.symm
    exact ⟨[], b, rfl, K.frames_of_none K.boundary_nil, by rw [K.frames_of_none hb]⟩
  | frame b i n hb ih =>
    have hle := (K.bounded hb).2
    rcases before with - | ⟨s, before⟩
    · exact ⟨[], b, rfl, K.frames_of_none K.boundary_nil, h⟩
    · rw [K.frames_of_some hb, List.cons_append] at h
      obtain ⟨rfl, hmore⟩ := List.cons.inj h
      obtain ⟨c, d, hcd, hc, hd⟩ := ih hmore
      have hlen : (b.take (i + n)).length = i + n := by
        rw [List.length_take]
        omega
      have htake : K.boundary (b.take (i + n)) = some (i, n) := by
        apply K.prompt (c := b.drop (i + n))
        · rw [List.take_append_drop]
          exact hb
        · exact Nat.le_of_eq hlen.symm
      refine ⟨b.take (i + n) ++ c, d, ?_, ?_, hd⟩
      · rw [List.append_assoc, ← hcd, List.take_append_drop]
      · rw [K.frames_of_some (K.stable c htake), List.drop_append_of_le_length (by omega),
          List.drop_of_length_le (by omega), List.nil_append, hc, List.take_append_of_le_length
            (by omega), List.take_take, Nat.min_eq_left (by omega)]

/-- Short of the last byte of its separator, a frame is not complete. -/
theorem boundary_take_pred {b : List α} {i n : ℕ} (h : K.boundary b = some (i, n)) :
    K.boundary (b.take (i + n - 1)) = none := by
  rcases htake : K.boundary (b.take (i + n - 1)) with - | p
  · rfl
  · have hb := K.stable (b.drop (i + n - 1)) htake
    rw [List.take_append_drop, h] at hb
    have hle := K.bounded (htake.trans hb.symm)
    rw [List.length_take] at hle
    omega

end Cutter

/-- A cutter with a judgement on each complete frame and a limit on unfinished ones. A frame past
the limit is refused like an unfinished one, an empty frame is skipped, and every other frame that
passes hands something out. -/
structure Reader (α β ε : Type*) extends Cutter α where
  judge : List α → Except ε (List β)
  limit : ℕ
  tooLong : ε
  separator_le : ∀ {b i n}, boundary b = some (i, n) → n ≤ limit + 1
  judge_nil : judge [] = .ok []
  judge_ok_nil : ∀ {raw}, judge raw = .ok [] → raw = []
  judge_tooLong : ∀ {raw}, judge raw = .error tooLong ↔ limit < raw.length

namespace Reader

variable (R : Reader α β ε)

/-- What complete frames hand out, up to the first refusal, which takes it all back. -/
def collect : List (Frame α) → Except ε (List β)
  | [] => .ok []
  | s :: more =>
    match R.judge s.raw with
    | .error e => .error e
    | .ok xs =>
      match collect more with
      | .error e => .error e
      | .ok ys => .ok (xs ++ ys)

/-- One piece of the stream, after `pending`. -/
def push (pending piece : List α) : Except ε (List β × List α) :=
  match R.collect (R.frames (pending ++ piece)).1 with
  | .error e => .error e
  | .ok xs =>
    if R.limit < (R.frames (pending ++ piece)).2.length then .error R.tooLong
    else .ok (xs, (R.frames (pending ++ piece)).2)

/-- The pieces of a stream in their order, up to the first refusal: what was handed out, and what
is pending at the end. -/
def run (pending : List α) : List (List α) → List β × Except ε (List α)
  | [] => ([], .ok pending)
  | piece :: pieces =>
    match R.push pending piece with
    | .error e => ([], .error e)
    | .ok (xs, pending) => (xs ++ (run pending pieces).1, (run pending pieces).2)

/-- What a stream comes to when every frame counts for itself. -/
def verdict : List (Frame α) → List α → List β × Except ε (List α)
  | [], rest => ([], if R.limit < rest.length then .error R.tooLong else .ok rest)
  | s :: more, rest =>
    match R.judge s.raw with
    | .error e => ([], .error e)
    | .ok xs => (xs ++ (verdict more rest).1, (verdict more rest).2)

/-- A frame that is taken however it arrives. -/
def Taken (s : Frame α) : Prop :=
  s.raw.length + s.separator ≤ R.limit + 1 ∧ ∃ xs, R.judge s.raw = .ok xs

/-- A frame that is refused, with the same error, however it arrives. -/
def Refused (s : Frame α) : Prop :=
  R.limit < s.raw.length ∨
    s.raw.length + s.separator ≤ R.limit + 1 ∧ ∃ e, R.judge s.raw = .error e

/-- Empty frames do not matter. The first other one is refused, or it and all that follows is
taken. -/
def Uniform : List (Frame α) → List α → Prop
  | [], _ => True
  | s :: more, rest =>
    (s.raw = [] ∧ Uniform more rest) ∨ (s.raw ≠ [] ∧ R.Refused s) ∨
      (s.raw ≠ [] ∧ R.Taken s ∧ (∀ t ∈ more, R.Taken t) ∧ rest.length ≤ R.limit)

variable {R}

theorem refused_judge {s : Frame α} (h : R.Refused s) : ∃ e, R.judge s.raw = .error e := by
  rcases h with hlong | ⟨-, he⟩
  · exact ⟨R.tooLong, R.judge_tooLong.mpr hlong⟩
  · exact he

theorem collect_append {before after : List (Frame α)} {xs : List β}
    (h : R.collect before = .ok xs) :
    R.collect (before ++ after) =
      match R.collect after with
      | .error e => .error e
      | .ok ys => .ok (xs ++ ys) := by
  induction before generalizing xs with
  | nil =>
    obtain rfl : [] = xs := Except.ok.inj h
    rw [List.nil_append]
    rcases R.collect after with e | ys <;> rfl
  | cons s before ih =>
    rw [collect] at h
    rw [List.cons_append, collect]
    rcases hs : R.judge s.raw with e | zs
    · rw [hs] at h
      nomatch h
    · rw [hs] at h
      rcases hb : R.collect before with e | ws
      · simp only [hb] at h
        nomatch h
      · simp only [hb, Except.ok.injEq] at h
        subst h
        simp only [ih hb]
        rcases R.collect after with e | ys
        · rfl
        · simp only [List.append_assoc]

theorem verdict_append {before after : List (Frame α)} {xs : List β} {rest : List α}
    (h : R.collect before = .ok xs) :
    R.verdict (before ++ after) rest =
      (xs ++ (R.verdict after rest).1, (R.verdict after rest).2) := by
  induction before generalizing xs with
  | nil =>
    obtain rfl : [] = xs := Except.ok.inj h
    rfl
  | cons s before ih =>
    rw [collect] at h
    rw [List.cons_append, verdict]
    rcases hs : R.judge s.raw with e | zs
    · rw [hs] at h
      nomatch h
    · rw [hs] at h
      rcases hb : R.collect before with e | ws
      · simp only [hb] at h
        nomatch h
      · simp only [hb, Except.ok.injEq] at h
        subst h
        simp only [ih hb, List.append_assoc]

/-! ## Streams on which the pieces do not matter -/

theorem uniform_of_taken {fs : List (Frame α)} {rest : List α}
    (hfs : ∀ s ∈ fs, R.Taken s) (hrest : rest.length ≤ R.limit) : R.Uniform fs rest := by
  induction fs with
  | nil => trivial
  | cons s more ih =>
    have hmore : ∀ t ∈ more, R.Taken t := fun t ht ↦ hfs t (List.mem_cons_of_mem _ ht)
    by_cases hraw : s.raw = []
    · exact Or.inl ⟨hraw, ih hmore⟩
    · exact Or.inr (Or.inr ⟨hraw, hfs s List.mem_cons_self, hmore, hrest⟩)

theorem collect_of_taken {fs : List (Frame α)} (h : ∀ s ∈ fs, R.Taken s) :
    ∃ xs, R.collect fs = .ok xs := by
  induction fs with
  | nil => exact ⟨[], rfl⟩
  | cons s more ih =>
    obtain ⟨-, xs, hs⟩ := h s List.mem_cons_self
    obtain ⟨ys, hmore⟩ := ih fun t ht ↦ h t (List.mem_cons_of_mem _ ht)
    exact ⟨xs ++ ys, by rw [collect, hs]; simp only [hmore]⟩

/-- The frames a piece completes are refused for good, or handed out with the pieces still not
mattering to the rest. -/
theorem uniform_append {before after : List (Frame α)} {rest : List α}
    (h : R.Uniform (before ++ after) rest) :
    (∃ e, R.collect before = .error e ∧ R.verdict (before ++ after) rest = ([], .error e)) ∨
      ∃ xs, R.collect before = .ok xs ∧ R.Uniform after rest ∧
        (xs = [] ∨ (∀ s ∈ after, R.Taken s) ∧ rest.length ≤ R.limit) := by
  induction before with
  | nil => exact Or.inr ⟨[], rfl, h, Or.inl rfl⟩
  | cons s before ih =>
    rw [List.cons_append, Uniform] at h
    rw [List.cons_append, collect, verdict]
    rcases h with ⟨hraw, h⟩ | ⟨-, href⟩ | ⟨hraw, htaken, hmore, hrest⟩
    · rw [hraw, R.judge_nil]
      rcases ih h with ⟨e, hc, hv⟩ | ⟨xs, hc, hu, hxs⟩
      · exact Or.inl ⟨e, by simp only [hc], by simp only [hv, List.nil_append]⟩
      · exact Or.inr ⟨xs, by simp only [hc, List.nil_append], hu, hxs⟩
    · obtain ⟨e, he⟩ := refused_judge href
      exact Or.inl ⟨e, by simp only [he], by simp only [he]⟩
    · obtain ⟨-, xs, hs⟩ := htaken
      obtain ⟨ys, hc⟩ := collect_of_taken fun t ht ↦ hmore t (List.mem_append_left _ ht)
      have hafter : ∀ t ∈ after, R.Taken t := fun t ht ↦ hmore t (List.mem_append_right _ ht)
      refine Or.inr ⟨xs ++ ys, ?_, uniform_of_taken hafter hrest, Or.inr ⟨hafter, hrest⟩⟩
      simp only [hs, hc]

/-- When all that follows is taken, what is pending is within the limit. -/
theorem pending_le {pending more : List α} (hb : R.boundary pending = none)
    (hfs : ∀ s ∈ (R.frames (pending ++ more)).1, R.Taken s)
    (hrest : (R.frames (pending ++ more)).2.length ≤ R.limit) : pending.length ≤ R.limit := by
  rcases hsplit : (R.frames (pending ++ more)).1 with - | ⟨s, fs⟩
  · -- nothing is ever completed, so what is pending only grows
    rcases hbm : R.boundary (pending ++ more) with - | ⟨i, n⟩
    · rw [R.frames_of_none hbm, List.length_append] at hrest
      omega
    · rw [R.frames_of_some hbm] at hsplit
      nomatch hsplit
  · have hlt := R.lt_of_unfinished hb hsplit
    have hs := (hfs s (by rw [hsplit]; exact List.mem_cons_self)).1
    omega

theorem separator_le_of_mem {b : List α} {s : Frame α} (h : s ∈ (R.frames b).1) :
    s.separator ≤ R.limit + 1 := by
  induction b using R.frames_induction with
  | unfinished b hb => rw [R.frames_of_none hb] at h; nomatch h
  | frame b i n hb ih =>
    rw [R.frames_of_some hb] at h
    rcases List.mem_cons.mp h with rfl | h
    · exact R.separator_le hb
    · exact ih h

/-- What is pending past the limit is refused in the end, when the pieces do not matter. -/
theorem verdict_of_overflow {pending more : List α} (hb : R.boundary pending = none)
    (hlong : R.limit < pending.length)
    (h : R.Uniform (R.frames (pending ++ more)).1 (R.frames (pending ++ more)).2) :
    R.verdict (R.frames (pending ++ more)).1 (R.frames (pending ++ more)).2 =
      ([], .error R.tooLong) := by
  rcases hsplit : (R.frames (pending ++ more)).1 with - | ⟨s, fs⟩
  · rcases hbm : R.boundary (pending ++ more) with - | ⟨i, n⟩
    · have hle : R.limit < (pending ++ more).length := by rw [List.length_append]; omega
      rw [R.frames_of_none hbm, verdict, if_pos hle]
    · rw [R.frames_of_some hbm] at hsplit
      nomatch hsplit
  · have hlt := R.lt_of_unfinished hb hsplit
    have hsep : s.separator ≤ R.limit + 1 :=
      separator_le_of_mem (hsplit ▸ List.mem_cons_self)
    -- the frame under way is neither empty nor taken, and if it is refused, it is for its length
    have hover : R.limit < s.raw.length := by
      rw [hsplit] at h
      rcases h with ⟨hraw, -⟩ | ⟨-, hover | ⟨hle, -⟩⟩ | ⟨-, ⟨hle, -⟩, -⟩
      · rw [hraw, List.length_nil] at hlt
        omega
      · exact hover
      · omega
      · omega
    rw [verdict, R.judge_tooLong.mpr hover]

/-- On a uniform stream every run comes to the verdict, whatever the pieces. -/
theorem run_eq_verdict {pending : List α} {pieces : List (List α)}
    (hb : R.boundary pending = none) (hpending : pending.length ≤ R.limit)
    (h : R.Uniform (R.frames (pending ++ pieces.flatten)).1
      (R.frames (pending ++ pieces.flatten)).2) :
    R.run pending pieces = R.verdict (R.frames (pending ++ pieces.flatten)).1
      (R.frames (pending ++ pieces.flatten)).2 := by
  induction pieces generalizing pending with
  | nil =>
    have hnot : ¬ R.limit < pending.length := by omega
    rw [List.flatten_nil, List.append_nil, R.frames_of_none hb, run, verdict, if_neg hnot]
  | cons piece pieces ih =>
    rw [List.flatten_cons, ← List.append_assoc, R.frames_append] at h ⊢
    rw [run, push]
    set now := R.frames (pending ++ piece) with hnow
    have hrest : R.boundary now.2 = none := R.boundary_rest _
    rcases uniform_append h with ⟨e, hc, hv⟩ | ⟨xs, hc, hu, hxs⟩
    · rw [hc, hv]
    · rw [hc, verdict_append hc]
      by_cases hlong : R.limit < now.2.length
      · -- nothing was handed out yet, and nothing will be
        rcases hxs with rfl | ⟨htaken, hle⟩
        · simp only [if_pos hlong, verdict_of_overflow hrest hlong hu, List.nil_append]
        · exact absurd (pending_le hrest htaken hle) (by omega)
      · simp only [if_neg hlong]
        rw [ih hrest (by omega) hu]

/-! ## Streams on which they do -/

/-- A frame that fits the limit, while it does not together with its separator less one. -/
def Wavering (R : Reader α β ε) (s : Frame α) : Prop :=
  s.raw.length ≤ R.limit ∧ R.limit + 1 < s.raw.length + s.separator

theorem refused_or_wavering {s : Frame α} (h : ¬ R.Taken s) : R.Refused s ∨ R.Wavering s := by
  by_cases hlong : R.limit < s.raw.length
  · exact Or.inl (Or.inl hlong)
  · by_cases hfits : s.raw.length + s.separator ≤ R.limit + 1
    · rcases hs : R.judge s.raw with e | xs
      · exact Or.inl (Or.inr ⟨hfits, e, hs⟩)
      · exact absurd ⟨hfits, xs, hs⟩ h
    · exact Or.inr ⟨by omega, by omega⟩

theorem uniform_of_empty {before after : List (Frame α)} {rest : List α}
    (hempty : ∀ s ∈ before, s.raw = []) (h : R.Uniform after rest) :
    R.Uniform (before ++ after) rest := by
  induction before with
  | nil => exact h
  | cons s before ih =>
    exact Or.inl ⟨hempty s List.mem_cons_self,
      ih fun t ht ↦ hempty t (List.mem_cons_of_mem _ ht)⟩

theorem exists_first_untaken (fs : List (Frame α)) :
    (∀ s ∈ fs, R.Taken s) ∨ ∃ before s after, fs = before ++ s :: after ∧
      (∀ t ∈ before, R.Taken t) ∧ ¬ R.Taken s := by
  induction fs with
  | nil => exact Or.inl fun s hs ↦ nomatch hs
  | cons s more ih =>
    by_cases hs : R.Taken s
    · rcases ih with hall | ⟨before, t, after, rfl, hbefore, ht⟩
      · exact Or.inl fun t ht ↦ (List.mem_cons.mp ht).elim (fun he ↦ he ▸ hs) (hall t)
      · refine Or.inr ⟨s :: before, t, after, rfl, fun u hu ↦ ?_, ht⟩
        exact (List.mem_cons.mp hu).elim (fun he ↦ he ▸ hs) (hbefore u)
    · exact Or.inr ⟨[], s, more, rfl, fun t ht ↦ (nomatch ht), hs⟩

theorem collect_ne_nil {fs : List (Frame α)} {xs : List β} (h : R.collect fs = .ok xs)
    (hfull : ∃ s ∈ fs, s.raw ≠ []) : xs ≠ [] := by
  induction fs generalizing xs with
  | nil =>
    obtain ⟨s, hs, -⟩ := hfull
    nomatch hs
  | cons s more ih =>
    rw [collect] at h
    rcases hj : R.judge s.raw with e | ys
    · rw [hj] at h
      nomatch h
    · rw [hj] at h
      rcases hm : R.collect more with e | zs
      · simp only [hm] at h
        nomatch h
      · simp only [hm, Except.ok.injEq] at h
        subst h
        intro hnil
        obtain ⟨rfl, rfl⟩ := List.append_eq_nil_iff.mp hnil
        obtain ⟨t, ht, hraw⟩ := hfull
        rcases List.mem_cons.mp ht with rfl | ht
        · exact hraw (R.judge_ok_nil hj)
        · exact ih hm ⟨t, ht, hraw⟩ rfl

/-- A piece that ends with a frame hands it out. -/
theorem run_cons_of_complete {piece : List α} {pieces : List (List α)}
    {fs : List (Frame α)} {xs : List β} (hfs : R.frames piece = (fs, []))
    (hxs : R.collect fs = .ok xs) :
    R.run [] (piece :: pieces) = (xs ++ (R.run [] pieces).1, (R.run [] pieces).2) := by
  rw [run, push, List.nil_append, hfs]
  simp only [hxs, List.length_nil, Nat.not_lt_zero, if_false]

theorem run_cons_of_refused {piece : List α} {pieces : List (List α)}
    {fs : List (Frame α)} {rest : List α} {e : ε} (hfs : R.frames piece = (fs, rest))
    (he : R.collect fs = .error e) : R.run [] (piece :: pieces) = ([], .error e) := by
  rw [run, push, List.nil_append, hfs]
  simp only [he]

theorem run_cons_of_overflow {piece : List α} {pieces : List (List α)}
    {fs : List (Frame α)} {xs : List β} {rest : List α}
    (hfs : R.frames piece = (fs, rest)) (hxs : R.collect fs = .ok xs)
    (hlong : R.limit < rest.length) :
    R.run [] (piece :: pieces) = ([], .error R.tooLong) := by
  rw [run, push, List.nil_append, hfs]
  simp only [hxs, if_pos hlong]

/-- Two runs that a caller can tell apart: by what they hand out, or by the error they end in. -/
def Differ (out out' : List β × Except ε (List α)) : Prop :=
  out.1 ≠ out'.1 ∨ ∃ e e', out.2 = .error e ∧ out'.2 = .error e' ∧ e ≠ e'

theorem exists_run_ne_of_wavering {b : List α} {before after : List (Frame α)} {s : Frame α}
    (hb : (R.frames b).1 = before ++ s :: after) (hbefore : ∀ t ∈ before, R.Taken t)
    (hs : R.Wavering s) :
    ∃ pieces pieces', pieces.flatten = b ∧ pieces'.flatten = b ∧
      Differ (R.run [] pieces) (R.run [] pieces') := by
  obtain ⟨c, d, rfl, hc, hd⟩ := R.exists_cut hb
  obtain ⟨xs, hxs⟩ := collect_of_taken hbefore
  rcases hbd : R.boundary d with - | ⟨i, n⟩
  · rw [R.frames_of_none hbd] at hd
    nomatch hd
  rw [R.frames_of_some hbd] at hd
  obtain ⟨rfl, -⟩ := List.cons.inj hd
  obtain ⟨hpos, hle⟩ := R.bounded hbd
  have hsep := R.separator_le hbd
  obtain ⟨hshort, hlong⟩ := hs
  simp only [List.length_take] at hshort hlong
  refine ⟨[c, d.take (i + n), d.drop (i + n)], [c, d.take (i + n - 1), d.drop (i + n - 1)],
    by simp, by simp, ?_⟩
  -- cut inside the separator, the frame is refused
  have hinside : R.run [] [d.take (i + n - 1), d.drop (i + n - 1)] = ([], .error R.tooLong) :=
    run_cons_of_overflow (R.frames_of_none (R.boundary_take_pred hbd)) rfl
      (by rw [List.length_take]; omega)
  -- cut after it, the frame is judged
  have htake : R.frames (d.take (i + n)) = ([⟨d.take i, n⟩], []) := by
    have hbt : R.boundary (d.take (i + n)) = some (i, n) := by
      apply R.prompt (c := d.drop (i + n))
      · rw [List.take_append_drop]
        exact hbd
      · rw [List.length_take]
        omega
    rw [R.frames_of_some hbt, List.drop_of_length_le (by rw [List.length_take]; omega),
      R.frames_of_none R.boundary_nil, List.take_take, Nat.min_eq_left (by omega)]
  rw [run_cons_of_complete hc hxs, run_cons_of_complete hc hxs, hinside]
  rcases hj : R.judge (d.take i) with e | ys
  · have hrefused : R.collect [⟨d.take i, n⟩] = .error e := by simp only [collect, hj]
    rw [run_cons_of_refused htake hrefused]
    refine Or.inr ⟨e, R.tooLong, rfl, rfl, fun he ↦ ?_⟩
    have hover := R.judge_tooLong.mp (he ▸ hj)
    rw [List.length_take] at hover
    omega
  · have hys : R.collect [⟨d.take i, n⟩] = .ok ys := by
      simp only [collect, hj, List.append_nil]
    have hne : ys ≠ [] := by
      rintro rfl
      have hnil := congrArg List.length (R.judge_ok_nil hj)
      rw [List.length_take, List.length_nil] at hnil
      omega
    rw [run_cons_of_complete htake hys]
    refine Or.inl fun he ↦ hne ?_
    rw [List.append_nil] at he
    have hall : ys ++ (R.run [] [d.drop (i + n)]).1 = [] := List.append_right_eq_self.mp he
    exact (List.append_eq_nil_iff.mp hall).1

/-- On every other stream two ways of cutting it can be told apart. -/
theorem exists_run_ne {b : List α} (h : ¬ R.Uniform (R.frames b).1 (R.frames b).2) :
    ∃ pieces pieces', pieces.flatten = b ∧ pieces'.flatten = b ∧
      Differ (R.run [] pieces) (R.run [] pieces') := by
  rcases exists_first_untaken (R := R) (R.frames b).1 with
    hall | ⟨before, s, after, hb, hbefore, hs⟩
  · -- the unfinished frame at the end is too long
    have hlong : R.limit < (R.frames b).2.length := by
      by_contra hle
      exact h (uniform_of_taken hall (by omega))
    have hfull : ∃ s ∈ (R.frames b).1, s.raw ≠ [] := by
      by_contra hempty
      push Not at hempty
      apply h
      rw [← List.append_nil (R.frames b).1]
      exact uniform_of_empty hempty trivial
    obtain ⟨xs, hxs⟩ := collect_of_taken hall
    obtain ⟨c, d, hcd, hc, -⟩ := R.exists_cut (List.append_nil (R.frames b).1).symm
    refine ⟨[c, d], [b], by simp [hcd], by simp, Or.inl ?_⟩
    rw [run_cons_of_complete hc hxs, run_cons_of_overflow rfl hxs hlong]
    intro he
    exact collect_ne_nil hxs hfull (List.append_eq_nil_iff.mp he).1
  · rcases refused_or_wavering hs with href | hwav
    · have hfull : ∃ t ∈ before, t.raw ≠ [] := by
        by_contra hempty
        push Not at hempty
        apply h
        rw [hb]
        apply uniform_of_empty hempty
        by_cases hraw : s.raw = []
        · obtain ⟨e, he⟩ := refused_judge href
          rw [hraw, R.judge_nil] at he
          nomatch he
        · exact Or.inr (Or.inl ⟨hraw, href⟩)
      obtain ⟨xs, hxs⟩ := collect_of_taken hbefore
      obtain ⟨e, he⟩ := refused_judge href
      obtain ⟨c, d, hcd, hc, -⟩ := R.exists_cut hb
      have hrefused : R.collect (R.frames b).1 = .error e := by
        rw [hb, collect_append hxs]
        simp only [collect, he]
      refine ⟨[c, d], [b], by simp [hcd], by simp, Or.inl ?_⟩
      rw [run_cons_of_complete hc hxs, run_cons_of_refused rfl hrefused]
      intro heq
      exact collect_ne_nil hxs hfull (List.append_eq_nil_iff.mp heq).1
    · exact exists_run_ne_of_wavering hb hbefore hwav

end Reader

end Library
