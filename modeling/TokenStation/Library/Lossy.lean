import Mathlib.Data.Nat.Find
import TokenStation.Library.Allowance
import TokenStation.Library.Decoder

/-!
# Lossy decoding

A reader that never fails shows a filler for what is no symbol: the beginning of a symbol that is
not continued is one filler, and so is a letter that begins nothing. The letters that are shown as
one symbol are a piece of the stream.

A reader that forgets what was left over shows a symbol that is cut as fillers. The pieces of one
letter cannot be cut, and a cut between two pieces changes nothing, when no letter inside a symbol
begins one (`Synchronized`). What is shown of the parts is then the text of the whole in which some
of the longer pieces are replaced by two or more fillers (`broken_of_flatten`), and within an
allowance it does not depend on the parts exactly when the text is settled (`settled_iff`).
-/

namespace Library

variable {α β : Type*}

namespace Decoder

variable (D : Decoder α β) (filler : β)

/-- How many letters are shown as one filler. -/
def spoiled (b : List α) : ℕ :=
  max 1 (Nat.findGreatest (fun n ↦ D.unfinished (b.take n) = true) b.length)

/-- The symbol that is shown first, and how many letters it stands for. -/
def shown (b : List α) : β × ℕ := (D.first b).getD (filler, D.spoiled b)

theorem shown_of_some {b : List α} {x : β} {n : ℕ} (h : D.first b = some (x, n)) :
    D.shown filler b = (x, n) := by
  rw [shown, h]
  rfl

theorem shown_of_none {b : List α} (h : D.first b = none) :
    D.shown filler b = (filler, D.spoiled b) := by
  rw [shown, h]
  rfl

theorem spoiled_pos (b : List α) : 0 < D.spoiled b :=
  Nat.lt_of_lt_of_le Nat.one_pos (le_max_left _ _)

theorem spoiled_le {b : List α} (h : b ≠ []) : D.spoiled b ≤ b.length :=
  max_le (List.length_pos_iff.mpr h) (Nat.findGreatest_le _)

theorem shown_bounded {b : List α} (h : b ≠ []) :
    0 < (D.shown filler b).2 ∧ (D.shown filler b).2 ≤ b.length := by
  rcases hfirst : D.first b with - | ⟨x, n⟩
  · rw [D.shown_of_none filler hfirst]
    exact ⟨D.spoiled_pos b, D.spoiled_le h⟩
  · rw [D.shown_of_some filler hfirst]
    exact D.bounded hfirst

/-- The pieces of a stream, each with the symbol it is shown as. -/
def pieces : List α → List (List α × β)
  | [] => []
  | a :: b =>
    let piece := D.shown filler (a :: b)
    ((a :: b).take piece.2, piece.1) :: pieces ((a :: b).drop piece.2)
termination_by b => b.length
decreasing_by
  have hbounded := D.shown_bounded filler (List.cons_ne_nil a b)
  simp only [List.length_drop]
  omega

/-- What is shown of a stream. -/
def lossy (b : List α) : List β := (D.pieces filler b).map Prod.snd

/-- A letter that begins nothing. -/
def Inner (a : α) : Prop := ∀ b, D.first (a :: b) = none ∧ D.unfinished (a :: b) = false

/-- Symbols can be told from their own letters, and where one begins from any place. -/
structure Synchronized : Prop where
  narrow : ∀ {b x n}, D.first b = some (x, n) → D.first (b.take n) = some (x, n)
  symbol : ∀ {b x n}, D.first b = some (x, n) → ∀ a ∈ (b.take n).tail, D.Inner a
  beginning : ∀ {b}, D.unfinished b = true → ∀ a ∈ b.tail, D.Inner a

variable {D filler} {b c d : List α}

/-! ## Pieces -/

@[simp] theorem pieces_nil : D.pieces filler [] = [] := by rw [pieces]

theorem pieces_of_ne_nil (h : b ≠ []) : D.pieces filler b =
    (b.take (D.shown filler b).2, (D.shown filler b).1) ::
      D.pieces filler (b.drop (D.shown filler b).2) := by
  obtain ⟨a, b, rfl⟩ := List.exists_cons_of_ne_nil h
  rw [pieces]

@[simp] theorem lossy_nil : D.lossy filler [] = [] := by rw [lossy, pieces_nil, List.map_nil]

theorem lossy_of_ne_nil (h : b ≠ []) : D.lossy filler b =
    (D.shown filler b).1 :: D.lossy filler (b.drop (D.shown filler b).2) := by
  rw [lossy, pieces_of_ne_nil h, List.map_cons, lossy]

/-- Induction along the pieces of a stream. -/
theorem pieces_induction (filler : β) {motive : List α → Prop} (nil : motive [])
    (piece : ∀ b, b ≠ [] → motive (b.drop (D.shown filler b).2) → motive b) (b : List α) :
    motive b := by
  induction hlen : b.length using Nat.strongRecOn generalizing b with
  | _ m ih =>
    by_cases hb : b = []
    · exact hb ▸ nil
    · have hbounded := D.shown_bounded filler hb
      refine piece b hb (ih _ ?_ _ rfl)
      rw [List.length_drop]
      omega

/-- When no symbol and no beginning of one is larger than what it is shown as, the text is at least
as large as the stream. -/
theorem length_le_weigh_lossy {size : β → ℕ}
    (hsymbol : ∀ {b x n}, D.first b = some (x, n) → n ≤ size x)
    (hbeginning : ∀ {b}, D.unfinished b = true → b.length ≤ size filler)
    (hfiller : 1 ≤ size filler) (b : List α) : b.length ≤ weigh size (D.lossy filler b) := by
  induction b using D.pieces_induction filler with
  | nil => exact Nat.zero_le _
  | piece b hb ih =>
    have hfirst : (D.shown filler b).2 ≤ size (D.shown filler b).1 := by
      rcases hfirst : D.first b with - | ⟨x, n⟩
      · rw [D.shown_of_none filler hfirst]
        refine max_le hfiller ?_
        by_cases hnone : Nat.findGreatest (fun n ↦ D.unfinished (b.take n) = true) b.length = 0
        · rw [hnone]
          exact Nat.zero_le _
        · have hlength := hbeginning (Nat.findGreatest_of_ne_zero rfl hnone)
          rwa [List.length_take_of_le (Nat.findGreatest_le _)] at hlength
      · rw [D.shown_of_some filler hfirst]
        exact hsymbol hfirst
    rw [List.length_drop] at ih
    rw [lossy_of_ne_nil hb, weigh_cons]
    omega

/-! ## What a cut does to the first piece -/

theorem shown_of_inner {a : α} (h : D.Inner a) : D.shown filler (a :: b) = (filler, 1) := by
  have hnone : Nat.findGreatest (fun n ↦ D.unfinished ((a :: b).take n) = true)
      (a :: b).length = 0 := by
    rw [Nat.findGreatest_eq_zero_iff]
    intro n hpos _
    obtain ⟨n, rfl⟩ := Nat.exists_eq_succ_of_ne_zero (Nat.ne_of_gt hpos)
    rw [List.take_succ_cons, (h _).2]
    exact Bool.false_ne_true
  rw [D.shown_of_none filler (h b).1, spoiled, hnone]
  rfl

/-- The letters inside a symbol are shown one by one. -/
theorem pieces_of_inner (h : ∀ a ∈ c, D.Inner a) : D.pieces filler (c ++ d) =
    c.map (fun a ↦ ([a], filler)) ++ D.pieces filler d := by
  induction c with
  | nil => rfl
  | cons a c ih =>
    have hrest := ih fun a' ha' ↦ h a' (List.mem_cons_of_mem a ha')
    rw [List.cons_append, pieces_of_ne_nil (List.cons_ne_nil _ _),
      shown_of_inner (h a List.mem_cons_self)]
    simp only [List.take_succ_cons, List.take_zero, List.drop_succ_cons, List.drop_zero]
    rw [hrest, List.map_cons, List.cons_append]

theorem lossy_of_inner (h : ∀ a ∈ c, D.Inner a) :
    D.lossy filler (c ++ d) = List.replicate c.length filler ++ D.lossy filler d := by
  rw [lossy, pieces_of_inner h, List.map_append, List.map_map, ← lossy]
  congr 1
  exact List.map_const'

/-- What is unfinished is shown as one filler. -/
theorem shown_of_unfinished (hc : c ≠ []) (h : D.unfinished c = true) :
    D.shown filler c = (filler, c.length) := by
  have hall : Nat.findGreatest (fun n ↦ D.unfinished (c.take n) = true) c.length = c.length :=
    Nat.findGreatest_eq (by rwa [List.take_length])
  rw [D.shown_of_none filler (D.waiting h), spoiled, hall,
    max_eq_right (List.length_pos_iff.mpr hc)]

theorem lossy_of_unfinished (hc : c ≠ []) (h : D.unfinished c = true) :
    D.lossy filler c = [filler] := by
  rw [lossy_of_ne_nil hc, shown_of_unfinished hc h, List.drop_length, lossy_nil]

/-- A cut behind the first piece leaves it as it is. -/
theorem Synchronized.shown_append (S : D.Synchronized)
    (h : (D.shown filler (c ++ d)).2 ≤ c.length) :
    D.shown filler c = D.shown filler (c ++ d) := by
  rcases hfirst : D.first (c ++ d) with - | ⟨x, n⟩
  · -- what is no symbol in the whole is none in the part, and as long
    have hpart : D.first c = none := by
      rcases hpart : D.first c with - | p
      · rfl
      · rw [D.stable d hpart] at hfirst
        nomatch hfirst
    rw [D.shown_of_none filler hfirst] at h ⊢
    have hsame : D.spoiled c = D.spoiled (c ++ d) := by
      have hle : Nat.findGreatest (fun n ↦ D.unfinished ((c ++ d).take n) = true)
          (c ++ d).length ≤ c.length := (le_max_right _ _).trans h
      have heq := Nat.findGreatest_eq_iff.mp
        (rfl : Nat.findGreatest (fun n ↦ D.unfinished ((c ++ d).take n) = true)
          (c ++ d).length = _)
      rw [spoiled, spoiled]
      congr 1
      refine Nat.findGreatest_eq_iff.mpr ⟨hle, fun hne ↦ ?_, fun n hlt hn ↦ ?_⟩
      · rw [← List.take_append_of_le_length hle]
        exact heq.2.1 hne
      · rw [← List.take_append_of_le_length hn]
        refine heq.2.2 hlt ?_
        rw [List.length_append]
        omega
    rw [D.shown_of_none filler hpart, hsame]
  · rw [D.shown_of_some filler hfirst] at h ⊢
    have hpart := D.stable (c.drop n) (S.narrow hfirst)
    rw [List.take_append_of_le_length h, List.take_append_drop] at hpart
    exact D.shown_of_some filler hpart

/-- A cut within the first piece leaves a beginning, and letters that begin nothing. -/
theorem Synchronized.shown_cut (S : D.Synchronized) (hc : c ≠ [])
    (h : c.length < (D.shown filler (c ++ d)).2) :
    D.unfinished c = true ∧
      ∀ a ∈ d.take ((D.shown filler (c ++ d)).2 - c.length), D.Inner a := by
  have htail : ∀ n, c.length < n → ∀ a ∈ d.take (n - c.length), a ∈ ((c ++ d).take n).tail := by
    intro n hlt a ha
    obtain ⟨a', c', rfl⟩ := List.exists_cons_of_ne_nil hc
    rw [List.take_append, List.take_of_length_le (Nat.le_of_lt hlt), List.cons_append,
      List.tail_cons]
    exact List.mem_append_right _ ha
  rcases hfirst : D.first (c ++ d) with - | ⟨x, n⟩
  · rw [D.shown_of_none filler hfirst] at h ⊢
    have hpos := List.length_pos_iff.mpr hc
    have hgreatest : D.spoiled (c ++ d) =
        Nat.findGreatest (fun n ↦ D.unfinished ((c ++ d).take n) = true) (c ++ d).length := by
      rw [spoiled] at h ⊢
      omega
    have hspoiled : D.unfinished ((c ++ d).take (D.spoiled (c ++ d))) = true :=
      Nat.findGreatest_of_ne_zero hgreatest.symm (Nat.ne_of_gt (D.spoiled_pos _))
    refine ⟨?_, fun a ha ↦ S.beginning hspoiled a (htail _ h a ha)⟩
    rw [List.take_append, List.take_of_length_le (Nat.le_of_lt h)] at hspoiled
    exact D.prefix_closed hc hspoiled
  · rw [D.shown_of_some filler hfirst] at h ⊢
    refine ⟨?_, fun a ha ↦ S.symbol hfirst a (htail _ h a ha)⟩
    refine D.prompt hc ?_ hfirst
    rcases hpart : D.first c with - | p
    · rfl
    · have hsame := D.stable d hpart
      rw [hfirst] at hsame
      obtain rfl := Option.some.inj hsame
      exact absurd (D.bounded hpart).2 (Nat.not_le_of_lt h)


/-! ## Cuts anywhere -/

variable (filler) in
/-- A text that shows the pieces, but for some of the longer ones that are broken: two or more
fillers stand for them. -/
inductive Broken : List (List α × β) → List β → Prop
  | nil : Broken [] []
  | kept {p : List α} {x : β} {rest : List (List α × β)} {text : List β} :
      Broken rest text → Broken ((p, x) :: rest) (x :: text)
  | broken {p : List α} {x : β} {rest : List (List α × β)} {text : List β} (n : ℕ) :
      2 ≤ p.length → Broken rest text →
      Broken ((p, x) :: rest) (List.replicate (n + 2) filler ++ text)

variable {rest : List (List α × β)} {text : List β}

/-- A single letter cannot be broken. -/
theorem Broken.of_letters (h : Broken filler (c.map (fun a ↦ ([a], filler)) ++ rest) text) :
    ∃ more, text = List.replicate c.length filler ++ more ∧ Broken filler rest more := by
  induction c generalizing text with
  | nil => exact ⟨text, rfl, h⟩
  | cons a c ih =>
    rw [List.map_cons, List.cons_append] at h
    cases h with
    | kept h =>
      obtain ⟨more, rfl, hmore⟩ := ih h
      exact ⟨more, rfl, hmore⟩
    | broken n hlong _ => exact absurd hlong (Nat.not_le_of_lt Nat.one_lt_two)

/-- One more part in front. -/
theorem Synchronized.broken_append (S : D.Synchronized)
    (h : Broken filler (D.pieces filler d) text) :
    Broken filler (D.pieces filler (c ++ d)) (D.lossy filler c ++ text) := by
  induction c using D.pieces_induction filler with
  | nil => rwa [lossy_nil]
  | piece c hc ih =>
    have hne : c ++ d ≠ [] := List.append_ne_nil_of_left_ne_nil hc d
    by_cases hwhole : (D.shown filler (c ++ d)).2 ≤ c.length
    · -- the first piece of the whole is the first piece of the part
      have hsame := S.shown_append hwhole
      rw [pieces_of_ne_nil hne, lossy_of_ne_nil hc, hsame, List.drop_append_of_le_length hwhole]
      rw [hsame] at ih
      exact .kept ih
    · -- the part ends within the first piece of the whole
      have hcut : c.length < (D.shown filler (c ++ d)).2 := Nat.lt_of_not_le hwhole
      have hbounded := D.shown_bounded filler hne
      obtain ⟨hunfinished, hinner⟩ := S.shown_cut hc hcut
      obtain ⟨n, hn⟩ := Nat.exists_eq_add_of_lt hcut
      have hlater : (D.shown filler (c ++ d)).2 - c.length = n + 1 := by omega
      rw [hlater] at hinner
      rw [← List.take_append_drop (n + 1) d, pieces_of_inner hinner] at h
      obtain ⟨more, rfl, hmore⟩ := h.of_letters
      have hlength : (d.take (n + 1)).length = n + 1 := by
        rw [List.length_append] at hbounded
        exact List.length_take_of_le (by omega)
      rw [lossy_of_unfinished hc hunfinished, hlength, ← List.append_assoc, List.singleton_append,
        ← List.replicate_succ, pieces_of_ne_nil hne, List.drop_append,
        List.drop_eq_nil_of_le (Nat.le_of_lt hcut), List.nil_append, hlater]
      refine .broken n ?_ hmore
      have hpos := List.length_pos_iff.mpr hc
      rw [List.length_take_of_le hbounded.2]
      omega

/-- Whatever the parts of a stream are, the text of the whole is broken at most. -/
theorem Synchronized.broken_of_flatten (S : D.Synchronized) {parts : List (List α)}
    (h : parts.flatten = b) :
    Broken filler (D.pieces filler b) (parts.flatMap (D.lossy filler)) := by
  induction parts generalizing b with
  | nil =>
    obtain rfl := h
    rw [List.flatten_nil, pieces_nil]
    exact .nil
  | cons part parts ih =>
    rw [← h, List.flatten_cons, List.flatMap_cons]
    exact S.broken_append (ih rfl)

/-! ## What does not depend on the parts -/

variable (size : β → ℕ)

variable (filler) in
/-- Until the allowance is used up, the symbols are of one letter each, or from the first longer one
on nothing but fillers fits. -/
def Settled : ℕ → List (List α × β) → Prop
  | _, [] => True
  | allowed, (p, x) :: rest =>
    if p.length ≤ 1 then allowed < size x ∨ Settled (allowed - size x) rest
    else Filled size filler allowed (x :: rest.map Prod.snd)

instance decidableSettled [DecidableEq β] :
    ∀ allowed (rest : List (List α × β)), Decidable (Settled filler size allowed rest)
  | _, [] => inferInstanceAs (Decidable True)
  | allowed, (p, x) :: rest =>
    have := decidableSettled (allowed - size x) rest
    inferInstanceAs (Decidable (if p.length ≤ 1 then
      allowed < size x ∨ Settled filler size (allowed - size x) rest
      else Filled size filler allowed (x :: rest.map Prod.snd)))

variable {size} {allowed : ℕ}

theorem Broken.filled (h : Broken filler rest text)
    (hfilled : Filled size filler allowed (rest.map Prod.snd)) :
    Filled size filler allowed text := by
  induction h generalizing allowed with
  | nil => exact hfilled
  | kept _ ih =>
    rcases hfilled with hfull | ⟨rfl, hrest⟩
    · exact Or.inl hfull
    · exact Or.inr ⟨rfl, ih hrest⟩
  | broken n _ _ ih =>
    rcases hfilled with ⟨hroom, _⟩ | ⟨rfl, hrest⟩
    · exact Or.inl ⟨hroom, hroom⟩
    · exact Or.inr ⟨rfl, (ih hrest).fillers (n + 1)⟩

/-- A settled text is copied alike when it is broken. -/
theorem Settled.fit_eq (h : Settled filler size allowed rest) (hbroken : Broken filler rest text) :
    fit size allowed text = fit size allowed (rest.map Prod.snd) := by
  induction hbroken generalizing allowed with
  | nil => rfl
  | @kept p x rest text hrest ih =>
    rw [Settled] at h
    by_cases hp : p.length ≤ 1
    · rw [if_pos hp] at h
      rw [List.map_cons]
      rcases h with hlt | hsettled
      · rw [fit_cons_of_lt hlt, fit_cons_of_lt hlt]
      · rw [fit, fit, ih hsettled]
    · rw [if_neg hp] at h
      exact fit_eq_of_filled (Broken.filled (Broken.kept (p := p) hrest) h) h
  | @broken p x rest text n hlong hrest ih =>
    rw [Settled, if_neg (by omega)] at h
    exact fit_eq_of_filled (Broken.filled (Broken.broken n hlong hrest) h) h

/-- A first piece that is cut behind its first letter. -/
theorem Synchronized.lossy_cut (S : D.Synchronized) (hb : b ≠ [])
    (h : 2 ≤ (D.shown filler b).2) :
    ∃ n, D.lossy filler (b.take 1) ++ D.lossy filler (b.drop 1) =
      List.replicate (n + 2) filler ++ D.lossy filler (b.drop (D.shown filler b).2) := by
  obtain ⟨n, hn⟩ := Nat.exists_eq_add_of_le' h
  have hbounded := D.shown_bounded filler hb
  have hne : b.take 1 ≠ [] := List.ne_nil_of_length_pos (by rw [List.length_take]; omega)
  have hone : (b.take 1).length = 1 := List.length_take_of_le (by omega)
  have hcut := @shown_cut α β D filler (b.take 1) (b.drop 1) S hne
  rw [List.take_append_drop, hone, hn, Nat.add_succ_sub_one] at hcut
  obtain ⟨hunfinished, hinner⟩ := hcut (by omega)
  have hlength : ((b.drop 1).take (n + 1)).length = n + 1 := by
    refine List.length_take_of_le ?_
    rw [List.length_drop]
    omega
  refine ⟨n, ?_⟩
  rw [lossy_of_unfinished hne hunfinished, ← List.take_append_drop (n + 1) (b.drop 1),
    lossy_of_inner hinner, hlength, List.drop_drop, hn, ← List.append_assoc,
    List.singleton_append, ← List.replicate_succ, Nat.add_comm 1]

/-- A text that is not settled has a cut that can be seen. -/
theorem Synchronized.exists_cut (S : D.Synchronized)
    (h : ¬ Settled filler size allowed (D.pieces filler b)) :
    ∃ c d, b = c ++ d ∧ fit size allowed (D.lossy filler c ++ D.lossy filler d) ≠
      fit size allowed (D.lossy filler b) := by
  induction b using D.pieces_induction filler generalizing allowed with
  | nil =>
    rw [pieces_nil, Settled] at h
    exact absurd trivial h
  | piece b hb ih =>
    have hbounded := D.shown_bounded filler hb
    rw [pieces_of_ne_nil hb, Settled, List.length_take_of_le hbounded.2] at h
    by_cases hletter : (D.shown filler b).2 ≤ 1
    · -- the cut is further on, and the first piece is in front of both texts
      rw [if_pos hletter, not_or] at h
      obtain ⟨c, d, hrest, hne⟩ := ih h.2
      have hfits := Nat.le_of_not_lt h.1
      have hsplit : b = (b.take (D.shown filler b).2 ++ c) ++ d := by
        rw [List.append_assoc, ← hrest, List.take_append_drop]
      have htaken : (b.take (D.shown filler b).2).length = (D.shown filler b).2 :=
        List.length_take_of_le hbounded.2
      have hfront : b.take (D.shown filler b).2 ++ c ≠ [] :=
        List.append_ne_nil_of_left_ne_nil (List.ne_nil_of_length_pos (by omega)) c
      have hsame : D.shown filler (b.take (D.shown filler b).2 ++ c) =
          D.shown filler ((b.take (D.shown filler b).2 ++ c) ++ d) := by
        refine S.shown_append ?_
        rw [← hsplit, List.length_append, htaken]
        exact Nat.le_add_right _ _
      rw [← hsplit] at hsame
      refine ⟨_, d, hsplit, ?_⟩
      rw [lossy_of_ne_nil hfront, lossy_of_ne_nil hb, hsame, List.drop_left' htaken,
        List.cons_append, fit_cons_of_le hfits, fit_cons_of_le hfits]
      exact fun heq ↦ hne (List.cons.inj heq).2
    · -- the cut is behind the first letter
      rw [if_neg hletter, ← lossy] at h
      obtain ⟨n, hcut⟩ := S.lossy_cut hb (Nat.lt_of_not_le hletter)
      refine ⟨b.take 1, b.drop 1, (List.take_append_drop 1 b).symm, ?_⟩
      rw [hcut, lossy_of_ne_nil hb]
      by_cases hx : (D.shown filler b).1 = filler
      · rw [hx] at h ⊢
        rw [List.replicate_succ', List.append_assoc, List.singleton_append]
        exact fit_fillers_ne h n
      · rw [Filled, not_or] at h
        rw [List.replicate_succ, List.cons_append]
        exact fit_filler_ne hx h.1

/-- Within an allowance the text does not depend on the parts exactly when it is settled. -/
theorem Synchronized.settled_iff (S : D.Synchronized) :
    (∀ parts : List (List α), parts.flatten = b →
      fit size allowed (parts.flatMap (D.lossy filler)) = fit size allowed (D.lossy filler b)) ↔
      Settled filler size allowed (D.pieces filler b) := by
  constructor
  · intro hall
    by_contra hsettled
    obtain ⟨c, d, hb, hne⟩ := S.exists_cut hsettled
    refine hne ?_
    have htwo := hall [c, d] (by simp [hb])
    simpa using htwo
  · intro hsettled parts hparts
    exact hsettled.fit_eq (S.broken_of_flatten hparts)

end Decoder

end Library
