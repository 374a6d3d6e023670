import TokenStation.Client.PriceSync
import TokenStation.Protocol.EndpointRoundTrip

/-!
# Whose price applies

A price is looked up under the upstream and the model first, and then under the model alone, as it
is written, as it is normalized, and by the longest id that it is a variant of. Ids of relays can
hold a slash themselves, as the keys of the upstreams do; the second part of the lookup never looks
at such keys: `scopedLookup`.

The normalization settles after one pass, so the model may be normalized before the lookup that
normalizes it again.
-/

namespace TokenStation

open Library

/-! ## Normal ids -/

/-- `char::replace`, for one character by another. -/
def replaceChar (old new : Char) (text : List Char) : List Char :=
  text.map fun c ↦ if c = old then new else c

/-- `normalize_model_id`, on characters. -/
def normalizeChars (model : List Char) : List Char :=
  let tail := model.rtakeWhile (· ≠ '/')
  let base := trim (tail.takeWhile (· ≠ ':'))
  let normalized := toAsciiLowercase (replaceChar '@' '-' base)
  if "claude-".toList.isPrefixOf normalized then replaceChar '.' '-' normalized else normalized

def normalizeModelId (model : String) : String := String.ofList (normalizeChars model.toList)

/-- What the first steps of the normalization leave. -/
structure PlainId (model : List Char) : Prop where
  slash : '/' ∉ model
  colon : ':' ∉ model
  trimmed : trim model = model
  at' : '@' ∉ model
  lower : toAsciiLowercase model = model

/-- What no step of the normalization changes. -/
structure NormalId (model : List Char) : Prop extends PlainId model where
  claude : "claude-".toList.isPrefixOf model = true → '.' ∉ model

theorem replaceChar_of_not_mem {old new : Char} {text : List Char} (h : old ∉ text) :
    replaceChar old new text = text := by
  rw [replaceChar]
  conv_rhs => rw [← List.map_id text]
  refine List.map_congr_left fun c hc ↦ if_neg fun heq ↦ ?_
  rw [heq] at hc
  exact h hc

theorem not_mem_replaceChar {old new : Char} (hne : old ≠ new) (text : List Char) :
    old ∉ replaceChar old new text := by
  intro hmem
  obtain ⟨c, -, hc⟩ := List.mem_map.mp hmem
  split at hc
  · exact hne hc.symm
  next hcne => exact hcne hc

theorem not_mem_replaceChar_of_not_mem {other old new : Char} (hne : other ≠ new)
    {text : List Char} (h : other ∉ text) : other ∉ replaceChar old new text := by
  intro hmem
  obtain ⟨c, hmem, hc⟩ := List.mem_map.mp hmem
  split at hc
  · exact hne hc.symm
  · exact h (hc ▸ hmem)

theorem normalizeChars_of_normal {model : List Char} (h : NormalId model) :
    normalizeChars model = model := by
  have htail : model.rtakeWhile (· ≠ '/') = model := by
    rw [List.rtakeWhile_eq_self_iff]
    intro c hc
    exact decide_eq_true fun heq ↦ h.slash (heq ▸ hc)
  have hbase : model.takeWhile (· ≠ ':') = model := by
    rw [List.takeWhile_eq_self_iff]
    intro c hc
    exact decide_eq_true fun heq ↦ h.colon (heq ▸ hc)
  rw [normalizeChars, htail, hbase, h.trimmed, replaceChar_of_not_mem h.at', h.lower]
  split
  next hclaude => exact replaceChar_of_not_mem (h.claude hclaude)
  next => rfl

/-! ### Lower case -/

theorem isWhitespace_toLower (c : Char) : isWhitespace c.toLower = isWhitespace c := by
  by_cases hupper : c.val ≥ 'A'.val ∧ c.val ≤ 'Z'.val
  · have hlow : 65 ≤ c.toNat := UInt32.le_iff_toNat_le.mp hupper.1
    have hhigh : c.toNat ≤ 90 := UInt32.le_iff_toNat_le.mp hupper.2
    have hc : isWhitespace c = false := by
      simp only [isWhitespace, Bool.or_eq_false_iff, Bool.and_eq_false_iff, decide_eq_false_iff_not,
        beq_eq_false_iff_ne]
      omega
    rw [hc]
    exact toLower_eq_false isWhitespace_of_isLower hc
  · exact congrArg isWhitespace (dif_neg hupper)

theorem isWhitespace_replace {old new : Char} (hold : isWhitespace old = false)
    (hnew : isWhitespace new = false) (c : Char) :
    isWhitespace (if c = old then new else c) = isWhitespace c := by
  by_cases hc : c = old
  · rw [if_pos hc, hc, hold, hnew]
  · rw [if_neg hc]

/-- A character that is no letter is not made by lowering. -/
theorem not_mem_toAsciiLowercase {other : Char} (hother : other.isLower = false)
    {text : List Char} (h : other ∉ text) : other ∉ toAsciiLowercase text := by
  intro hmem
  obtain ⟨c, hc, heq⟩ := List.mem_map.mp hmem
  obtain hlower | hsame := isLower_toLower c
  · rw [heq, hother] at hlower
    nomatch hlower
  · exact h (heq.symm.trans hsame ▸ hc)

/-- Lowering commutes with the replacement of one mark by another. -/
theorem toAsciiLowercase_replaceChar {old new : Char} (hold : old.isLower = false)
    (hsame : old.toLower = old) (hnew : new.toLower = new) (text : List Char) :
    toAsciiLowercase (replaceChar old new text) = replaceChar old new (toAsciiLowercase text) := by
  rw [toAsciiLowercase, toAsciiLowercase, replaceChar, replaceChar, List.map_map, List.map_map]
  refine List.map_congr_left fun c _ ↦ ?_
  dsimp only [Function.comp]
  by_cases hc : c = old
  · rw [if_pos hc, hc, hsame, if_pos rfl, hnew]
  · have hlowered : c.toLower ≠ old := by
      intro heq
      obtain hlower | hkept := isLower_toLower c
      · rw [heq, hold] at hlower
        cases hlower
      · exact hc (hkept.symm.trans heq)
    rw [if_neg hc, if_neg hlowered]

theorem trim_replaceChar {old new : Char} (hold : isWhitespace old = false)
    (hnew : isWhitespace new = false) {text : List Char} (h : trim text = text) :
    trim (replaceChar old new text) = replaceChar old new text := by
  rw [replaceChar, trim_map (isWhitespace_replace hold hnew), h]

/-- An id up to the lower case. -/
theorem plainId_lowered (model : List Char) :
    PlainId (toAsciiLowercase (replaceChar '@' '-'
      (trim ((model.rtakeWhile (· ≠ '/')).takeWhile (· ≠ ':'))))) := by
  generalize htail : model.rtakeWhile (· ≠ '/') = tail
  generalize hbase : tail.takeWhile (· ≠ ':') = base
  have hslash : '/' ∉ trim base := by
    intro hmem
    have hlast : '/' ∈ tail := (List.takeWhile_prefix _).subset (hbase ▸ subset_of_trim base hmem)
    have hkept := @List.mem_rtakeWhile_imp _ (fun c ↦ decide (c ≠ '/')) _ _ (htail ▸ hlast)
    exact absurd rfl (of_decide_eq_true hkept)
  have hcolon : ':' ∉ trim base := by
    intro hmem
    have hbefore := hbase ▸ subset_of_trim base hmem
    have hkept := @List.mem_takeWhile_imp _ (fun c ↦ decide (c ≠ ':')) _ _ hbefore
    exact absurd rfl (of_decide_eq_true hkept)
  have hreplaced := @trim_replaceChar '@' '-' rfl rfl _ (trim_trim base)
  constructor
  · exact not_mem_toAsciiLowercase rfl (not_mem_replaceChar_of_not_mem (by decide) hslash)
  · exact not_mem_toAsciiLowercase rfl (not_mem_replaceChar_of_not_mem (by decide) hcolon)
  · exact (trim_map isWhitespace_toLower _).trans (congrArg toAsciiLowercase hreplaced)
  · exact not_mem_toAsciiLowercase rfl (not_mem_replaceChar (by decide) _)
  · exact toAsciiLowercase_idem _

/-- Replacing the dots keeps an id plain. -/
theorem PlainId.replaceDots {model : List Char} (h : PlainId model) :
    PlainId (replaceChar '.' '-' model) := by
  constructor
  · exact not_mem_replaceChar_of_not_mem (by decide) h.slash
  · exact not_mem_replaceChar_of_not_mem (by decide) h.colon
  · exact trim_replaceChar rfl rfl h.trimmed
  · exact not_mem_replaceChar_of_not_mem (by decide) h.at'
  · rw [toAsciiLowercase_replaceChar rfl rfl rfl, h.lower]

/-- One pass makes an id normal. -/
theorem normal_normalizeChars (model : List Char) : NormalId (normalizeChars model) := by
  have hplain := plainId_lowered model
  rw [normalizeChars]
  split
  next => exact ⟨hplain.replaceDots, fun _ ↦ not_mem_replaceChar (by decide) _⟩
  next hclaude => exact ⟨hplain, fun hprefix ↦ absurd hprefix hclaude⟩

theorem normalizeModelId_idem (model : String) :
    normalizeModelId (normalizeModelId model) = normalizeModelId model := by
  rw [normalizeModelId, normalizeModelId, String.toList_ofList,
    normalizeChars_of_normal (normal_normalizeChars _)]

theorem slash_not_mem_normalizeModelId (model : String) :
    '/' ∉ (normalizeModelId model).toList := by
  rw [normalizeModelId, String.toList_ofList]
  exact (normal_normalizeChars _).slash

/-! ## Lookups -/

/-- `Iterator::max_by_key`: the last of the greatest. -/
def lastMaxBy {α : Type} (key : α → ℕ) : List α → Option α
  | [] => none
  | a :: rest =>
    match lastMaxBy key rest with
    | some b => some (if key b < key a then a else b)
    | none => some a

theorem lastMaxBy_spec {α : Type} {key : α → ℕ} {l : List α} {a : α}
    (h : lastMaxBy key l = some a) : a ∈ l ∧ ∀ b ∈ l, key b ≤ key a := by
  induction l generalizing a with
  | nil => nomatch h
  | cons first rest ih =>
    rw [lastMaxBy] at h
    split at h
    next last hlast =>
      obtain ⟨hmem, hmax⟩ := ih hlast
      obtain rfl := Option.some.inj h
      by_cases hlt : key last < key first
      · rw [if_pos hlt]
        refine ⟨List.mem_cons_self, List.forall_mem_cons.mpr ⟨le_rfl, fun b hb ↦ ?_⟩⟩
        exact (hmax b hb).trans hlt.le
      · rw [if_neg hlt]
        exact ⟨List.mem_cons_of_mem _ hmem, List.forall_mem_cons.mpr ⟨not_lt.mp hlt, hmax⟩⟩
    next hnone =>
      obtain rfl := Option.some.inj h
      cases rest with
      | nil => exact ⟨List.mem_cons_self, List.forall_mem_cons.mpr ⟨le_rfl, nofun⟩⟩
      | cons second rest =>
        rw [lastMaxBy] at hnone
        split at hnone
        · nomatch hnone
        · nomatch hnone

theorem lastMaxBy_eq_none {α : Type} {key : α → ℕ} {l : List α} (h : lastMaxBy key l = none) :
    l = [] := by
  cases l with
  | nil => rfl
  | cons first rest =>
    rw [lastMaxBy] at h
    split at h
    · nomatch h
    · nomatch h

/-- The key of a price for one upstream. -/
def scopedKey (upstream model : String) : String := upstream ++ "/" ++ model

/-- `candidate.contains('/')` -/
def isScoped (key : String) : Bool := key.toList.contains '/'

/-- The model's id is the candidate's, and goes on after a hyphen. -/
def extendsId (normalized candidate : List Char) : Bool :=
  match stripPrefix candidate normalized with
  | some suffix => suffix.head? == some '-'
  | none => false

namespace PricingConfig

variable {table : PricingConfig}

/-- The entry under a key. -/
def entry (table : PricingConfig) (key : String) : Option (String × ModelPrice) :=
  (table.models.lookup key).map fun price ↦ (key, price)

/-- The unscoped entries that a normalized id extends. -/
def candidates (table : PricingConfig) (normalized : String) : List (String × ModelPrice) :=
  (ClientConfig.members table.models).filter fun entry ↦
    !isScoped entry.1 && extendsId normalized.toList (normalizeModelId entry.1).toList

/-- `PriceTable::model_price`, as the entry that it refers to. -/
def modelPrice (table : PricingConfig) (model : String) : Option (String × ModelPrice) :=
  let normalized := normalizeModelId model
  (table.entry model).or <| (table.entry normalized).or <|
    lastMaxBy (fun entry ↦ (normalizeModelId entry.1).utf8ByteSize) (table.candidates normalized)

/-- `PriceTable::model_price_for_upstream` -/
def modelPriceForUpstream (table : PricingConfig) (upstream model : String) :
    Option (String × ModelPrice) :=
  (table.entry (scopedKey upstream model)).or <|
    -- a relay's model id can be the key of another upstream
    if isScoped model then table.modelPrice (normalizeModelId model) else table.modelPrice model

/-! ### One lookup -/

theorem entry_eq_some {key : String} {found : String × ModelPrice} :
    table.entry key = some found ↔ found.1 = key ∧ table.models.lookup found.1 = some found.2 := by
  rw [entry, Option.map_eq_some_iff]
  constructor
  · rintro ⟨price, hprice, rfl⟩
    exact ⟨rfl, hprice⟩
  · rintro ⟨rfl, hprice⟩
    exact ⟨found.2, hprice, rfl⟩

theorem entry_of_lookup {key : String} {price : ModelPrice}
    (h : table.models.lookup key = some price) : table.entry key = some (key, price) :=
  entry_eq_some.mpr ⟨rfl, h⟩

theorem entry_eq_none {key : String} :
    table.entry key = none ↔ table.models.lookup key = none := by
  rw [entry, Option.map_eq_none_iff]

/-- An unscoped entry whose normalized id the model extends at a hyphen. -/
structure IsCandidate (table : PricingConfig) (model : String) (found : String × ModelPrice) :
    Prop where
  stored : table.models.lookup found.1 = some found.2
  unscoped : isScoped found.1 = false
  extended : ∃ suffix, (normalizeModelId model).toList =
    (normalizeModelId found.1).toList ++ '-' :: suffix

theorem extendsId_iff {normalized candidate : List Char} :
    extendsId normalized candidate = true ↔ ∃ suffix, normalized = candidate ++ '-' :: suffix := by
  rw [extendsId]
  constructor
  · intro h
    split at h
    next suffix hstrip =>
      cases suffix with
      | nil => nomatch h
      | cons c rest =>
        have hc : some c = some '-' := eq_of_beq h
        obtain rfl := Option.some.inj hc
        exact ⟨rest, stripPrefix_eq_some hstrip⟩
    · nomatch h
  · rintro ⟨suffix, rfl⟩
    rw [stripPrefix_append]
    rfl

theorem mem_candidates {model : String} {found : String × ModelPrice} :
    found ∈ table.candidates (normalizeModelId model) ↔ table.IsCandidate model found := by
  rw [candidates, List.mem_filter, ClientConfig.mem_members, Bool.and_eq_true,
    Bool.not_eq_true', extendsId_iff]
  exact ⟨fun ⟨hstored, hunscoped, hextended⟩ ↦ ⟨hstored, hunscoped, hextended⟩,
    fun h ↦ ⟨h.stored, h.unscoped, h.extended⟩⟩

theorem isScoped_normalizeModelId (model : String) :
    isScoped (normalizeModelId model) = false := by
  rw [isScoped, ← Bool.not_eq_true, List.contains_iff_mem]
  exact slash_not_mem_normalizeModelId model

/-- The model id itself finds nothing. -/
theorem unscopedId_eq_none {model : String}
    (h : isScoped model = true ∨ table.models.lookup model = none) :
    (if isScoped model then none else table.entry model) = none := by
  split
  next => rfl
  next hunscoped => exact entry_eq_none.mpr (h.resolve_left hunscoped)

/-- The unscoped part of the lookup, whatever the model id holds. -/
theorem unscoped_eq (model : String) :
    (if isScoped model then table.modelPrice (normalizeModelId model) else table.modelPrice model) =
      (if isScoped model then none else table.entry model).or
        ((table.entry (normalizeModelId model)).or
          (lastMaxBy (fun entry ↦ (normalizeModelId entry.1).utf8ByteSize)
            (table.candidates (normalizeModelId model)))) := by
  by_cases hscoped : isScoped model = true
  · rw [if_pos hscoped, if_pos hscoped, modelPrice, normalizeModelId_idem, Option.none_or]
    cases table.entry (normalizeModelId model) with
    | none => rfl
    | some found => rfl
  · rw [if_neg hscoped, if_neg hscoped, modelPrice]

/-- Past the scoped key, only unscoped keys are found. -/
theorem unscoped_source {model : String} {found : String × ModelPrice}
    (h : (if isScoped model then none else table.entry model).or
      ((table.entry (normalizeModelId model)).or
        (lastMaxBy (fun entry ↦ (normalizeModelId entry.1).utf8ByteSize)
          (table.candidates (normalizeModelId model)))) = some found) :
    table.models.lookup found.1 = some found.2 ∧ isScoped found.1 = false := by
  obtain hid | ⟨-, hrest⟩ := Option.or_eq_some_iff.mp h
  · by_cases hscoped : isScoped model = true
    · rw [if_pos hscoped] at hid
      nomatch hid
    · rw [if_neg hscoped, entry_eq_some] at hid
      exact ⟨hid.2, hid.1 ▸ Bool.eq_false_iff.mpr hscoped⟩
  · obtain hnormal | ⟨-, hlast⟩ := Option.or_eq_some_iff.mp hrest
    · rw [entry_eq_some] at hnormal
      have hunscoped := isScoped_normalizeModelId model
      rw [← hnormal.1] at hunscoped
      exact ⟨hnormal.2, hunscoped⟩
    · have hcandidate := mem_candidates.mp (lastMaxBy_spec hlast).1
      exact ⟨hcandidate.stored, hcandidate.unscoped⟩

theorem modelPrice_stored {model : String} {found : String × ModelPrice}
    (h : table.modelPrice model = some found) : table.models.lookup found.1 = some found.2 := by
  rw [modelPrice] at h
  obtain hid | ⟨-, hrest⟩ := Option.or_eq_some_iff.mp h
  · exact (entry_eq_some.mp hid).2
  · obtain hnormal | ⟨-, hlast⟩ := Option.or_eq_some_iff.mp hrest
    · exact (entry_eq_some.mp hnormal).2
    · exact (mem_candidates.mp (lastMaxBy_spec hlast).1).stored

theorem modelPriceForUpstream_source {upstream model : String} {found : String × ModelPrice}
    (h : table.modelPriceForUpstream upstream model = some found) :
    table.models.lookup found.1 = some found.2 ∧
      (found.1 = scopedKey upstream model ∨ isScoped found.1 = false) := by
  rw [modelPriceForUpstream, unscoped_eq] at h
  obtain hown | ⟨-, hrest⟩ := Option.or_eq_some_iff.mp h
  · rw [entry_eq_some] at hown
    exact ⟨hown.2, Or.inl hown.1⟩
  · obtain ⟨hstored, hunscoped⟩ := unscoped_source hrest
    exact ⟨hstored, Or.inr hunscoped⟩

/-- What is left when neither id is a key. -/
theorem modelPriceForUpstream_eq_lastMaxBy {upstream model : String}
    (hown : table.models.lookup (scopedKey upstream model) = none)
    (hid : isScoped model = true ∨ table.models.lookup model = none)
    (hnormal : table.models.lookup (normalizeModelId model) = none) :
    table.modelPriceForUpstream upstream model =
      lastMaxBy (fun entry ↦ (normalizeModelId entry.1).utf8ByteSize)
        (table.candidates (normalizeModelId model)) := by
  rw [modelPriceForUpstream, unscoped_eq, entry_eq_none.mpr hown, Option.none_or,
    unscopedId_eq_none hid, Option.none_or, entry_eq_none.mpr hnormal, Option.none_or]

/-! ### Other tables -/

/-- A filter of the members sees only the keys that it lets through. -/
theorem filter_members_congr {models models' : Prices} {keeps : String × ModelPrice → Bool}
    (h : ∀ key, models.lookup key = models'.lookup key ∨ ∀ price, keeps (key, price) = false) :
    (ClientConfig.members models).filter keeps = (ClientConfig.members models').filter keeps := by
  have hkey : ∀ (prices : Prices) (key : String),
      ((ClientConfig.members prices).filter keeps).filter (fun entry ↦ entry.1 = key) =
        ((prices.lookup key).toList.map fun price ↦ (key, price)).filter keeps := by
    intro prices key
    rw [List.filter_comm, ClientConfig.members_filter]
  refine @eq_of_filter_eq _ _ _ Prod.fst _ _ ((ClientConfig.members_pairwise _).filter _)
    ((ClientConfig.members_pairwise _).filter _) fun key ↦ ?_
  rw [hkey, hkey]
  obtain hsame | hdropped := h key
  · rw [hsame]
  · have hnone : ∀ found : Option ModelPrice,
        (found.toList.map fun price ↦ (key, price)).filter keeps = [] := by
      intro found
      cases found with
      | none => rfl
      | some price =>
        rw [Option.toList_some, List.map_singleton, List.filter_singleton, hdropped]
        rfl
    rw [hnone, hnone]

/-- The lookup sees one scoped key, and the unscoped ones. -/
theorem modelPriceForUpstream_congr {table table' : PricingConfig} {upstream model : String}
    (h : ∀ key, key = scopedKey upstream model ∨ isScoped key = false →
      table.models.lookup key = table'.models.lookup key) :
    table.modelPriceForUpstream upstream model = table'.modelPriceForUpstream upstream model := by
  have hentry : ∀ key, key = scopedKey upstream model ∨ isScoped key = false →
      table.entry key = table'.entry key := fun key hkey ↦ by rw [entry, entry, h key hkey]
  have hcandidates : table.candidates (normalizeModelId model) =
      table'.candidates (normalizeModelId model) := by
    refine filter_members_congr fun key ↦ ?_
    by_cases hscoped : isScoped key = true
    · exact Or.inr fun price ↦ by rw [hscoped]; rfl
    · exact Or.inl (h key (Or.inr (Bool.eq_false_iff.mpr hscoped)))
  rw [modelPriceForUpstream, modelPriceForUpstream, unscoped_eq, unscoped_eq,
    hentry _ (Or.inl rfl), hentry _ (Or.inr (isScoped_normalizeModelId model)), hcandidates]
  by_cases hscoped : isScoped model = true
  · rw [if_pos hscoped, if_pos hscoped]
  · rw [if_neg hscoped, if_neg hscoped, hentry model (Or.inr (Bool.eq_false_iff.mpr hscoped))]

end PricingConfig

/-! ## The law -/

theorem slash_not_mem_name (upstream : UpstreamRef) : '/' ∉ upstream.name.toList := by
  intro hmem
  have hshaped := upstream.shaped
  rw [isReferenceName] at hshaped
  split at hshaped
  · nomatch hshaped
  next first rest hname =>
    rw [hname] at hmem
    rw [Bool.and_eq_true, List.all_eq_true] at hshaped
    obtain rfl | hrest := List.mem_cons.mp hmem
    · exact absurd hshaped.1 (by decide)
    · exact absurd (hshaped.2 '/' hrest) (by decide)

theorem isScoped_scopedKey (upstream model : String) :
    isScoped (scopedKey upstream model) = true := by
  rw [isScoped, List.contains_iff_mem, scopedKey, String.toList_append, String.toList_append]
  exact List.mem_append_left _ (List.mem_append_right _ List.mem_cons_self)

/-- A scoped key names its upstream. -/
theorem eq_of_scopedKey_eq {upstream other : UpstreamRef} {model rest : String}
    (h : scopedKey other.name rest = scopedKey upstream.name model) : other = upstream := by
  have hsplit : ∀ (name : UpstreamRef) (tail : String),
      splitOnce (· == '/') (scopedKey name.name tail).toList =
        some (name.name.toList, tail.toList) := by
    intro name tail
    rw [scopedKey, String.toList_append, String.toList_append, List.append_assoc]
    refine splitOnce_append (fun c hc ↦ ?_) rfl
    rw [beq_eq_false_iff_ne]
    rintro rfl
    exact slash_not_mem_name name hc
  have heq := (hsplit other rest).symm.trans ((congrArg _ (congrArg String.toList h)).trans
    (hsplit upstream model))
  have hname : other.name = upstream.name :=
    String.toList_injective (Prod.mk.inj (Option.some.inj heq)).1
  cases other
  cases upstream
  obtain rfl := hname
  rfl

namespace PricingConfig

/-- What is asked of the lookup for a model on an upstream. -/
structure ScopedLookup (table : PricingConfig) (upstream : UpstreamRef) (model : String) :
    Prop where
  source : ∀ found, table.modelPriceForUpstream upstream.name model = some found →
    table.models.lookup found.1 = some found.2 ∧
      (found.1 = scopedKey upstream.name model ∨ isScoped found.1 = false)
  ownKey : ∀ price, table.models.lookup (scopedKey upstream.name model) = some price →
    table.modelPriceForUpstream upstream.name model = some (scopedKey upstream.name model, price)
  exactId : table.models.lookup (scopedKey upstream.name model) = none → isScoped model = false →
    ∀ price, table.models.lookup model = some price →
      table.modelPriceForUpstream upstream.name model = some (model, price)
  normalized : table.models.lookup (scopedKey upstream.name model) = none →
    (isScoped model = true ∨ table.models.lookup model = none) →
    ∀ price, table.models.lookup (normalizeModelId model) = some price →
      table.modelPriceForUpstream upstream.name model = some (normalizeModelId model, price)
  /-- The longest candidate, if there is one. -/
  candidate : table.models.lookup (scopedKey upstream.name model) = none →
    (isScoped model = true ∨ table.models.lookup model = none) →
    table.models.lookup (normalizeModelId model) = none →
    (∀ found, table.modelPriceForUpstream upstream.name model = some found →
      table.IsCandidate model found ∧ ∀ other, table.IsCandidate model other →
        (normalizeModelId other.1).utf8ByteSize ≤ (normalizeModelId found.1).utf8ByteSize) ∧
    (table.modelPriceForUpstream upstream.name model = none →
      ∀ found, ¬ table.IsCandidate model found)
  /-- The keys of other upstreams do not matter. -/
  foreign : ∀ (other : UpstreamRef) (rest : String), other ≠ upstream →
    (∀ price, { table with models := table.models.insert (scopedKey other.name rest) price
      }.modelPriceForUpstream upstream.name model =
        table.modelPriceForUpstream upstream.name model) ∧
    { table with models := table.models.erase (scopedKey other.name rest)
      }.modelPriceForUpstream upstream.name model = table.modelPriceForUpstream upstream.name model

/-- A table that differs in the key of another upstream only. -/
theorem modelPriceForUpstream_foreign {table : PricingConfig} {models : Prices}
    {upstream other : UpstreamRef}
    (model rest : String) (hother : other ≠ upstream)
    (h : ∀ key, key ≠ scopedKey other.name rest → models.lookup key = table.models.lookup key) :
    modelPriceForUpstream { table with models } upstream.name model =
      table.modelPriceForUpstream upstream.name model := by
  apply modelPriceForUpstream_congr
  intro key hkey
  apply h
  rintro rfl
  obtain hown | hunscoped := hkey
  · exact hother (eq_of_scopedKey_eq hown)
  · rw [isScoped_scopedKey] at hunscoped
    nomatch hunscoped

/-- A price of one upstream never prices another. -/
theorem scopedLookup (table : PricingConfig) (upstream : UpstreamRef) (model : String) :
    table.ScopedLookup upstream model := by
  constructor
  · exact fun found ↦ modelPriceForUpstream_source
  · intro price hprice
    rw [modelPriceForUpstream, entry_of_lookup hprice, Option.some_or]
  · intro hown hunscoped price hprice
    rw [modelPriceForUpstream, unscoped_eq, entry_eq_none.mpr hown, Option.none_or, hunscoped,
      if_neg Bool.false_ne_true, entry_of_lookup hprice, Option.some_or]
  · intro hown hid price hprice
    rw [modelPriceForUpstream, unscoped_eq, entry_eq_none.mpr hown, Option.none_or,
      unscopedId_eq_none hid, Option.none_or, entry_of_lookup hprice, Option.some_or]
  · intro hown hid hnormal
    rw [modelPriceForUpstream_eq_lastMaxBy hown hid hnormal]
    constructor
    · intro found hfound
      obtain ⟨hmem, hmax⟩ := lastMaxBy_spec hfound
      exact ⟨mem_candidates.mp hmem, fun rival hrival ↦ hmax rival (mem_candidates.mpr hrival)⟩
    · intro hnone found hfound
      have hmem := mem_candidates.mpr hfound
      rw [lastMaxBy_eq_none hnone] at hmem
      nomatch hmem
  · intro other rest hother
    constructor
    · exact fun price ↦ modelPriceForUpstream_foreign model rest hother
        fun key hkey ↦ AList.lookup_insert_ne hkey
    · exact modelPriceForUpstream_foreign model rest hother
        fun key hkey ↦ AList.lookup_erase_ne hkey

end PricingConfig

end TokenStation
