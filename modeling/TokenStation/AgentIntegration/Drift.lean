import TokenStation.AgentIntegration.ConfigDocument
import TokenStation.AgentIntegration.JsonRestore
import TokenStation.AgentIntegration.OwnedValues

/-!
# The report on a file that has changed

A connected file that is not as it was written is compared twice: its owned values with the digests
on record, and everything else with the baseline. The second comparison walks down two documents at
once, leaves the owned subtrees out, and stops when the list is full.
-/

namespace TokenStation

open Library Json

/-! ## Documents that are the same -/

namespace Json

mutual

/-- Equality of documents. -/
def same : JsonValue → JsonValue → Bool
  | .null, .null => true
  | .bool value, .bool value' => value == value'
  | .number literal, .number literal' => literal == literal'
  | .string text, .string text' => text == text'
  | .array items, .array items' => sameItems items items'
  | .object members, .object members' => sameMembers members members'
  | _, _ => false

def sameItems : List JsonValue → List JsonValue → Bool
  | [], [] => true
  | item :: items, item' :: items' => same item item' && sameItems items items'
  | _, _ => false

def sameMembers : List (String × JsonValue) → List (String × JsonValue) → Bool
  | [], [] => true
  | (key, value) :: members, (key', value') :: members' =>
    key == key' && same value value' && sameMembers members members'
  | _, _ => false

end

mutual

theorem same_iff : ∀ {value value' : JsonValue}, same value value' = true ↔ value = value'
  | .null, value' => by
    rcases value' <;> simp [same]
  | .bool _, value' => by
    rcases value' <;> simp [same]
  | .number _, value' => by
    rcases value' <;> simp [same]
  | .string _, value' => by
    rcases value' <;> simp [same]
  | .array items, value' => by
    rcases value' with - | - | - | - | items' | -
    case array =>
      rw [same, JsonValue.array.injEq]
      exact sameItems_iff
    all_goals simp [same]
  | .object members, value' => by
    rcases value' with - | - | - | - | - | members'
    case object =>
      rw [same, JsonValue.object.injEq]
      exact sameMembers_iff
    all_goals simp [same]

theorem sameItems_iff : ∀ {items items' : List JsonValue},
    sameItems items items' = true ↔ items = items'
  | [], items' => by
    rcases items' <;> simp [sameItems]
  | item :: items, items' => by
    rcases items' with - | ⟨item', items'⟩
    · simp [sameItems]
    · rw [sameItems, Bool.and_eq_true, List.cons.injEq]
      exact and_congr same_iff sameItems_iff

theorem sameMembers_iff : ∀ {members members' : List (String × JsonValue)},
    sameMembers members members' = true ↔ members = members'
  | [], members' => by
    rcases members' <;> simp [sameMembers]
  | (key, value) :: members, members' => by
    rcases members' with - | ⟨⟨key', value'⟩, members'⟩
    · simp [sameMembers]
    · rw [sameMembers, Bool.and_eq_true, Bool.and_eq_true, beq_iff_eq, List.cons.injEq,
        Prod.mk.injEq]
      exact and_congr (and_congr Iff.rfl same_iff) sameMembers_iff

end

end Json

/-! ## The report -/

inductive DriftStatus where
  | unmanaged
  | inSync
  | unownedChanges
  | managedChanges
  | missing
  | unreadable
  | unparseable
  deriving DecidableEq, Repr

inductive DriftScope where
  | managed
  | unowned
  deriving DecidableEq, Repr

inductive DriftChangeKind where
  | added
  | removed
  | changed
  deriving DecidableEq, Repr

structure DriftChange where
  path : ConfigPath
  scope : DriftScope
  kind : DriftChangeKind
  currentMatchesManaged : Option Bool
  deriving DecidableEq, Repr

structure AgentDriftView where
  agentId : String
  installationPath : String
  targetConfigPath : String
  connectorId : String
  status : DriftStatus
  baselineHash : String
  managedHash : String
  currentHash : Option String
  checkedAtMs : ℕ
  changes : List DriftChange
  truncated : Bool
  message : String
  deriving DecidableEq, Repr

namespace Drift

def maxChanges : ℕ := 200
def maxPathSegmentChars : ℕ := 128

/-- `char::is_control`. -/
def isControl (c : Char) : Bool := c.toNat < 32 || (127 ≤ c.toNat && c.toNat < 160)

/-- What of a segment is shown. -/
def sanitizeSegment (segment : String) : String :=
  let shown := segment.toList.filter fun c ↦ !isControl c
  String.ofList (shown.take maxPathSegmentChars
    ++ if maxPathSegmentChars < shown.length then ['…'] else [])

def sanitizedPath (path : ConfigPath) : ConfigPath := ⟨path.segments.map sanitizeSegment⟩

def pathIsOwned (path : List String) (ownedPaths : List ConfigPath) : Bool :=
  ownedPaths.any fun owned ↦ owned.segments.isPrefixOf path

/-- The list so far, and whether it is cut off. -/
structure Collected where
  changes : List DriftChange
  truncated : Bool

/-- `push_unowned`. -/
def Collected.pushUnowned (found : Collected) (path : List String) (kind : DriftChangeKind) :
    Collected :=
  { found with changes := found.changes ++ [⟨sanitizedPath ⟨path⟩, .unowned, kind, none⟩] }

/-- The keys of two objects, in order and none twice. -/
def unionKeys (left right : List (String × JsonValue)) : List String :=
  (sortByKey (fun key : String ↦ key) ((left ++ right).map Prod.fst)).destutter (· ≠ ·)

mutual

/-- `collect_unowned_changes`. -/
def collectUnownedChanges (ownedPaths : List ConfigPath) (baseline current : JsonValue)
    (path : List String) (found : Collected) : Collected :=
  if same baseline current || pathIsOwned path ownedPaths then found
  else if maxChanges ≤ found.changes.length then { found with truncated := true }
  else
    match baseline, current with
    | .object left, .object right =>
      collectMembers ownedPaths left right path found (unionKeys left right)
    | _, _ => found.pushUnowned path .changed
termination_by (sizeOf baseline, 1, 0)
decreasing_by
  exact Prod.Lex.right _ (Prod.Lex.left _ _ (by omega))

/-- The keys from the first on. -/
def collectMembers (ownedPaths : List ConfigPath) (left right : List (String × JsonValue))
    (path : List String) (found : Collected) : List String → Collected
  | [] => found
  | key :: keys =>
    if maxChanges ≤ found.changes.length then { found with truncated := true }
    else if pathIsOwned (path ++ [key]) ownedPaths then
      collectMembers ownedPaths left right path found keys
    else
      match _hbefore : left.lookup key, right.lookup key with
      | some before, some after =>
        collectMembers ownedPaths left right path
          (collectUnownedChanges ownedPaths before after (path ++ [key]) found) keys
      | none, some _ =>
        collectMembers ownedPaths left right path (found.pushUnowned (path ++ [key]) .added) keys
      | some _, none =>
        collectMembers ownedPaths left right path (found.pushUnowned (path ++ [key]) .removed) keys
      | none, none => collectMembers ownedPaths left right path found keys
termination_by keys => (sizeOf (JsonValue.object left), 0, keys.length)
decreasing_by
  all_goals first
    | exact Prod.Lex.right _ (Prod.Lex.right _ (Nat.lt_succ_self _))
    | exact Prod.Lex.left _ _ (sizeOf_lookup_lt (by assumption))

end

section Analyze

variable {Document : Type} (documents : Documents Document)

/-- What a report says besides its findings. -/
def view (ownership : OwnershipRecord) (status : DriftStatus) (currentHash : String)
    (checkedAtMs : ℕ) (found : Collected) (message : String) : AgentDriftView where
  agentId := ownership.agentId
  installationPath := ownership.installationPath
  targetConfigPath := ownership.targetConfigPath
  connectorId := ownership.connectorId
  status := status
  baselineHash := ownership.beforeHash
  managedHash := ownership.managedAfterHash
  currentHash := some currentHash
  checkedAtMs := checkedAtMs
  changes := found.changes
  truncated := found.truncated
  message := message

/-- An owned path whose digest is not the one on record. -/
def managedChange (ownership : OwnershipRecord) (current : JsonValue) (currentMacs : ValueMacs)
    (path : ConfigPath) : Option DriftChange :=
  if currentMacs.lookup path.toText == ownership.ownedValueMacs.lookup path.toText then none
  else some ⟨sanitizedPath path, .managed,
    if (valueAt current path.segments).isNone then .removed else .changed, some false⟩

def analyzeDrift (ownership : OwnershipRecord) (baseline current : Document)
    (currentHash : String) (key : MasterKey) (checkedAtMs : ℕ) : Except String AgentDriftView :=
  if currentHash.utf8ByteSize ≠ 64 then .error "current 配置 hash 无效"
  else if currentHash = ownership.managedAfterHash then
    .ok (view ownership .inSync currentHash checkedAtMs ⟨[], false⟩
      "当前磁盘配置与 Token Station 最后写入版本一致")
  else do
    let baseline ← documents.semanticJson baseline
    let currentJson ← documents.semanticJson current
    let currentMacs ← computeOwnedValueMacs documents current ownership.ownedPaths key
    let managed := ownership.ownedPaths.filterMap (managedChange ownership currentJson currentMacs)
    let found := collectUnownedChanges ownership.ownedPaths baseline currentJson [] ⟨managed, false⟩
    .ok (view ownership (if managed.isEmpty then .unownedChanges else .managedChanges) currentHash
      checkedAtMs found
      (if !managed.isEmpty then "外部修改触及 Token Station 受管字段"
        else if found.changes.isEmpty then "文件字节或元数据已变化，但结构化字段语义未变化"
        else "外部修改仅涉及非受管字段"))

end Analyze

/-! ## What is reported outside of the owned paths -/

theorem pathIsOwned_iff {path : List String} {ownedPaths : List ConfigPath} :
    pathIsOwned path ownedPaths = true ↔ Inside ownedPaths path := by
  rw [pathIsOwned, List.any_eq_true, Inside]
  simp only [List.isPrefixOf_iff_prefix]

/-- Unowned changes alone are added to a list, and none if nothing is to be reported, as long as the
list is not cut off. -/
structure Reports (found found' : Collected) (quiet : Prop) : Prop where
  added : ∃ new, found'.changes = found.changes ++ new ∧
    (∀ change ∈ new, change.scope = .unowned) ∧ (found'.truncated = false → (new = [] ↔ quiet))
  truncated : found.truncated = true → found'.truncated = true

theorem Reports.refl (found : Collected) : Reports found found True :=
  ⟨⟨[], (List.append_nil _).symm, fun _ hmem ↦ (nomatch hmem), fun _ ↦ iff_of_true rfl trivial⟩, id⟩

theorem Reports.push (found : Collected) (path : List String) (kind : DriftChangeKind) :
    Reports found (found.pushUnowned path kind) False := by
  refine ⟨⟨_, rfl, fun change hmem ↦ ?_, fun _ ↦ iff_of_false (List.cons_ne_nil _ _) id⟩, id⟩
  rw [List.mem_singleton.mp hmem]

theorem Reports.cut (found : Collected) (quiet : Prop) :
    Reports found { found with truncated := true } quiet :=
  ⟨⟨[], (List.append_nil _).symm, fun _ hmem ↦ (nomatch hmem), fun h ↦ nomatch h⟩, fun _ ↦ rfl⟩

theorem Reports.trans {found found' found'' : Collected} {quiet quiet' : Prop}
    (h : Reports found found' quiet) (h' : Reports found' found'' quiet') :
    Reports found found'' (quiet ∧ quiet') := by
  obtain ⟨new, hnew, hscope, hquiet⟩ := h.added
  obtain ⟨new', hnew', hscope', hquiet'⟩ := h'.added
  refine ⟨⟨new ++ new', ?_, ?_, fun hfull ↦ ?_⟩, fun hcut ↦ h'.truncated (h.truncated hcut)⟩
  · rw [hnew', hnew, List.append_assoc]
  · intro change hmem
    exact (List.mem_append.mp hmem).elim (hscope change) (hscope' change)
  · have hbefore : found'.truncated = false := by
      by_contra hcut
      rw [h'.truncated (Bool.eq_true_of_not_eq_false hcut)] at hfull
      nomatch hfull
    rw [List.append_eq_nil_iff, hquiet hbefore, hquiet' hfull]

theorem Reports.congr {found found' : Collected} {quiet quiet' : Prop}
    (h : Reports found found' quiet) (hiff : quiet ↔ quiet') : Reports found found' quiet' := by
  rwa [← hiff]

/-- The documents below a path are the same but for the owned paths. -/
def SameOutside (ownedPaths : List ConfigPath) (baseline current : PathTree String JsonValue)
    (path : List String) : Prop :=
  ∀ lower, ¬ Inside ownedPaths (path ++ lower) → current lower = baseline lower

/-- What is to be the same at one key. -/
def SameChild (ownedPaths : List ConfigPath) (path : List String) (key : String)
    (before after : Option JsonValue) : Prop :=
  ¬ Inside ownedPaths (path ++ [key]) →
    match before, after with
    | some before, some after => SameOutside ownedPaths (Json.view before) (Json.view after)
        (path ++ [key])
    | none, none => True
    | _, _ => False

theorem inside_append {ownedPaths : List ConfigPath} {path lower : List String}
    (h : Inside ownedPaths path) : Inside ownedPaths (path ++ lower) := by
  obtain ⟨owned, howned, hle⟩ := h
  exact ⟨owned, howned, hle.trans (List.prefix_append _ _)⟩

theorem sameOutside_of_inside {ownedPaths : List ConfigPath}
    {baseline current : PathTree String JsonValue} {path : List String}
    (h : Inside ownedPaths path) : SameOutside ownedPaths baseline current path :=
  fun _ hnot ↦ absurd (inside_append h) hnot

theorem sameOutside_object_iff {ownedPaths : List ConfigPath}
    {left right : List (String × JsonValue)} {path : List String} :
    SameOutside ownedPaths (Json.view (.object left)) (Json.view (.object right)) path ↔
      ∀ key, SameChild ownedPaths path key (left.lookup key) (right.lookup key) := by
  constructor
  · intro hsame key hnot
    have hbelow (lower : List String) (hlower : ¬ Inside ownedPaths (path ++ [key] ++ lower)) :=
      hsame (key :: lower) (by rwa [List.append_assoc] at hlower)
    have hhere := hbelow [] (by rwa [List.append_nil])
    rw [view_object_cons, view_object_cons] at hhere
    rcases hleft : left.lookup key with - | before
    · rcases hright : right.lookup key with - | after
      · trivial
      · rw [hleft, hright, Option.bind_some, view_nil] at hhere
        nomatch hhere
    · rcases hright : right.lookup key with - | after
      · rw [hleft, hright, Option.bind_some, view_nil] at hhere
        nomatch hhere
      · intro lower hlower
        have hat := hbelow lower hlower
        rwa [view_object_cons, view_object_cons, hleft, hright, Option.bind_some,
          Option.bind_some] at hat
  · intro hsame lower hlower
    rcases lower with - | ⟨key, lower⟩
    · rfl
    · have hkey := hsame key fun hin ↦ hlower (by
        have hbelow : Inside ownedPaths (path ++ [key] ++ lower) := inside_append hin
        rwa [List.append_assoc] at hbelow)
      rw [view_object_cons, view_object_cons]
      rcases hleft : left.lookup key with - | before
      · rcases hright : right.lookup key with - | after
        · rfl
        · rw [hleft, hright] at hkey
          exact hkey.elim
      · rcases hright : right.lookup key with - | after
        · rw [hleft, hright] at hkey
          exact hkey.elim
        · rw [hleft, hright] at hkey
          exact hkey lower (by rwa [List.append_assoc])

theorem mem_unionKeys {left right : List (String × JsonValue)} {key : String}
    (h : left.lookup key ≠ none ∨ right.lookup key ≠ none) : key ∈ unionKeys left right := by
  have hmem : key ∈ sortByKey (fun key : String ↦ key) ((left ++ right).map Prod.fst) := by
    rw [mem_sortByKey, List.mem_map]
    rcases h with hleft | hright
    · obtain ⟨value, hvalue⟩ := Option.ne_none_iff_exists'.mp hleft
      exact ⟨(key, value), List.mem_append_left _ (mem_of_lookup hvalue), rfl⟩
    · obtain ⟨value, hvalue⟩ := Option.ne_none_iff_exists'.mp hright
      exact ⟨(key, value), List.mem_append_right _ (mem_of_lookup hvalue), rfl⟩
  obtain ⟨found, hfound, rfl⟩ := exists_mem_destutter (fun key : String ↦ key) hmem
  exact hfound

/-- One key after the other, where the children are compared as they should be. -/
theorem reports_collectMembers {ownedPaths : List ConfigPath}
    {left right : List (String × JsonValue)} {path : List String}
    (hchildren : ∀ key before after, left.lookup key = some before →
      right.lookup key = some after → ∀ found,
        Reports found (collectUnownedChanges ownedPaths before after (path ++ [key]) found)
          (SameOutside ownedPaths (Json.view before) (Json.view after) (path ++ [key])))
    (keys : List String) (found : Collected) :
    Reports found (collectMembers ownedPaths left right path found keys)
      (∀ key ∈ keys, SameChild ownedPaths path key (left.lookup key) (right.lookup key)) := by
  induction keys generalizing found with
  | nil =>
    rw [collectMembers]
    exact (Reports.refl found).congr (iff_of_true trivial fun _ hmem ↦ nomatch hmem)
  | cons key keys ih =>
    simp only [List.forall_mem_cons]
    rw [collectMembers]
    split
    · exact Reports.cut found _
    · split
      next howned =>
        refine (ih found).congr (and_iff_right fun hnot ↦ ?_).symm
        exact absurd (pathIsOwned_iff.mp howned) hnot
      next hnotOwned =>
        have hnot : ¬ Inside ownedPaths (path ++ [key]) := fun hin ↦
          hnotOwned (pathIsOwned_iff.mpr hin)
        split
        next before after hbefore hafter =>
          refine ((hchildren key before after hbefore hafter found).trans (ih _)).congr ?_
          rw [SameChild.eq_def, hbefore, hafter]
          exact and_congr_left fun _ ↦ ⟨fun hsame _ ↦ hsame, fun hsame ↦ hsame hnot⟩
        next hbefore hafter =>
          refine ((Reports.push found _ _).trans (ih _)).congr (and_congr_left fun _ ↦ ?_)
          rw [SameChild.eq_def, hbefore, hafter]
          exact ⟨False.elim, fun hsame ↦ hsame hnot⟩
        next hbefore hafter =>
          refine ((Reports.push found _ _).trans (ih _)).congr (and_congr_left fun _ ↦ ?_)
          rw [SameChild.eq_def, hbefore, hafter]
          exact ⟨False.elim, fun hsame ↦ hsame hnot⟩
        next hbefore hafter =>
          refine (ih found).congr (and_iff_right ?_).symm
          rw [SameChild.eq_def, hbefore, hafter]
          exact fun _ ↦ trivial

/-- **Nothing is reported just when the documents are the same outside of the owned paths.** -/
theorem reports_collectUnownedChanges {ownedPaths : List ConfigPath} {baseline current : JsonValue}
    (hbaseline : Ordered baseline) (hcurrent : Ordered current) (path : List String)
    (found : Collected) :
    Reports found (collectUnownedChanges ownedPaths baseline current path found)
      (SameOutside ownedPaths (Json.view baseline) (Json.view current) path) := by
  induction hsize : sizeOf baseline using Nat.strong_induction_on
    generalizing baseline current path found with
  | _ size ih =>
    rw [collectUnownedChanges.eq_def]
    split
    next hskip =>
      refine (Reports.refl found).congr (iff_of_true trivial ?_)
      rcases Bool.or_eq_true _ _ |>.mp hskip with hsame | howned
      · rw [same_iff.mp hsame]
        exact fun _ _ ↦ rfl
      · exact sameOutside_of_inside (pathIsOwned_iff.mp howned)
    next hgo =>
      rw [Bool.or_eq_true, not_or, same_iff, pathIsOwned_iff] at hgo
      obtain ⟨hne, hnot⟩ := hgo
      split
      · exact Reports.cut found _
      · split
        next left right =>
          refine (reports_collectMembers (fun key before after hbefore hafter found ↦ ?_) _ _).congr
            ?_
          · exact ih _ (hsize ▸ sizeOf_lookup_lt hbefore)
              ((ordered_object_iff.mp hbaseline).2 key before hbefore)
              ((ordered_object_iff.mp hcurrent).2 key after hafter) _ found rfl
          · rw [sameOutside_object_iff]
            refine ⟨fun hall key ↦ ?_, fun hall key _ ↦ hall key⟩
            by_cases hkey : left.lookup key ≠ none ∨ right.lookup key ≠ none
            · exact hall key (mem_unionKeys hkey)
            · rw [not_or, not_not, not_not] at hkey
              rw [hkey.1, hkey.2]
              exact fun _ ↦ trivial
        next hobjects =>
          -- the roots differ, and one of them is not an object
          refine (Reports.push found _ _).congr (iff_of_false id fun hsame ↦ ?_)
          have hroot := hsame [] (by rwa [List.append_nil])
          rw [view_nil, view_nil] at hroot
          have hnode := Option.some.inj hroot
          by_cases hbranch : node baseline = .branch
          · obtain ⟨left, rfl⟩ := node_eq_branch.mp hbranch
            obtain ⟨right, rfl⟩ := node_eq_branch.mp (hnode.trans hbranch)
            exact hobjects left right rfl rfl
          · exact hne (eq_of_node_eq hnode.symm hbranch)

/-! ## What is reported of the owned paths -/

theorem lookup_insertMac (path mac : String) (macs : ValueMacs) (text : String) :
    (insertMac path mac macs).lookup text = if text = path then some mac else macs.lookup text := by
  induction macs with
  | nil =>
    rw [insertMac, lookup_cons_eq]
  | cons first macs ih =>
    obtain ⟨found, old⟩ := first
    rw [insertMac]
    split
    · rw [lookup_cons_eq]
    · split
      next heq =>
        rw [lookup_cons_eq, lookup_cons_eq, heq]
        by_cases htext : text = found
        · rw [if_pos htext, if_pos htext]
        · rw [if_neg htext, if_neg htext, if_neg htext]
      next hne =>
        rw [lookup_cons_eq, lookup_cons_eq, ih]
        by_cases htext : text = found
        · rw [if_pos htext, if_neg fun heq ↦ hne (heq.symm.trans htext), if_pos htext]
        · rw [if_neg htext, if_neg htext]

/-- The digests of paths with texts of their own. -/
theorem lookup_addOwnedValueMacs {Document : Type} {documents : Documents Document}
    {key : MasterKey} {canonical : JsonValue} {paths : List ConfigPath} {macs macs' : ValueMacs}
    (hdistinct : paths.Pairwise fun path other ↦ path.toText ≠ other.toText)
    (h : addOwnedValueMacs documents key canonical macs paths = .ok macs') :
    (∀ path ∈ paths, ∃ mac, ownedValueMac documents key canonical path = .ok mac ∧
        macs'.lookup path.toText = some mac) ∧
      ∀ text, (∀ path ∈ paths, path.toText ≠ text) → macs'.lookup text = macs.lookup text := by
  induction paths generalizing macs with
  | nil =>
    obtain rfl := Except.ok.inj h
    exact ⟨fun _ hmem ↦ (nomatch hmem), fun _ _ ↦ rfl⟩
  | cons path paths ih =>
    obtain ⟨hfirst, hrest⟩ := List.pairwise_cons.mp hdistinct
    rw [addOwnedValueMacs] at h
    split at h
    · nomatch h
    next mac hmac =>
      obtain ⟨hmacs, hothers⟩ := ih hrest h
      refine ⟨List.forall_mem_cons.mpr ⟨⟨mac, hmac, ?_⟩, hmacs⟩, fun text htext ↦ ?_⟩
      · rw [hothers _ fun other hother heq ↦ hfirst other hother heq.symm, lookup_insertMac,
          if_pos rfl]
      · obtain ⟨hhere, hbelow⟩ := List.forall_mem_cons.mp htext
        rw [hothers text hbelow, lookup_insertMac, if_neg (Ne.symm hhere)]

/-- Values that can be written as bytes have digests. -/
theorem exists_addOwnedValueMacs {Document : Type} (documents : Documents Document)
    (hjson : ∀ value, ∃ bytes, documents.jsonBytes value = .ok bytes) (key : MasterKey)
    (canonical : JsonValue) (paths : List ConfigPath) (macs : ValueMacs) :
    ∃ macs', addOwnedValueMacs documents key canonical macs paths = .ok macs' := by
  induction paths generalizing macs with
  | nil => exact ⟨macs, rfl⟩
  | cons path paths ih =>
    have hmac : ∃ mac, ownedValueMac documents key canonical path = .ok mac := by
      rw [ownedValueMac]
      rcases semanticValueForMac canonical path with - | value
      · exact ⟨_, rfl⟩
      · obtain ⟨bytes, hbytes⟩ := hjson value
        simp only [hbytes]
        exact ⟨_, rfl⟩
    obtain ⟨mac, hmac⟩ := hmac
    rw [addOwnedValueMacs, hmac]
    exact ih _

theorem not_slash_of_valid {segment : String} (h : isValidSegment segment = true) :
    '/' ∉ segment.toList := by
  intro hmem
  rw [isValidSegment, Bool.not_eq_true', Bool.or_eq_false_iff] at h
  have hall := List.any_eq_false.mp h.2 '/' hmem
  exact hall rfl

/-- A path that can be named is known by its text. -/
theorem toText_injective {path other : ConfigPath} (hne : path.segments ≠ [])
    (hne' : other.segments ≠ []) (hvalid : path.segments.all isValidSegment = true)
    (hvalid' : other.segments.all isValidSegment = true) (h : path.toText = other.toText) :
    path = other := by
  have hsplit {segments : List String} (hsegments : segments ≠ [])
      (hall : segments.all isValidSegment = true) :
      ("/".intercalate segments).toList.splitOn '/' = segments.map String.toList := by
    rw [String.toList_intercalate]
    refine List.splitOn_intercalate '/' (fun chars hchars ↦ ?_) (by simpa using hsegments)
    obtain ⟨segment, hsegment, rfl⟩ := List.mem_map.mp hchars
    exact not_slash_of_valid (List.all_eq_true.mp hall segment hsegment)
  obtain ⟨segments⟩ := path
  obtain ⟨others⟩ := other
  have htexts : "/".intercalate segments = "/".intercalate others := by
    have hlists := congrArg String.toList h
    rw [ConfigPath.toText, ConfigPath.toText, String.toList_append, String.toList_append] at hlists
    exact String.toList_injective (List.append_cancel_left hlists)
  have hmaps : segments.map String.toList = others.map String.toList := by
    rw [← hsplit hne hvalid, ← hsplit hne' hvalid', htexts]
  rw [List.map_injective_iff.mpr (fun _ _ heq ↦ String.toList_injective heq) hmaps]

end Drift

end TokenStation
