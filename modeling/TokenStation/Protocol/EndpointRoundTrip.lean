import TokenStation.Protocol.Provider

/-!
# Endpoints read back

An endpoint is saved and handed to an adapter as the text `asStr`, and parsed again on the other
side. The origin reads back as it is. The path reads back unless it still ends in an API path: the
parser cuts one API path off, so that a URL that ends in two of them is cut again each time it is
read. The targets of the APIs always read back as their root.
-/

namespace TokenStation

open Library UrlPath

/-! ## Cutting an ending off -/

theorem trimSlashes_eq_self {path : List Char} (h : path.getLast? ≠ some '/') :
    trimSlashes path = path := by
  rw [trimSlashes, trimEndMatches, List.rdropWhile_eq_self_iff]
  intro hne hlast
  rw [List.getLast?_eq_some_getLast hne] at h
  exact h (congrArg some (by simpa using hlast))

namespace ProviderApi

/-- The path of an API below its root. -/
def target (api : ProviderApi) : List Char := '/' :: api.path.toList

/-- No target ends in another one. -/
theorem target_suffix_target {first second : ProviderApi} (h : first.target <:+ second.target) :
    first = second := by
  rcases first with _ | _ | _ | _ <;> rcases second with _ | _ | _ | _
  all_goals first | rfl | exact absurd h (by decide)

theorem mem_all (api : ProviderApi) : api ∈ all := by
  rcases api with _ | _ | _ | _ <;> decide

/-- A text ends in one target at most. -/
theorem target_unique {first second : ProviderApi} {start rest : List Char}
    (h : start ++ first.target = rest ++ second.target) : first = second ∧ start = rest := by
  have hfirst : first.target <:+ rest ++ second.target := ⟨start, h⟩
  have hsame : first = second := by
    rcases List.suffix_or_suffix_of_suffix hfirst (List.suffix_append rest _) with hle | hle
    · exact target_suffix_target hle
    · exact (target_suffix_target hle).symm
  subst hsame
  exact ⟨rfl, List.append_cancel_right h⟩

end ProviderApi

open ProviderApi

/-- The path ends in an API path. -/
def EndsInApi (path : List Char) : Prop := ∃ stem api, path = stem ++ target api

/-- The path ends in two API paths, one after the other. -/
def EndsInTwoApis (path : List Char) : Prop :=
  ∃ stem first second, path = stem ++ target first ++ target second

theorem normalizeApiRoot_target (stem : List Char) (api : ProviderApi) :
    normalizeApiRoot (stem ++ target api) = trimSlashes stem := by
  rw [normalizeApiRoot]
  rcases hfound : ProviderApi.all.findSome? (fun other ↦
      stripSuffix ('/' :: other.path.toList) (stem ++ target api)) with - | root
  · have hnone := List.findSome?_eq_none_iff.mp hfound api (mem_all api)
    have hself : stripSuffix ('/' :: api.path.toList) (stem ++ target api) = some stem :=
      stripSuffix_append stem _
    rw [hself] at hnone
    nomatch hnone
  · -- whichever suffix was found first, it is the only one
    obtain ⟨other, -, hroot⟩ := List.exists_of_findSome?_eq_some hfound
    obtain ⟨-, hstem⟩ := @target_unique api other stem root (stripSuffix_eq_some hroot)
    rw [hfound, Option.getD_some, hstem]

theorem normalizeApiRoot_of_not {path : List Char} (h : ¬EndsInApi path) :
    normalizeApiRoot path = trimSlashes path := by
  have hnone : ProviderApi.all.findSome? (fun api ↦
      stripSuffix ('/' :: api.path.toList) path) = none := by
    rw [List.findSome?_eq_none_iff]
    intro api _
    apply stripSuffix_eq_none
    rintro ⟨stem, hstem⟩
    exact h ⟨stem, api, hstem.symm⟩
  rw [normalizeApiRoot, hnone, Option.getD_none]

/-- A path is left as it is just when it does not end in an API path. -/
theorem normalizeApiRoot_eq_self_iff {path : List Char} (h : path.getLast? ≠ some '/') :
    normalizeApiRoot path = path ↔ ¬EndsInApi path := by
  constructor
  · rintro hself ⟨stem, api, rfl⟩
    rw [normalizeApiRoot_target] at hself
    obtain ⟨slashes, hstem, -⟩ := trimSlashes_cutAtSlash stem
    have hlength := congrArg List.length hself
    have hstemLength := congrArg List.length hstem
    rw [List.length_append] at hlength hstemLength
    have htarget : 0 < (target api).length := Nat.succ_pos _
    omega
  · intro hnot
    rw [normalizeApiRoot_of_not hnot, trimSlashes_eq_self h]

/-! ## Composing paths -/

theorem utf8_getLast? {path : List Char} (h : path.getLast? ≠ some '/') :
    (utf8 path).getLast? ≠ some slash := by
  intro hlast
  have hne : path ≠ [] := by
    rintro rfl
    nomatch hlast
  rw [← List.dropLast_append_getLast hne, utf8_append] at hlast
  have hbytes : utf8 [path.getLast hne] = String.utf8EncodeChar (path.getLast hne) :=
    List.append_nil _
  have hnonempty : String.utf8EncodeChar (path.getLast hne) ≠ [] := by
    intro hnil
    have hlength := congrArg List.length hnil
    rw [String.length_utf8EncodeChar] at hlength
    exact absurd hlength (Char.utf8Size_pos _).ne'
  rw [hbytes, List.getLast?_append_of_ne_nil _ hnonempty] at hlast
  have hslash := slash_mem_utf8EncodeChar (List.mem_of_getLast? hlast)
  rw [List.getLast?_eq_some_getLast hne, hslash] at h
  exact h rfl

/-- A path that does not end in a slash goes on with an unambiguous rooted one. -/
theorem pathIsAmbiguous_append {encodedSlash : EncodedSlash} {path tail : List Char}
    (hpath : pathIsAmbiguous encodedSlash (utf8 path) = false) (hlast : path.getLast? ≠ some '/')
    (htail : pathIsAmbiguous encodedSlash (utf8 ('/' :: tail)) = false) :
    pathIsAmbiguous encodedSlash (utf8 (path ++ '/' :: tail)) = false := by
  obtain ⟨hbackslash, hslashes, hbytes, hsegments⟩ := pathIsAmbiguous_eq_false.mp hpath
  obtain ⟨hbackslash', hslashes', hbytes', hsegments'⟩ := pathIsAmbiguous_eq_false.mp htail
  rw [utf8_append]
  refine pathIsAmbiguous_eq_false.mpr ⟨?_, ?_, ?_, ?_⟩
  · rw [List.mem_append]
    exact fun h ↦ h.elim hbackslash hbackslash'
  · intro h
    rcases pair_mem_append h with h | h | ⟨h, -⟩
    · exact hslashes h
    · exact hslashes' h
    · exact utf8_getLast? hlast h
  · intro byte hbyte
    exact (List.mem_append.mp hbyte).elim (hbytes byte) (hbytes' byte)
  · intro s hs
    rw [utf8_slash] at hs hsegments'
    rw [List.splitOn_append_cons_self, List.mem_append] at hs
    refine hs.elim (hsegments s) fun hs ↦ hsegments' s ?_
    have hsplit : (slash :: utf8 tail).splitOn slash = [] :: (utf8 tail).splitOn slash :=
      List.splitOn_append_cons_self [] (utf8 tail)
    rw [hsplit]
    exact List.mem_cons_of_mem _ hs

/-! ## Reading an origin back -/

theorem isLower_iff {c : Char} : c.isLower = true ↔ 97 ≤ c.toNat ∧ c.toNat ≤ 122 := by
  change (decide _ && decide _) = true ↔ _
  rw [Bool.and_eq_true, decide_eq_true_iff, decide_eq_true_iff]
  exact Iff.rfl

/-- A character is lower-cased to a lower-case letter, or left as it is. -/
theorem isLower_toLower (c : Char) : c.toLower.isLower = true ∨ c.toLower = c := by
  by_cases hupper : c.val ≥ 'A'.val ∧ c.val ≤ 'Z'.val
  · refine .inl (isLower_iff.mpr ?_)
    obtain ⟨hlow, hhigh⟩ := hupper
    have hlower : c.toLower.toNat = c.toNat + 32 := by
      change Char.toNat (dite _ _ _) = _
      rw [dif_pos ⟨hlow, hhigh⟩]
      have hsum := UInt32.toNat_add c.val ('a'.val - 'A'.val)
      have hsmall : c.val.toNat ≤ 90 := UInt32.le_iff_toNat_le.mp hhigh
      have hgap : ('a'.val - 'A'.val).toNat = 32 := by decide
      rw [hgap, Nat.mod_eq_of_lt (by omega)] at hsum
      exact hsum
    have hlow' : 65 ≤ c.toNat := UInt32.le_iff_toNat_le.mp hlow
    have hhigh' : c.toNat ≤ 90 := UInt32.le_iff_toNat_le.mp hhigh
    omega
  · exact .inr (dif_neg hupper)

theorem toLower_of_isLower {c : Char} (h : c.isLower = true) : c.toLower = c := by
  obtain ⟨hlow, -⟩ := isLower_iff.mp h
  refine dif_neg fun hupper ↦ ?_
  have hhigh : c.toNat ≤ 90 := UInt32.le_iff_toNat_le.mp hupper.2
  omega

/-- A test that no lower-case letter passes is failed by what the lower-casing of a character that
fails it gives. -/
theorem toLower_eq_false {test : Char → Bool}
    (htest : ∀ c : Char, c.isLower = true → test c = false) {c : Char} (h : test c = false) :
    test c.toLower = false := by
  rcases isLower_toLower c with hlower | hsame
  · exact htest _ hlower
  · rwa [hsame]

theorem endsAuthority_of_isLower (c : Char) (h : c.isLower = true) : endsAuthority c = false := by
  obtain ⟨hlow, -⟩ := isLower_iff.mp h
  have hne {d : Char} (hd : d.toNat < 97) : (c == d) = false :=
    beq_eq_false_iff_ne.mpr fun heq ↦ by rw [heq] at hlow; omega
  rw [endsAuthority, hne (by decide), hne (by decide), hne (by decide)]
  rfl

theorem isWhitespace_of_isLower (c : Char) (h : c.isLower = true) : isWhitespace c = false := by
  obtain ⟨hlow, hhigh⟩ := isLower_iff.mp h
  simp only [isWhitespace, Bool.or_eq_false_iff, Bool.and_eq_false_iff, decide_eq_false_iff_not,
    beq_eq_false_iff_ne]
  omega

theorem toAsciiLowercase_idem (text : List Char) :
    toAsciiLowercase (toAsciiLowercase text) = toAsciiLowercase text := by
  rw [toAsciiLowercase, toAsciiLowercase, List.map_map]
  refine List.map_congr_left fun c _ ↦ ?_
  rcases isLower_toLower c with hlower | hsame
  · exact toLower_of_isLower hlower
  · exact congrArg Char.toLower hsame

theorem findSome?_schemes {scheme : List Char} (hscheme : scheme ∈ schemes) (rest : List Char) :
    (schemes.findSome? fun candidate ↦ (stripPrefix candidate (scheme ++ rest)).map
      fun after ↦ (candidate, after)) = some (scheme, rest) := by
  have hself := stripPrefix_append scheme rest
  rcases List.mem_pair.mp hscheme with rfl | rfl
  · rw [schemes, List.findSome?_cons, hself]
    rfl
  · have hsecure : stripPrefix "https://".toList ("http://".toList ++ rest) = none := rfl
    rw [schemes, List.findSome?_cons, hsecure, List.findSome?_cons, hself]
    rfl

theorem any_lowercase_eq_false {test : Char → Bool}
    (htest : ∀ c : Char, c.isLower = true → test c = false) {text : List Char}
    (h : ∀ c ∈ text, test c = false) : ∀ c ∈ toAsciiLowercase text, test c = false := by
  intro c hc
  obtain ⟨original, horiginal, rfl⟩ := List.mem_map.mp hc
  exact toLower_eq_false htest (h original horiginal)

/-- The origin of an accepted URL, with a path behind it, is split at the same place. -/
theorem splitOrigin_again {url origin rest : List Char} (h : splitOrigin url = .ok (origin, rest))
    {path : List Char} (hpath : StartsAtSlash path) :
    splitOrigin (origin ++ path) = .ok (origin, path) := by
  rw [splitOrigin] at h
  split at h
  · cases h
  next scheme afterScheme hfound =>
    dsimp only at h
    split_ifs at h with hempty huserinfo hspace
    obtain ⟨rfl, -⟩ := Prod.mk.inj (Except.ok.inj h)
    obtain ⟨candidate, hscheme, hstrip⟩ := List.exists_of_findSome?_eq_some hfound
    obtain ⟨after, -, hpair⟩ := Option.map_eq_some_iff.mp hstrip
    obtain ⟨rfl, rfl⟩ := Prod.mk.inj hpair
    generalize hauthority : (after.takeWhile fun c ↦ !endsAuthority c) = authority at *
    have hends : ∀ c ∈ authority, endsAuthority c = false := by
      intro c hc
      rw [← hauthority] at hc
      simpa using List.mem_takeWhile_imp hc
    have hhead : ∀ c ∈ path.head?, (!endsAuthority c) = false := by
      rintro c hc
      rcases hpath with rfl | ⟨tail, rfl⟩
      · cases hc
      · obtain rfl := Option.some.inj hc
        rfl
    have hlower : ∀ c ∈ toAsciiLowercase authority, (!endsAuthority c) = true := by
      simpa using any_lowercase_eq_false endsAuthority_of_isLower hends
    obtain ⟨htake, hdrop⟩ := takeWhile_append_stop (fun c ↦ !endsAuthority c) hlower hhead
    have hnonempty : ¬(toAsciiLowercase authority).isEmpty = true := by
      rwa [toAsciiLowercase, List.isEmpty_map]
    have hnoUserinfo : ¬(toAsciiLowercase authority).contains '@' = true := by
      have hat (c : Char) (hc : c.isLower = true) : (c == '@') = false := by
        obtain ⟨hlow, -⟩ := isLower_iff.mp hc
        exact beq_eq_false_iff_ne.mpr fun heq ↦ absurd hlow (by rw [heq]; decide)
      intro hmem
      have hnone : ∀ c ∈ authority, (c == '@') = false := fun c hc ↦
        beq_eq_false_iff_ne.mpr fun heq ↦ huserinfo (List.contains_iff_mem.mpr (heq ▸ hc))
      have hself := any_lowercase_eq_false hat hnone '@' (List.contains_iff_mem.mp hmem)
      cases hself
    have hnoSpace : ¬(toAsciiLowercase authority).any isWhitespace = true := by
      rw [List.any_eq_true, not_exists] at hspace ⊢
      rintro c ⟨hc, hwhite⟩
      have hnone : ∀ c ∈ authority, isWhitespace c = false := fun c hc ↦
        Bool.eq_false_iff.mpr fun htrue ↦ hspace c ⟨hc, htrue⟩
      rw [any_lowercase_eq_false isWhitespace_of_isLower hnone c hc] at hwhite
      cases hwhite
    rw [splitOrigin, List.append_assoc, findSome?_schemes hscheme]
    dsimp only
    rw [htake, hdrop, if_neg hnonempty, if_neg hnoUserinfo, if_neg hnoSpace,
      toAsciiLowercase_idem]

/-! ## Endpoints and their targets -/

/-- The path of a URL, with what follows it. -/
def urlPath (url : String) : List Char :=
  match splitOrigin url.toList with
  | .ok (_, rest) => rest
  | .error _ => []

/-- Nothing in the path starts a query or a fragment. -/
def PlainPath (path : List Char) : Prop := ∀ c ∈ path, endsPath c = false

theorem PlainPath.of_cut {cut text : List Char} (h : CutAtSlash cut text) (htext : PlainPath text) :
    PlainPath cut := by
  obtain ⟨rest, rfl, -⟩ := h
  exact fun c hc ↦ htext c (List.mem_append_left rest hc)

namespace ProviderEndpoint

/-- What the parser read. -/
theorem tryNew_eq_ok_iff {url : String} {endpoint : ProviderEndpoint} :
    tryNew url = .ok endpoint ↔ ∃ rest, splitOrigin url.toList = .ok (endpoint.origin, rest) ∧
      PlainPath rest ∧ pathIsAmbiguous .refuse (utf8 rest) = false ∧
      endpoint.path = normalizeApiRoot (trimSlashes rest) := by
  rw [tryNew]
  split
  next refusal hsplit =>
    simp only [hsplit, reduceCtorEq, false_and, exists_false]
  next origin rest hsplit =>
    constructor
    · intro h
      split_ifs at h with hquery hpath
      obtain rfl := Except.ok.inj h
      exact ⟨rest, hsplit, by simpa [PlainPath] using hquery, by simpa using hpath, rfl⟩
    · rintro ⟨rest', hsplit', hplain, hunambiguous, hpath⟩
      rw [hsplit] at hsplit'
      obtain ⟨horigin, rfl⟩ := Prod.mk.inj (Except.ok.inj hsplit')
      have hquery : ¬rest.any endsPath = true := by simpa [PlainPath] using hplain
      rw [dif_neg hquery, dif_neg (by rw [hunambiguous]; exact Bool.false_ne_true)]
      rcases endpoint with ⟨endpointOrigin, path, hrooted, hsafe, htrimmed⟩
      obtain rfl : origin = endpointOrigin := horigin
      obtain rfl : path = normalizeApiRoot (trimSlashes rest) := hpath
      rfl

/-- The root of the targets: an endpoint without a path stands for `/v1`. -/
def apiRoot (endpoint : ProviderEndpoint) : List Char :=
  if endpoint.path.isEmpty then "/v1".toList else endpoint.path

def resolve (endpoint : ProviderEndpoint) (api : ProviderApi) : String :=
  String.ofList (endpoint.origin ++ endpoint.apiRoot ++ '/' :: api.path.toList)

theorem toList_resolve (endpoint : ProviderEndpoint) (api : ProviderApi) :
    (endpoint.resolve api).toList = endpoint.origin ++ (endpoint.apiRoot ++ target api) := by
  rw [resolve, String.toList_ofList, List.append_assoc]
  rfl

/-- The endpoint is parsed from its own text, and the target of each API lies below it and is
parsed as its root. -/
structure ReadsBack (endpoint : ProviderEndpoint) : Prop where
  asStr : tryNew endpoint.asStr = .ok endpoint
  permits : ∀ api, endpoint.permits (endpoint.resolve api) = true
  root : ∀ api, ∃ resolved, tryNew (endpoint.resolve api) = .ok resolved ∧
    resolved.origin = endpoint.origin ∧ resolved.path = endpoint.apiRoot

section

variable {url : String} {endpoint : ProviderEndpoint} (hnew : tryNew url = .ok endpoint)

include hnew

theorem plainPath : PlainPath endpoint.path := by
  obtain ⟨rest, -, hplain, -, hpath⟩ := tryNew_eq_ok_iff.mp hnew
  rw [hpath]
  exact hplain.of_cut ((normalizeApiRoot_cutAtSlash _).trans (trimSlashes_cutAtSlash rest))

/-- The text of an endpoint is parsed to it just when its path does not end in an API path. -/
theorem tryNew_asStr_iff : tryNew endpoint.asStr = .ok endpoint ↔ ¬EndsInApi endpoint.path := by
  obtain ⟨rest, hsplit, -⟩ := tryNew_eq_ok_iff.mp hnew
  have hagain : splitOrigin endpoint.asStr.toList = .ok (endpoint.origin, endpoint.path) := by
    rw [asStr, String.toList_ofList]
    exact splitOrigin_again hsplit endpoint.rooted
  rw [← normalizeApiRoot_eq_self_iff endpoint.trimmed, tryNew_eq_ok_iff]
  constructor
  · rintro ⟨rest', hsplit', -, -, hpath⟩
    rw [hagain] at hsplit'
    obtain ⟨-, rfl⟩ := Prod.mk.inj (Except.ok.inj hsplit')
    rw [trimSlashes_eq_self endpoint.trimmed] at hpath
    exact hpath.symm
  · intro hself
    refine ⟨endpoint.path, hagain, plainPath hnew, endpoint.unambiguous, ?_⟩
    rw [trimSlashes_eq_self endpoint.trimmed, hself]

end

theorem apiRoot_startsAtSlash (endpoint : ProviderEndpoint) : StartsAtSlash endpoint.apiRoot := by
  rw [apiRoot]
  split
  · exact .inr ⟨_, rfl⟩
  · exact endpoint.rooted

theorem apiRoot_getLast? (endpoint : ProviderEndpoint) : endpoint.apiRoot.getLast? ≠ some '/' := by
  rw [apiRoot]
  split
  · decide
  · exact endpoint.trimmed

theorem apiRoot_unambiguous (endpoint : ProviderEndpoint) :
    pathIsAmbiguous .refuse (utf8 endpoint.apiRoot) = false := by
  rw [apiRoot]
  split
  · decide
  · exact endpoint.unambiguous

/-- What the endpoint's path leaves of a target. -/
theorem apiRoot_eq (endpoint : ProviderEndpoint) :
    ∃ below, endpoint.apiRoot = endpoint.path ++ below ∧ (below = [] ∨ below = "/v1".toList) := by
  rw [apiRoot]
  split
  next hempty =>
    rw [List.isEmpty_iff.mp hempty]
    exact ⟨_, rfl, .inr rfl⟩
  · exact ⟨[], (List.append_nil _).symm, .inl rfl⟩

theorem target_unambiguous {encodedSlash : EncodedSlash} (api : ProviderApi) {below : List Char}
    (hbelow : below = [] ∨ below = "/v1".toList) :
    pathIsAmbiguous encodedSlash (utf8 (below ++ target api)) = false := by
  rcases encodedSlash with _ | _ <;> rcases hbelow with rfl | rfl <;>
    rcases api with _ | _ | _ | _ <;> decide

theorem plainPath_of_all {path : List Char} (h : path.all (fun c ↦ !endsPath c) = true) :
    PlainPath path := by
  intro c hc
  simpa using List.all_eq_true.mp h c hc

theorem plainPath_target (api : ProviderApi) : PlainPath (target api) := by
  apply plainPath_of_all
  rcases api with _ | _ | _ | _ <;> decide

section

variable {url : String} {endpoint : ProviderEndpoint} (hnew : tryNew url = .ok endpoint)
  (api : ProviderApi)

include hnew

theorem plainPath_resolve : PlainPath (endpoint.apiRoot ++ target api) := by
  intro c hc
  rcases List.mem_append.mp hc with hc | hc
  · rw [apiRoot] at hc
    split at hc
    · exact plainPath_of_all (by decide) c hc
    · exact plainPath hnew c hc
  · exact plainPath_target api c hc

theorem splitOrigin_resolve : splitOrigin (endpoint.resolve api).toList =
    .ok (endpoint.origin, endpoint.apiRoot ++ target api) := by
  obtain ⟨rest, hsplit, -⟩ := tryNew_eq_ok_iff.mp hnew
  rw [toList_resolve]
  exact splitOrigin_again hsplit (endpoint.apiRoot_startsAtSlash.append (.inr ⟨_, rfl⟩))

theorem permits_resolve : endpoint.permits (endpoint.resolve api) = true := by
  obtain ⟨below, hroot, hbelow⟩ := endpoint.apiRoot_eq
  have hplain : (endpoint.apiRoot ++ target api).takeWhile (fun c ↦ !endsPath c) =
      endpoint.path ++ (below ++ target api) := by
    rw [← List.append_assoc, ← hroot, List.takeWhile_eq_self_iff]
    intro c hc
    rw [plainPath_resolve hnew api c hc]
    rfl
  have hhead : (below ++ target api).head? = some '/' := by
    rcases hbelow with rfl | rfl <;> rfl
  rw [permits, splitOrigin_resolve hnew api]
  dsimp only
  rw [hplain, stripPrefix_append, bne_self_eq_false, if_neg Bool.false_ne_true]
  dsimp only
  rw [hhead, target_unambiguous api hbelow]
  simp

theorem tryNew_resolve : ∃ resolved, tryNew (endpoint.resolve api) = .ok resolved ∧
    resolved.origin = endpoint.origin ∧ resolved.path = endpoint.apiRoot := by
  have hsafe : pathIsAmbiguous .refuse (utf8 (endpoint.apiRoot ++ target api)) = false :=
    pathIsAmbiguous_append endpoint.apiRoot_unambiguous endpoint.apiRoot_getLast?
      (target_unambiguous api (.inl rfl))
  refine ⟨{
    origin := endpoint.origin
    path := endpoint.apiRoot
    rooted := endpoint.apiRoot_startsAtSlash
    unambiguous := endpoint.apiRoot_unambiguous
    trimmed := endpoint.apiRoot_getLast? }, ?_, rfl, rfl⟩
  refine tryNew_eq_ok_iff.mpr ⟨_, splitOrigin_resolve hnew api, plainPath_resolve hnew api, hsafe,
    ?_⟩
  have hlast : (endpoint.apiRoot ++ target api).getLast? ≠ some '/' := by
    have hne : target api ≠ [] := List.cons_ne_nil _ _
    rw [List.getLast?_append_of_ne_nil _ hne]
    rcases api with _ | _ | _ | _ <;> decide
  rw [trimSlashes_eq_self hlast, normalizeApiRoot_target,
    trimSlashes_eq_self endpoint.apiRoot_getLast?]

/-- The path that is left ends in an API path just when the URL's own ended in two. -/
theorem endsInApi_iff : EndsInApi endpoint.path ↔ EndsInTwoApis (trimSlashes (urlPath url)) := by
  obtain ⟨rest, hsplit, -, hsafe, hpath⟩ := tryNew_eq_ok_iff.mp hnew
  have hurl : urlPath url = rest := by rw [urlPath, hsplit]
  rw [hurl, hpath]
  by_cases hends : EndsInApi (trimSlashes rest)
  · obtain ⟨stem, api, hstem⟩ := hends
    have hlast : stem.getLast? ≠ some '/' := by
      -- a slash in front of the API path would be a repeated one
      intro hslash
      have hne : stem ≠ [] := by
        rintro rfl
        nomatch hslash
      have hcut := (trimSlashes_cutAtSlash rest).unambiguous hsafe
      obtain ⟨-, hslashes, -⟩ := pathIsAmbiguous_eq_false.mp hcut
      rw [List.getLast?_eq_some_getLast hne] at hslash
      apply hslashes
      rw [hstem, ← List.dropLast_append_getLast hne, Option.some.inj hslash, List.append_assoc,
        utf8_append]
      exact ⟨utf8 stem.dropLast, utf8 api.path.toList, List.append_assoc ..⟩
    rw [hstem, normalizeApiRoot_target, trimSlashes_eq_self hlast]
    constructor
    · rintro ⟨stem', first, rfl⟩
      exact ⟨stem', first, api, rfl⟩
    · rintro ⟨stem', first, second, htwo⟩
      obtain ⟨-, hcut⟩ := target_unique htwo
      exact ⟨stem', first, hcut⟩
  · rw [normalizeApiRoot_of_not hends, trimSlashes_eq_self (trimSlashes_getLast? rest)]
    refine iff_of_false hends ?_
    rintro ⟨stem, first, second, htwo⟩
    exact hends ⟨stem ++ target first, second, htwo⟩

end

/-! ## The round trip -/

/-- An accepted URL reads back, except one whose path ends in two API paths: the first reading cuts
off the last one, and the second reading the other. -/
theorem readsBack_iff {url : String} {endpoint : ProviderEndpoint}
    (hnew : tryNew url = .ok endpoint) :
    endpoint.ReadsBack ↔ ¬EndsInTwoApis (trimSlashes (urlPath url)) := by
  rw [← endsInApi_iff hnew, ← tryNew_asStr_iff hnew]
  exact ⟨ReadsBack.asStr, fun h ↦ ⟨h, permits_resolve hnew, tryNew_resolve hnew⟩⟩

theorem readsBack_iff_versioned :
    ∃ endpoint, tryNew "https://API.example.com/v1/responses/" = .ok endpoint ∧
      endpoint.asStr = "https://api.example.com/v1" ∧ endpoint.ReadsBack := by
  have htext : (tryNew "https://API.example.com/v1/responses/").map asStr =
      .ok "https://api.example.com/v1" := by decide +kernel
  have hpath : trimSlashes (urlPath "https://API.example.com/v1/responses/") =
      "/v1/responses".toList := by decide +kernel
  rcases hnew : tryNew "https://API.example.com/v1/responses/" with refusal | endpoint
  · rw [hnew] at htext
    nomatch htext
  · rw [hnew] at htext
    refine ⟨endpoint, rfl, Except.ok.inj htext, (readsBack_iff hnew).mpr ?_⟩
    rw [hpath]
    rintro ⟨stem, first, second, htwo⟩
    have hsuffix : target first ++ target second <:+ "/v1/responses".toList :=
      ⟨stem, by rw [htwo, List.append_assoc]⟩
    revert hsuffix
    rcases first with _ | _ | _ | _ <;> rcases second with _ | _ | _ | _ <;> decide

/-- Two API paths, of which each reading cuts off one. -/
theorem not_readsBack_twoApis :
    ∃ endpoint, tryNew "https://api.example.com/v1/messages/models" = .ok endpoint ∧
      endpoint.asStr = "https://api.example.com/v1/messages" ∧
      (tryNew endpoint.asStr).map asStr = .ok "https://api.example.com/v1" ∧
      ¬endpoint.ReadsBack := by
  have hfirst : (tryNew "https://api.example.com/v1/messages/models").map asStr =
      .ok "https://api.example.com/v1/messages" := by decide +kernel
  have hsecond : (tryNew "https://api.example.com/v1/messages").map asStr =
      .ok "https://api.example.com/v1" := by decide +kernel
  rcases hnew : tryNew "https://api.example.com/v1/messages/models" with refusal | endpoint
  · rw [hnew] at hfirst
    nomatch hfirst
  · rw [hnew] at hfirst
    have htext : endpoint.asStr = "https://api.example.com/v1/messages" := Except.ok.inj hfirst
    rw [← htext] at hsecond
    refine ⟨endpoint, rfl, htext, hsecond, fun hreads ↦ ?_⟩
    rw [hreads.asStr] at hsecond
    have hsame : endpoint.asStr = "https://api.example.com/v1" := Except.ok.inj hsecond
    rw [htext] at hsame
    exact absurd hsame (by decide)

end ProviderEndpoint

end TokenStation
