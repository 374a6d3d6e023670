import TokenStation.Protocol.Provider

/-!
# The credential stays below its base URL

`ProviderEndpoint.permits` compares raw bytes, and the server that receives the request may decode
them. What the endpoint permits lies below it whichever of the readings the server follows: an
unambiguous segment is safe under each of them, so the path below the endpoint neither steps out of
it nor hides an empty segment. `authorize` sends a credential nowhere else.
-/

namespace TokenStation

open Library UrlPath

/-! ## Unambiguous segments -/

theorem decodeSegment_eq_some {encodedSlash : EncodedSlash} {s : Segment} {decoded : List UInt8}
    (h : decodeSegment encodedSlash s = some decoded) : decoded = percentDecode false s := by
  fun_induction decodeSegment encodedSlash s generalizing decoded with
  | case1 => exact (Option.some.inj h).symm
  | case2 => nomatch h
  | case3 => nomatch h
  | case4 high low rest byte hhex _ ih =>
    obtain ⟨tail, htail, rfl⟩ := Option.map_eq_some_iff.mp h
    rw [percentDecode, if_pos rfl, hhex, ih htail]
    rfl
  | case5 byte high low rest hbyte ih =>
    obtain ⟨tail, htail, rfl⟩ := Option.map_eq_some_iff.mp h
    rw [percentDecode, if_neg hbyte, ih htail]
  | case6 => nomatch h
  | case7 byte rest hshort hbyte ih =>
    obtain ⟨tail, htail, rfl⟩ := Option.map_eq_some_iff.mp h
    rw [percentDecode.eq_3 _ _ _ hshort, ih htail]

theorem isDotSegment_eq_false {s : Segment} : isDotSegment s = false ↔ s ≠ dot ∧ s ≠ dotDot := by
  simp [isDotSegment]

theorem safeSegment_decodeAll {encodedSlash : EncodedSlash} {s : Segment}
    (h : segmentIsAmbiguous encodedSlash s = false) : SafeSegment .decodeAll s := by
  rw [segmentIsAmbiguous] at h
  split_ifs at h
  split at h
  · nomatch h
  next decoded hdecoded =>
    obtain rfl := decodeSegment_eq_some hdecoded
    intro piece (hpiece : piece ∈ (percentDecode false s).splitOn slash)
    split at h
    · have hsafe := List.any_eq_false.mp h piece hpiece
      rw [Bool.not_eq_true, Bool.or_eq_false_iff] at hsafe
      obtain ⟨hempty, hpieceDot⟩ := hsafe
      obtain ⟨hdot, hdotDot⟩ := isDotSegment_eq_false.mp hpieceDot
      refine ⟨hdot, hdotDot, fun _ hnil ↦ ?_⟩
      rw [hnil] at hempty
      nomatch hempty
    next hslash =>
      rw [List.contains_iff_mem] at hslash
      rw [List.splitOn_eq_singleton hslash] at hpiece
      obtain rfl := List.mem_singleton.mp hpiece
      obtain ⟨hdot, hdotDot⟩ := isDotSegment_eq_false.mp h
      exact ⟨hdot, hdotDot, percentDecode_ne_nil false⟩

/-- No way of decoding an unambiguous segment leads out of it. -/
theorem safeSegment_of_unambiguous {encodedSlash : EncodedSlash} {s : Segment}
    (h : segmentIsAmbiguous encodedSlash s = false) (reading : Reading) :
    SafeSegment reading s := by
  cases reading with
  | raw =>
    intro piece hpiece
    obtain rfl := List.mem_singleton.mp hpiece
    rw [segmentIsAmbiguous] at h
    split_ifs at h with hraw
    obtain ⟨hdot, hdotDot⟩ := isDotSegment_eq_false.mp (Bool.eq_false_iff.mpr hraw)
    exact ⟨hdot, hdotDot, id⟩
  | keepEncodedSlash => exact (safeSegment_decodeAll h).keepEncodedSlash
  | decodeAll => exact safeSegment_decodeAll h

/-! ## Below an endpoint -/

theorem utf8_getLast?_ne_slash {text : List Char} (h : text.getLast? ≠ some '/') :
    (utf8 text).getLast? ≠ some slash := by
  intro hlast
  rcases List.eq_nil_or_concat text with rfl | ⟨start, c, rfl⟩
  · nomatch hlast
  · rw [List.concat_eq_append, utf8_append, List.getLast?_append] at hlast
    have hne : utf8 [c] ≠ [] := by
      rw [utf8, List.flatMap_singleton]
      exact String.utf8EncodeChar_ne_nil
    rw [List.getLast?_eq_some_getLast hne, Option.some_or] at hlast
    have hmem : slash ∈ utf8 [c] := by
      rw [← Option.some.inj hlast]
      exact List.getLast_mem hne
    rw [utf8, List.flatMap_singleton] at hmem
    rw [slash_mem_utf8EncodeChar hmem, List.concat_eq_append, List.getLast?_concat] at h
    exact h rfl

/-- A tail that the endpoint admits stays below it under every reading. -/
theorem ProviderEndpoint.contained (endpoint : ProviderEndpoint) {encodedSlash : EncodedSlash}
    {tail : List Char} (htail : StartsAtSlash tail)
    (h : pathIsAmbiguous encodedSlash (utf8 tail) = false) (reading : Reading) :
    Contained reading (utf8 endpoint.path) (utf8 (endpoint.path ++ tail)) := by
  obtain ⟨-, hbaseSlash, -, hbaseSegments⟩ := pathIsAmbiguous_eq_false.mp endpoint.unambiguous
  obtain ⟨-, htailSlash, -, htailSegments⟩ := pathIsAmbiguous_eq_false.mp h
  rw [utf8_append]
  refine contained_append endpoint.rooted.rooted htail.rooted ?_ ?_
  · intro hslashes
    rcases pair_mem_append hslashes with hbase | hrest | ⟨hlast, -⟩
    · exact hbaseSlash hbase
    · exact htailSlash hrest
    · exact utf8_getLast?_ne_slash endpoint.trimmed hlast
  · intro s hs
    rw [segments_append endpoint.rooted.rooted htail.rooted] at hs
    rcases List.mem_append.mp hs with hbase | hrest
    · exact safeSegment_of_unambiguous (hbaseSegments s (mem_splitOn_of_mem_segments hbase)) reading
    · exact safeSegment_of_unambiguous (htailSegments s (mem_splitOn_of_mem_segments hrest)) reading

/-! ## What a client reads -/

/-- The parts a client cuts a URL into. -/
structure UrlParts where
  scheme : List Char
  authority : List Char
  path : List Char
  suffix : List Char

/-- The parts spell the URL: the authority ends at the first of `/`, `?` and `#`, the path at the
first `?` or `#`. -/
structure UrlParts.Spell (parts : UrlParts) (url : List Char) : Prop where
  scheme_mem : parts.scheme ∈ schemes
  authority_ne_nil : parts.authority ≠ []
  authority_end : ∀ c ∈ parts.authority, endsAuthority c = false
  path_rooted : StartsAtSlash parts.path
  path_end : ∀ c ∈ parts.path, endsPath c = false
  suffix_head : ∀ c ∈ parts.suffix.head?, endsPath c = true
  url_eq : url = parts.scheme ++ parts.authority ++ (parts.path ++ parts.suffix)

/-- The same scheme, and the same authority up to the case of ASCII letters. -/
def UrlParts.SameOrigin (parts parts' : UrlParts) : Prop :=
  parts.scheme = parts'.scheme ∧
    toAsciiLowercase parts.authority = toAsciiLowercase parts'.authority

/-- The URL lies at or below the base URL that `endpoint` was built from: it has its origin, and
under every reading its path is contained in the endpoint's. -/
def ProviderEndpoint.Below (endpoint : ProviderEndpoint) (base url : String) : Prop :=
  ∃ baseParts parts : UrlParts, baseParts.Spell base.toList ∧ parts.Spell url.toList ∧
    parts.SameOrigin baseParts ∧ endpoint.path = normalizeApiRoot (trimSlashes baseParts.path) ∧
    ∀ reading, Contained reading (utf8 endpoint.path) (utf8 parts.path)

theorem schemes_append_inj {scheme scheme' rest rest' : List Char} (h : scheme ∈ schemes)
    (h' : scheme' ∈ schemes) (heq : scheme ++ rest = scheme' ++ rest') :
    scheme = scheme' ∧ rest = rest' := by
  simp only [schemes, List.mem_cons, List.not_mem_nil, or_false] at h h'
  rcases h with rfl | rfl <;> rcases h' with rfl | rfl
  · exact ⟨rfl, List.append_cancel_left heq⟩
  · simp at heq
  · simp at heq
  · exact ⟨rfl, List.append_cancel_left heq⟩

theorem append_inj_of_ends {ends : Char → Bool} {start start' rest rest' : List Char}
    (h : ∀ c ∈ start, ends c = false) (h' : ∀ c ∈ start', ends c = false)
    (hrest : ∀ c ∈ rest.head?, ends c = true) (hrest' : ∀ c ∈ rest'.head?, ends c = true)
    (heq : start ++ rest = start' ++ rest') : start = start' ∧ rest = rest' := by
  induction start generalizing start' with
  | nil =>
    cases start' with
    | nil => exact ⟨rfl, heq⟩
    | cons c start' =>
      have hc := hrest c (by rw [← List.nil_append rest, heq]; rfl)
      rw [h' c List.mem_cons_self] at hc
      nomatch hc
  | cons c start ih =>
    cases start' with
    | nil =>
      have hc := hrest' c (by rw [← List.nil_append rest', ← heq]; rfl)
      rw [h c List.mem_cons_self] at hc
      nomatch hc
    | cons c' start' =>
      obtain ⟨rfl, htail⟩ := List.cons.inj heq
      obtain ⟨rfl, rfl⟩ := ih (fun d hd ↦ h d (List.mem_cons_of_mem _ hd))
        (fun d hd ↦ h' d (List.mem_cons_of_mem _ hd)) htail
      exact ⟨rfl, rfl⟩

theorem UrlParts.Spell.head_of_rest {parts : UrlParts} {url : List Char} (h : parts.Spell url) :
    ∀ c ∈ (parts.path ++ parts.suffix).head?, endsAuthority c = true := by
  intro c hc
  rcases h.path_rooted with hnil | ⟨rest, hrest⟩
  · rw [hnil, List.nil_append] at hc
    have hends := h.suffix_head c hc
    rw [endsPath, Bool.or_eq_true] at hends
    rw [endsAuthority, Bool.or_assoc, Bool.or_eq_true, Bool.or_eq_true]
    exact .inr hends
  · rw [hrest] at hc
    obtain rfl : '/' = c := Option.some.inj hc
    rfl

/-- A URL has one reading into parts. -/
theorem UrlParts.Spell.unique {parts parts' : UrlParts} {url : List Char} (h : parts.Spell url)
    (h' : parts'.Spell url) : parts = parts' := by
  obtain ⟨hscheme, hafter⟩ := schemes_append_inj h.scheme_mem h'.scheme_mem (by
    rw [← List.append_assoc, ← h.url_eq, ← List.append_assoc, ← h'.url_eq])
  obtain ⟨hauthority, hrest⟩ := append_inj_of_ends h.authority_end h'.authority_end
    h.head_of_rest h'.head_of_rest hafter
  obtain ⟨hpath, hsuffix⟩ := append_inj_of_ends h.path_end h'.path_end h.suffix_head
    h'.suffix_head hrest
  cases parts
  cases parts'
  congr

/-- The parts that a successful split leaves. -/
theorem spell_of_splitOrigin {url origin rest : List Char}
    (h : splitOrigin url = .ok (origin, rest)) : ∃ parts : UrlParts, parts.Spell url ∧
      parts.path = rest.takeWhile (fun c ↦ !endsPath c) ∧
      origin = parts.scheme ++ toAsciiLowercase parts.authority := by
  obtain ⟨scheme, hscheme, authority, hurl, hne, hauthority, hhead, horigin⟩ := splitOrigin_eq_ok h
  have hpath : ∀ c ∈ rest.takeWhile (fun c ↦ !endsPath c), endsPath c = false := by
    intro c hc
    simpa using List.mem_takeWhile_imp hc
  refine ⟨⟨scheme, authority, rest.takeWhile fun c ↦ !endsPath c,
      rest.dropWhile fun c ↦ !endsPath c⟩,
    ⟨hscheme, hne, hauthority, ?_, hpath, ?_, ?_⟩, rfl, horigin⟩
  · refine startsAtSlash_of_endsAuthority (fun c hc ↦ hhead c ?_) hpath
    cases rest with
    | nil => exact hc
    | cons d rest =>
      dsimp only at hc
      rw [List.takeWhile_cons] at hc
      split at hc
      · exact hc
      · nomatch hc
  · intro c hc
    have hnot := List.head?_dropWhile_not (fun c ↦ !endsPath c) rest
    dsimp only at hc
    rw [Option.mem_def.mp hc] at hnot
    simpa using hnot
  · rw [List.takeWhile_append_dropWhile]
    exact hurl

namespace ProviderEndpoint

theorem tryNew_eq_ok {base : String} {endpoint : ProviderEndpoint}
    (h : tryNew base = .ok endpoint) : ∃ parts : UrlParts, parts.Spell base.toList ∧
      endpoint.origin = parts.scheme ++ toAsciiLowercase parts.authority ∧
      endpoint.path = normalizeApiRoot (trimSlashes parts.path) := by
  rw [tryNew] at h
  split at h
  · nomatch h
  next origin rest hsplit =>
    split_ifs at h with hquery hpath
    obtain rfl := Except.ok.inj h
    obtain ⟨parts, hparts, hpath, horigin⟩ := spell_of_splitOrigin hsplit
    refine ⟨parts, hparts, horigin, ?_⟩
    have hall : rest.takeWhile (fun c ↦ !endsPath c) = rest := by
      rw [List.takeWhile_eq_self_iff]
      simpa using hquery
    rw [hpath, hall]

/-- **What an endpoint permits lies below it**, however a server reads the path. -/
theorem permits_below {base url : String} {endpoint : ProviderEndpoint}
    (hnew : tryNew base = .ok endpoint) (h : endpoint.permits url = true) :
    endpoint.Below base url := by
  obtain ⟨baseParts, hbase, hbaseOrigin, hbasePath⟩ := tryNew_eq_ok hnew
  rw [permits] at h
  split at h
  · nomatch h
  next origin rest hsplit =>
    split at h
    · nomatch h
    next horigin =>
      split at h
      · nomatch h
      next tail hstrip =>
        obtain ⟨hhead, htail⟩ := (Bool.and_eq_true ..).mp h
        obtain ⟨parts, hparts, hpath, hpartsOrigin⟩ := spell_of_splitOrigin hsplit
        have hsame : origin = endpoint.origin := by simpa using horigin
        have hrooted : StartsAtSlash tail := by
          cases tail with
          | nil => exact .inl rfl
          | cons c tail => exact .inr ⟨tail, by simpa using hhead⟩
        refine ⟨baseParts, parts, hbase, hparts, ?_, hbasePath, fun reading ↦ ?_⟩
        · rw [hpartsOrigin, hbaseOrigin] at hsame
          exact schemes_append_inj hparts.scheme_mem hbase.scheme_mem hsame
        · rw [hpath, stripPrefix_eq_some hstrip]
          exact endpoint.contained hrooted (by simpa using htail) reading

end ProviderEndpoint

/-- A descriptor that the host accepts names the configured slot and a permitted URL. -/
theorem ProviderConfig.authorize_eq_ok {config : ProviderConfig}
    {descriptor : HttpRequestDescriptor} (h : config.authorize descriptor = .ok ()) :
    config.baseUrl.permits descriptor.url = true ∧
      descriptor.auth.map Auth.secret = config.auth := by
  rw [authorize] at h
  split at h
  · nomatch h
  next hpermits =>
    refine ⟨by simpa using hpermits, ?_⟩
    split at h
    · nomatch h
    · nomatch h
    next slot auth hslot hauth =>
      split at h
      · nomatch h
      next hsecret =>
        rw [hauth, hslot, Option.map_some]
        simpa using hsecret
    next hslot hauth => rw [hauth, hslot, Option.map_none]

/-- **The credential destination gate.** For every endpoint built from a base URL, whatever it
permits lies at or below that base URL; and a host that accepts a descriptor with a credential sends
the configured credential, to such a target. -/
theorem credential_stays_below {base : String} {endpoint : ProviderEndpoint}
    (hnew : ProviderEndpoint.tryNew base = .ok endpoint) :
    (∀ url, endpoint.permits url = true → endpoint.Below base url) ∧
    ∀ (config : ProviderConfig) (descriptor : HttpRequestDescriptor) (auth : Auth),
      config.baseUrl = endpoint → descriptor.auth = some auth →
      config.authorize descriptor = .ok () →
      config.auth = some auth.secret ∧ endpoint.Below base descriptor.url := by
  refine ⟨fun url h ↦ ProviderEndpoint.permits_below hnew h, ?_⟩
  rintro config descriptor auth rfl hauth h
  obtain ⟨hpermits, hslot⟩ := ProviderConfig.authorize_eq_ok h
  refine ⟨?_, ProviderEndpoint.permits_below hnew hpermits⟩
  rw [← hslot, hauth, Option.map_some]

/-- The endpoint of `https://API.example.com/v1/responses/`. -/
def exampleEndpoint : ProviderEndpoint where
  origin := "https://api.example.com".toList
  path := "/v1".toList
  rooted := .inr ⟨"v1".toList, rfl⟩
  unambiguous := by decide
  trimmed := by decide

/-- A model id with an escaped slash, sent with the credential of the slot `provider_api_key`. -/
theorem credential_stays_below_escapedSlash :
    exampleEndpoint.Below "https://API.example.com/v1/responses/"
        "https://api.Example.com/v1/model/arn%2Fsmall?stream" ∧
      some (SecretRef.mk "provider_api_key") =
        some (Auth.bearer (SecretRef.mk "provider_api_key")).secret ∧
      exampleEndpoint.Below "https://API.example.com/v1/responses/"
        "https://api.Example.com/v1/model/arn%2Fsmall" := by
  have hnew : ProviderEndpoint.tryNew "https://API.example.com/v1/responses/" =
      .ok exampleEndpoint := rfl
  obtain ⟨hpermits, hauthorize⟩ := credential_stays_below hnew
  exact ⟨hpermits _ (by decide),
    hauthorize ⟨"openai-compatible", exampleEndpoint, some (SecretRef.mk "provider_api_key")⟩
      ⟨"https://api.Example.com/v1/model/arn%2Fsmall",
        some (.bearer (SecretRef.mk "provider_api_key"))⟩ _ rfl rfl (by decide)⟩

end TokenStation
