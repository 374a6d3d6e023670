import TokenStation.Library.UrlPath
import TokenStation.Protocol.Text

/-!
# The provider endpoint and the gate in front of the credential

A provider adapter chooses the URL the host opens and names the credential the host attaches. The
gate is `ProviderConfig.authorize`: the URL must be permitted by the configured endpoint and the
slot must be the configured one. A `ProviderEndpoint` carries what its parser checked: a path that
is rooted, has no ambiguous spelling and does not end in a slash.
-/

namespace TokenStation

open Library UrlPath

/-- The bytes of a text. -/
def utf8 (text : List Char) : List UInt8 := text.flatMap String.utf8EncodeChar

theorem utf8_append (start rest : List Char) : utf8 (start ++ rest) = utf8 start ++ utf8 rest :=
  List.flatMap_append

theorem utf8_slash (rest : List Char) : utf8 ('/' :: rest) = slash :: utf8 rest := rfl

theorem slash_mem_utf8EncodeChar {c : Char} (h : slash ∈ String.utf8EncodeChar c) : c = '/' := by
  have hslash : slash.toNat = 47 := rfl
  have hval : c.val.toNat = 47 := by
    rw [String.utf8EncodeChar] at h
    split_ifs at h <;>
      simp only [List.mem_cons, List.not_mem_nil, or_false, ← UInt8.toNat_inj,
        UInt8.toNat_ofNat', hslash] at h <;> omega
  exact Char.ext (UInt32.toNat_inj.mp hval)

/-- A text that is empty or starts at a slash. -/
def StartsAtSlash (text : List Char) : Prop := text = [] ∨ ∃ rest, text = '/' :: rest

theorem StartsAtSlash.rooted {text : List Char} (h : StartsAtSlash text) : Rooted (utf8 text) := by
  rcases h with rfl | ⟨rest, rfl⟩
  · exact .inl rfl
  · exact .inr ⟨utf8 rest, utf8_slash rest⟩

theorem StartsAtSlash.append {start rest : List Char} (h : StartsAtSlash start)
    (hrest : StartsAtSlash rest) : StartsAtSlash (start ++ rest) := by
  rcases h with rfl | ⟨tail, rfl⟩
  · exact hrest
  · exact .inr ⟨tail ++ rest, rfl⟩

/-- `cut` is the text up to one of its slashes, or all of it. -/
def CutAtSlash (cut text : List Char) : Prop := ∃ rest, text = cut ++ rest ∧ StartsAtSlash rest

theorem CutAtSlash.trans {first second text : List Char} (h : CutAtSlash first second)
    (h' : CutAtSlash second text) : CutAtSlash first text := by
  obtain ⟨rest, rfl, hrest⟩ := h
  obtain ⟨rest', rfl, hrest'⟩ := h'
  exact ⟨rest ++ rest', List.append_assoc .., hrest.append hrest'⟩

theorem CutAtSlash.startsAtSlash {cut text : List Char} (h : CutAtSlash cut text)
    (htext : StartsAtSlash text) : StartsAtSlash cut := by
  obtain ⟨rest, rfl, -⟩ := h
  cases cut with
  | nil => exact .inl rfl
  | cons c cut =>
    rcases htext with hnil | ⟨tail, htail⟩
    · nomatch hnil
    · obtain ⟨rfl, -⟩ := List.cons.inj htail
      exact .inr ⟨cut, rfl⟩

/-! ## Ambiguous paths -/

/-- Whether an escape may decode to `/` inside a path segment. -/
inductive EncodedSlash where
  | refuse
  | admitInSegment
  deriving DecidableEq

/-- The byte `\`. -/
def backslash : UInt8 := 92

def isAsciiControl (byte : UInt8) : Bool := byte < 32 || byte == 127

/-- Decode the escapes of a segment; nothing for an escape that is cut short, is not hexadecimal, or
spells a byte that may not be escaped. -/
def decodeSegment (encodedSlash : EncodedSlash) : Segment → Option (List UInt8)
  | [] => some []
  | byte :: high :: low :: rest =>
    if byte = percent then
      match hexByte high low with
      | none => none
      | some decoded =>
        if decoded == backslash || isAsciiControl decoded
            || (decoded == slash && encodedSlash == .refuse) then none
        else (decodeSegment encodedSlash rest).map (decoded :: ·)
    else (decodeSegment encodedSlash (high :: low :: rest)).map (byte :: ·)
  | byte :: rest =>
    if byte = percent then none else (decodeSegment encodedSlash rest).map (byte :: ·)

def isDotSegment (segment : Segment) : Bool := segment == dot || segment == dotDot

def segmentIsAmbiguous (encodedSlash : EncodedSlash) (segment : Segment) : Bool :=
  if isDotSegment segment then true
  else
    match decodeSegment encodedSlash segment with
    | none => true
    | some decoded =>
      if decoded.contains slash then
        (decoded.splitOn slash).any fun piece ↦ piece.isEmpty || isDotSegment piece
      else isDotSegment decoded

/-- Whether a client and a server could read the path as two different ones. -/
def pathIsAmbiguous (encodedSlash : EncodedSlash) (path : List UInt8) : Bool :=
  path.contains backslash || decide ([slash, slash] <:+: path)
    || path.any (fun byte ↦ isAsciiControl byte || byte == 32)
    || (path.splitOn slash).any (segmentIsAmbiguous encodedSlash)

theorem pathIsAmbiguous_eq_false {encodedSlash : EncodedSlash} {path : List UInt8} :
    pathIsAmbiguous encodedSlash path = false ↔ backslash ∉ path ∧ ¬ [slash, slash] <:+: path ∧
      (∀ byte ∈ path, (isAsciiControl byte || byte == 32) = false) ∧
      ∀ s ∈ path.splitOn slash, segmentIsAmbiguous encodedSlash s = false := by
  simp only [pathIsAmbiguous, Bool.or_eq_false_iff, List.contains_eq_mem, decide_eq_false_iff_not,
    List.any_eq_false, Bool.not_eq_true, and_assoc]

theorem pathIsAmbiguous_of_append {encodedSlash : EncodedSlash} {path tail : List UInt8}
    (htail : Rooted tail) (h : pathIsAmbiguous encodedSlash (path ++ tail) = false) :
    pathIsAmbiguous encodedSlash path = false := by
  obtain ⟨hbackslash, hslash, hbytes, hsegments⟩ := pathIsAmbiguous_eq_false.mp h
  refine pathIsAmbiguous_eq_false.mpr ⟨?_, ?_, ?_, ?_⟩
  · exact fun hmem ↦ hbackslash (List.mem_append_left _ hmem)
  · exact fun hslashes ↦ hslash (hslashes.trans (List.prefix_append path tail).isInfix)
  · exact fun byte hbyte ↦ hbytes byte (List.mem_append_left _ hbyte)
  · intro s hs
    apply hsegments
    rcases htail with rfl | ⟨rest, rfl⟩
    · rwa [List.append_nil]
    · rw [List.splitOn_append_cons_self]
      exact List.mem_append_left _ hs

/-! ## Endpoints -/

/-- Why a base URL is not usable as a provider endpoint. -/
inductive EndpointError where
  | notHttp
  | missingHost
  | carriesUserinfo
  | authorityCarriesWhitespace
  | carriesQueryOrFragment
  | ambiguousPath
  deriving DecidableEq

/-- The characters that end an authority. -/
def endsAuthority (c : Char) : Bool := c == '/' || c == '?' || c == '#'

/-- The characters that end a path. -/
def endsPath (c : Char) : Bool := c == '?' || c == '#'

def schemes : List (List Char) := ["https://".toList, "http://".toList]

/-- Split `http(s)://authority/rest` into a lowercased origin and the remainder. -/
def splitOrigin (url : List Char) : Except EndpointError (List Char × List Char) :=
  match schemes.findSome? fun scheme ↦ (stripPrefix scheme url).map fun rest ↦ (scheme, rest) with
  | none => .error .notHttp
  | some (scheme, afterScheme) =>
    let authority := afterScheme.takeWhile fun c ↦ !endsAuthority c
    let rest := afterScheme.dropWhile fun c ↦ !endsAuthority c
    if authority.isEmpty then .error .missingHost
    else if authority.contains '@' then .error .carriesUserinfo
    else if authority.any isWhitespace then .error .authorityCarriesWhitespace
    else .ok (scheme ++ toAsciiLowercase authority, rest)

/-- The canonical provider API endpoints. -/
inductive ProviderApi where
  | chatCompletions
  | responses
  | messages
  | models
  deriving DecidableEq

namespace ProviderApi

def all : List ProviderApi := [chatCompletions, responses, messages, models]

def path : ProviderApi → String
  | chatCompletions => "chat/completions"
  | responses => "responses"
  | messages => "messages"
  | models => "models"

end ProviderApi

/-- `path.trim_end_matches('/')`. -/
def trimSlashes (path : List Char) : List Char := trimEndMatches (· == '/') path

/-- A complete API endpoint is cut back to its root. -/
def normalizeApiRoot (path : List Char) : List Char :=
  trimSlashes ((ProviderApi.all.findSome? fun api ↦
    stripSuffix ('/' :: api.path.toList) path).getD path)

theorem trimSlashes_cutAtSlash (path : List Char) : CutAtSlash (trimSlashes path) path := by
  refine ⟨path.rtakeWhile (· == '/'), (List.rdropWhile_append_rtakeWhile ..).symm, ?_⟩
  cases htaken : path.rtakeWhile (· == '/') with
  | nil => exact .inl rfl
  | cons c rest =>
    have hc : c ∈ path.rtakeWhile (· == '/') := htaken ▸ List.mem_cons_self
    obtain rfl : c = '/' := by simpa using List.mem_rtakeWhile_imp hc
    exact .inr ⟨rest, rfl⟩

theorem trimSlashes_getLast? (path : List Char) : (trimSlashes path).getLast? ≠ some '/' := by
  intro hlast
  have hne : path.rdropWhile (· == '/') ≠ [] := by
    intro hnil
    rw [trimSlashes, trimEndMatches, hnil] at hlast
    cases hlast
  rw [trimSlashes, trimEndMatches, List.getLast?_eq_some_getLast hne] at hlast
  exact List.rdropWhile_last_not _ _ hne (by simpa using hlast)

theorem CutAtSlash.unambiguous {encodedSlash : EncodedSlash} {cut text : List Char}
    (h : CutAtSlash cut text) (htext : pathIsAmbiguous encodedSlash (utf8 text) = false) :
    pathIsAmbiguous encodedSlash (utf8 cut) = false := by
  obtain ⟨rest, rfl, hrest⟩ := h
  rw [utf8_append] at htext
  exact pathIsAmbiguous_of_append hrest.rooted htext

theorem normalizeApiRoot_cutAtSlash (path : List Char) :
    CutAtSlash (normalizeApiRoot path) path := by
  refine (trimSlashes_cutAtSlash _).trans ?_
  cases hfound : ProviderApi.all.findSome? fun api ↦
      stripSuffix ('/' :: api.path.toList) path with
  | none => exact ⟨[], (List.append_nil _).symm, .inl rfl⟩
  | some root =>
    obtain ⟨api, -, hroot⟩ := List.exists_of_findSome?_eq_some hfound
    exact ⟨'/' :: api.path.toList, stripSuffix_eq_some hroot, .inr ⟨_, rfl⟩⟩

/-- What a split URL is made of. -/
theorem splitOrigin_eq_ok {url origin rest : List Char} (h : splitOrigin url = .ok (origin, rest)) :
    ∃ scheme ∈ schemes, ∃ authority, url = scheme ++ authority ++ rest ∧ authority ≠ [] ∧
      (∀ c ∈ authority, endsAuthority c = false) ∧
      (∀ c ∈ rest.head?, endsAuthority c = true) ∧
      origin = scheme ++ toAsciiLowercase authority := by
  rw [splitOrigin] at h
  split at h
  · nomatch h
  next scheme afterScheme hfound =>
    dsimp only at h
    split_ifs at h with hempty huserinfo hspace
    obtain ⟨horigin, hrest⟩ := Prod.mk.inj (Except.ok.inj h)
    obtain ⟨candidate, hscheme, hstrip⟩ := List.exists_of_findSome?_eq_some hfound
    obtain ⟨after, hafter, hpair⟩ := Option.map_eq_some_iff.mp hstrip
    obtain ⟨rfl, rfl⟩ := Prod.mk.inj hpair
    refine ⟨candidate, hscheme, after.takeWhile fun c ↦ !endsAuthority c, ?_, ?_, ?_, ?_, ?_⟩
    · rw [← hrest, List.append_assoc, List.takeWhile_append_dropWhile]
      exact stripPrefix_eq_some hafter
    · rwa [List.isEmpty_iff] at hempty
    · intro c hc
      simpa using List.mem_takeWhile_imp hc
    · intro c hc
      rw [← hrest] at hc
      have hnot := List.head?_dropWhile_not (fun c ↦ !endsAuthority c) after
      rw [Option.mem_def.mp hc] at hnot
      simpa using hnot
    · exact horigin.symm

theorem startsAtSlash_of_endsAuthority {rest : List Char}
    (hhead : ∀ c ∈ rest.head?, endsAuthority c = true) (hpath : ∀ c ∈ rest, endsPath c = false) :
    StartsAtSlash rest := by
  cases rest with
  | nil => exact .inl rfl
  | cons c rest =>
    have hc := hhead c rfl
    have hc' := hpath c List.mem_cons_self
    simp only [endsPath, Bool.or_eq_false_iff] at hc'
    rw [endsAuthority, hc'.1, hc'.2, Bool.or_false, Bool.or_false, beq_iff_eq] at hc
    exact .inr ⟨rest, by rw [hc]⟩

/-- The upstream an adapter is configured against, and the boundary that every request it builds
must stay inside. -/
structure ProviderEndpoint where
  origin : List Char
  path : List Char
  rooted : StartsAtSlash path
  unambiguous : pathIsAmbiguous .refuse (utf8 path) = false
  trimmed : path.getLast? ≠ some '/'
  deriving DecidableEq

namespace ProviderEndpoint

/-- Parse a base URL, refusing every shape that could carry a credential. -/
def tryNew (url : String) : Except EndpointError ProviderEndpoint :=
  match hsplit : splitOrigin url.toList with
  | .error refusal => .error refusal
  | .ok (origin, rest) =>
    if hquery : rest.any endsPath = true then .error .carriesQueryOrFragment
    else if hpath : pathIsAmbiguous .refuse (utf8 rest) = true then .error .ambiguousPath
    else
      have hcut : CutAtSlash (normalizeApiRoot (trimSlashes rest)) rest :=
        (normalizeApiRoot_cutAtSlash _).trans (trimSlashes_cutAtSlash rest)
      have hrest : StartsAtSlash rest := by
        obtain ⟨-, -, -, -, -, -, hhead, -⟩ := splitOrigin_eq_ok hsplit
        exact startsAtSlash_of_endsAuthority hhead (by simpa using hquery)
      .ok {
        origin
        path := normalizeApiRoot (trimSlashes rest)
        rooted := hcut.startsAtSlash hrest
        unambiguous := hcut.unambiguous (by simpa using hpath)
        trimmed := trimSlashes_getLast? _ }

/-- Whether `url` addresses this upstream: the same origin and a path at or below its own. -/
def permits (endpoint : ProviderEndpoint) (url : String) : Bool :=
  match splitOrigin url.toList with
  | .error _ => false
  | .ok (origin, rest) =>
    if origin != endpoint.origin then false
    else
      match stripPrefix endpoint.path (rest.takeWhile fun c ↦ !endsPath c) with
      | none => false
      | some tail =>
        (tail.isEmpty || tail.head? == some '/') && !pathIsAmbiguous .admitInSegment (utf8 tail)

def asStr (endpoint : ProviderEndpoint) : String := String.ofList (endpoint.origin ++ endpoint.path)

end ProviderEndpoint

/-! ## Descriptors -/

/-- The name of a credential slot. -/
structure SecretRef where
  name : String
  deriving DecidableEq

/-- Which credential the host attaches, and how it presents it. -/
inductive Auth where
  | bearer (secretRef : SecretRef)
  | header (name : String) (secretRef : SecretRef)
  | bearerAndHeader (name : String) (secretRef : SecretRef)
  | oauth (secretRef : SecretRef) (scopes : List String)
  deriving DecidableEq

def Auth.secret : Auth → SecretRef
  | bearer secretRef | header _ secretRef | bearerAndHeader _ secretRef | oauth secretRef _ =>
    secretRef

/-- The request an adapter asks the host to send. -/
structure HttpRequestDescriptor where
  url : String
  auth : Option Auth
  deriving DecidableEq

/-- Why the host refuses to send a descriptor. -/
inductive DescriptorError where
  | urlOutsideEndpoint (url endpoint : String)
  | undeclaredCredential (named declared : SecretRef)
  | unexpectedCredential (named : SecretRef)
  | missingCredential
  deriving DecidableEq

def DescriptorError.text : DescriptorError → String
  | urlOutsideEndpoint url endpoint =>
    s!"adapter addressed `{url}`, which is outside the configured endpoint `{endpoint}`"
  | undeclaredCredential named declared =>
    s!"adapter named credential `{named.name}`; this upstream holds `{declared.name}`"
  | unexpectedCredential named =>
    s!"adapter named credential `{named.name}`; this upstream is unauthenticated"
  | missingCredential => "adapter attached no credential; this upstream requires one"

/-- One configured upstream, as the host hands it to an adapter. -/
structure ProviderConfig where
  provider : String
  baseUrl : ProviderEndpoint
  auth : Option SecretRef

/-- The gate a host runs on a descriptor before it resolves the credential. -/
def ProviderConfig.authorize (config : ProviderConfig) (descriptor : HttpRequestDescriptor) :
    Except DescriptorError Unit :=
  if !config.baseUrl.permits descriptor.url then
    .error (.urlOutsideEndpoint descriptor.url config.baseUrl.asStr)
  else
    match config.auth, descriptor.auth with
    | none, some auth => .error (.unexpectedCredential auth.secret)
    | some _, none => .error .missingCredential
    | some slot, some auth =>
      if auth.secret != slot then .error (.undeclaredCredential auth.secret slot) else .ok ()
    | none, none => .ok ()

end TokenStation
