import TokenStation.Library.Keyed
import TokenStation.Library.Listings
import TokenStation.Release.PluginPackage

/-!
# The files of a package

A package covers the regular files below its root, except the signature. The walk collects exactly
their paths, each once, and the digest of an accepted package is the text of its listing: the paths
in their order, and the hash of what stands at each.
-/

namespace TokenStation

namespace PluginPackage

open Library

/-! ## What a package covers -/

/-- A directory of Unix: its names differ, and a name is not empty and has no slash. -/
def DirEntry.Proper (entry : DirEntry) : Prop :=
  ∀ path entries, entry.at path = some (.directory entries) →
    DistinctKeys Prod.fst entries ∧
      ∀ text, .utf8 text ∈ entries.map Prod.fst → text ≠ "" ∧ '/' ∉ text.toList

/-- A package as a file system can hold it. -/
structure UnixPackage where
  root : DirEntry
  proper : root.Proper

/-- A regular file stands at the path. -/
def FileAt (entry : DirEntry) (path : OsPath) : Prop :=
  ∃ content links, entry.at path = some (.file content links)

/-- A regular file with this content stands at the path, and not at the signature's place. -/
def Covers (package : DirEntry) (path : OsPath) (content : List UInt8) : Prop :=
  path.head? ≠ some pluginSignatureFile ∧ ∃ links, package.at path = some (.file content links)

theorem DirEntry.Proper.distinct {entries : List (OsName × DirEntry)}
    (h : (DirEntry.directory entries).Proper) : DistinctKeys Prod.fst entries :=
  (h [] entries rfl).1

theorem at_cons_eq_some {entries : List (OsName × DirEntry)}
    (h : DistinctKeys Prod.fst entries) {name : OsName} {below : OsPath} {found : DirEntry} :
    (DirEntry.directory entries).at (name :: below) = some found ↔
      ∃ entry, (name, entry) ∈ entries ∧ entry.at below = some found := by
  rw [DirEntry.at, Option.bind_eq_some_iff]
  constructor
  · rintro ⟨⟨other, entry⟩, hentry, hfound⟩
    obtain ⟨hmem, rfl⟩ := h.find?_eq_some_iff.mp hentry
    exact ⟨entry, hmem, hfound⟩
  · rintro ⟨entry, hmem, hfound⟩
    exact ⟨(name, entry), h.find?_eq_some_iff.mpr ⟨hmem, rfl⟩, hfound⟩

/-- What stands in a proper directory is proper. -/
theorem DirEntry.Proper.of_mem {entries : List (OsName × DirEntry)}
    (h : (DirEntry.directory entries).Proper) {name : OsName} {entry : DirEntry}
    (hmem : (name, entry) ∈ entries) : entry.Proper := by
  intro path below hbelow
  exact h (name :: path) below ((at_cons_eq_some h.distinct).mpr ⟨entry, hmem, hbelow⟩)

theorem fileAt_cons {entries : List (OsName × DirEntry)} (h : DistinctKeys Prod.fst entries)
    {name : OsName} {below : OsPath} :
    FileAt (.directory entries) (name :: below) ↔
      ∃ entry, (name, entry) ∈ entries ∧ FileAt entry below := by
  constructor
  · rintro ⟨content, links, hfile⟩
    obtain ⟨entry, hmem, hbelow⟩ := (at_cons_eq_some h).mp hfile
    exact ⟨entry, hmem, content, links, hbelow⟩
  · rintro ⟨entry, hmem, content, links, hbelow⟩
    exact ⟨content, links, (at_cons_eq_some h).mpr ⟨entry, hmem, hbelow⟩⟩

/-! ## The walk -/

/-- The paths that one member of a directory adds. -/
def Adds (files files' : List OsPath) (P : OsPath → Prop) : Prop :=
  ∃ found, files' = files ++ found ∧ found.Nodup ∧ ∀ path, path ∈ found ↔ P path

theorem adds_nil (files : List OsPath) {P : OsPath → Prop} (h : ∀ path, ¬ P path) :
    Adds files files P :=
  ⟨[], (List.append_nil files).symm, List.nodup_nil,
    fun path ↦ iff_of_false List.not_mem_nil (h path)⟩

theorem Adds.trans {files files' files'' : List OsPath} {P P' : OsPath → Prop}
    (h : Adds files files' P) (h' : Adds files' files'' P') (hapart : ∀ path, P path → ¬ P' path) :
    Adds files files'' fun path ↦ P path ∨ P' path := by
  obtain ⟨found, rfl, hnodup, hmem⟩ := h
  obtain ⟨found', rfl, hnodup', hmem'⟩ := h'
  refine ⟨found ++ found', List.append_assoc files found found', ?_, fun path ↦ ?_⟩
  · refine List.nodup_append.mpr ⟨hnodup, hnodup', fun path hpath other hother heq ↦ ?_⟩
    exact hapart path ((hmem path).mp hpath) ((hmem' path).mp (heq ▸ hother))
  · rw [List.mem_append, hmem, hmem']

theorem Adds.congr {files files' : List OsPath} {P P' : OsPath → Prop} (h : Adds files files' P)
    (heq : ∀ path, P path ↔ P' path) : Adds files files' P' := by
  obtain ⟨found, hfound, hnodup, hmem⟩ := h
  exact ⟨found, hfound, hnodup, fun path ↦ (hmem path).trans (heq path)⟩

mutual

theorem adds_collectEntry {relative : OsPath} {depth : ℕ} {files files' : List OsPath} :
    ∀ {entry : DirEntry}, entry.Proper → relative ≠ [] →
      collectEntry relative depth entry files = .ok files' →
      Adds files files' fun path ↦ ∃ below, path = relative ++ below ∧ FileAt entry below
  | .symlink, _, _, h => nomatch h
  | .special, _, _, h => nomatch h
  | .file content links, _, _, h => by
    rw [collectEntry] at h
    split at h
    · nomatch h
    · obtain rfl := Except.ok.inj h
      refine ⟨[relative], rfl, List.nodup_singleton _, fun path ↦ ?_⟩
      rw [List.mem_singleton]
      constructor
      · rintro rfl
        exact ⟨[], (List.append_nil _).symm, content, links, rfl⟩
      · rintro ⟨below, rfl, content', links', hfile⟩
        rcases below with - | ⟨name, below⟩
        · exact List.append_nil relative
        · nomatch hfile
  | .directory entries, hproper, hrelative, h => by
    rw [collectEntry] at h
    split at h
    · nomatch h
    · refine (adds_collectPluginFiles hproper.distinct (fun _ _ ↦ hproper.of_mem) h).congr
        fun path ↦ ?_
      constructor
      · rintro ⟨name, below, rfl, -, hfile⟩
        exact ⟨name :: below, rfl, hfile⟩
      · rintro ⟨below, rfl, hfile⟩
        rcases below with - | ⟨name, below⟩
        · obtain ⟨_, _, hfile⟩ := hfile
          nomatch hfile
        · refine ⟨name, below, rfl, fun heq ↦ ?_, hfile⟩
          -- only the root has a member with a path of one name
          exact hrelative (List.append_eq_singleton_iff.mp heq |>.elim (·.1) fun h ↦ nomatch h.2)

theorem adds_collectPluginFiles {directory : OsPath} {depth : ℕ} {files files' : List OsPath} :
    ∀ {entries : List (OsName × DirEntry)}, DistinctKeys Prod.fst entries →
      (∀ name entry, (name, entry) ∈ entries → entry.Proper) →
      collectPluginFiles directory depth entries files = .ok files' →
      Adds files files' fun path ↦ ∃ name below, path = directory ++ name :: below ∧
        directory ++ [name] ≠ [pluginSignatureFile] ∧
        FileAt (.directory entries) (name :: below)
  | [], _, _, h => by
    rw [collectPluginFiles] at h
    obtain rfl := Except.ok.inj h
    refine adds_nil files ?_
    rintro path ⟨name, below, -, -, content, links, hfile⟩
    nomatch hfile
  | (first, entry) :: entries, hdistinct, hproper, h => by
    obtain ⟨hfirst, hrest⟩ := DistinctKeys.cons_iff.mp hdistinct
    have hproperRest : ∀ name entry, (name, entry) ∈ entries → entry.Proper :=
      fun name entry hmem ↦ hproper name entry (List.mem_cons_of_mem _ hmem)
    rw [collectPluginFiles] at h
    split at h
    next hskip =>
      -- the signature is left out, whatever stands there
      refine (adds_collectPluginFiles hrest hproperRest h).congr fun path ↦ ?_
      constructor
      · rintro ⟨name, below, rfl, hkeep, hfile⟩
        obtain ⟨found, hmem, hbelow⟩ := (fileAt_cons hrest).mp hfile
        exact ⟨name, below, rfl, hkeep,
          (fileAt_cons hdistinct).mpr ⟨found, List.mem_cons_of_mem _ hmem, hbelow⟩⟩
      · rintro ⟨name, below, rfl, hkeep, hfile⟩
        obtain ⟨found, hmem, hbelow⟩ := (fileAt_cons hdistinct).mp hfile
        rcases List.mem_cons.mp hmem with heq | hmem
        · obtain ⟨rfl, rfl⟩ := Prod.mk.inj heq
          exact absurd hskip hkeep
        · exact ⟨name, below, rfl, hkeep, (fileAt_cons hrest).mpr ⟨found, hmem, hbelow⟩⟩
    next hkeep =>
      split at h
      · nomatch h
      next files hfiles =>
        have hentry := adds_collectEntry (hproper first entry List.mem_cons_self)
          (List.append_ne_nil_of_right_ne_nil _ (List.cons_ne_nil _ _)) hfiles
        refine (hentry.trans (adds_collectPluginFiles hrest hproperRest h) ?_).congr
          fun path ↦ ?_
        · rintro _ ⟨below, rfl, -⟩ ⟨name, below', hsame, -, hfile⟩
          obtain ⟨found, hmem, -⟩ := (fileAt_cons hrest).mp hfile
          rw [List.append_assoc, List.append_cancel_left_eq, List.singleton_append] at hsame
          exact hfirst _ hmem (List.cons.inj hsame).1.symm
        · constructor
          · rintro (⟨below, rfl, hfile⟩ | ⟨name, below, rfl, hkeep, hfile⟩)
            · exact ⟨first, below, List.append_assoc directory [first] below, hkeep,
                (fileAt_cons hdistinct).mpr ⟨entry, List.mem_cons_self, hfile⟩⟩
            · obtain ⟨found, hmem, hbelow⟩ := (fileAt_cons hrest).mp hfile
              exact ⟨name, below, rfl, hkeep,
                (fileAt_cons hdistinct).mpr ⟨found, List.mem_cons_of_mem _ hmem, hbelow⟩⟩
          · rintro ⟨name, below, rfl, hkeep, hfile⟩
            obtain ⟨found, hmem, hbelow⟩ := (fileAt_cons hdistinct).mp hfile
            rcases List.mem_cons.mp hmem with heq | hmem
            · obtain ⟨rfl, rfl⟩ := Prod.mk.inj heq
              exact Or.inl ⟨below, (List.append_assoc directory [name] below).symm, hbelow⟩
            · exact Or.inr ⟨name, below, rfl, hkeep,
                (fileAt_cons hrest).mpr ⟨found, hmem, hbelow⟩⟩

end

/-! ## The order of paths -/

/-- A path of names that are texts. -/
def textPath (names : List String) : OsPath := names.map .utf8

theorem bytes_utf8 (text : String) :
    (OsName.utf8 text).bytes = (text.toList.flatMap String.utf8EncodeChar).map UInt8.toNat := by
  rw [OsName.bytes, SelfDelimiting.utf8_eq_flatMap]

theorem bytes_lt_of_toList_eq {text text' : String} {c : Char} {rest : List Char}
    (h : text'.toList = text.toList ++ c :: rest) :
    (OsName.utf8 text).bytes < (OsName.utf8 text').bytes := by
  have hlt : ([] : List ℕ) < ((c :: rest).flatMap String.utf8EncodeChar).map UInt8.toNat := by
    obtain ⟨first, more, hmore⟩ := List.exists_cons_of_ne_nil
      (String.utf8EncodeChar_ne_nil : String.utf8EncodeChar c ≠ [])
    rw [List.flatMap_cons, hmore, List.cons_append, List.map_cons]
    exact List.nil_lt_cons _ _
  rw [bytes_utf8, bytes_utf8, h, List.flatMap_append, List.map_append]
  generalize (text.toList.flatMap String.utf8EncodeChar).map UInt8.toNat = bytes
  have hlonger : bytes ++ [] < bytes ++ _ := List.append_left_lt hlt
  rwa [List.append_nil] at hlonger

/-- A path whose spelling goes on after that of another one with a line break comes later. -/
theorem pathKey_lt {names names' : List String} (hne : names ≠ []) (hne' : names' ≠ [])
    (hslash : ∀ name ∈ names, '/' ∉ name.toList) (hslash' : ∀ name ∈ names', '/' ∉ name.toList)
    {rest : List Char}
    (h : ("/".intercalate names').toList = ("/".intercalate names).toList ++ '\n' :: rest) :
    pathKey (textPath names) < pathKey (textPath names') := by
  induction names generalizing names' with
  | nil => exact absurd rfl hne
  | cons name names ih =>
    rcases names' with - | ⟨name', names'⟩
    · exact absurd rfl hne'
    obtain ⟨hname, hnames⟩ := List.forall_mem_cons.mp hslash
    obtain ⟨hname', hnames'⟩ := List.forall_mem_cons.mp hslash'
    rcases names with - | ⟨second, names⟩
    · -- the first component ends the shorter path, and the other one has more
      have hbeyond : ∃ more, name'.toList = name.toList ++ '\n' :: more := by
        rcases names' with - | ⟨second', names'⟩
        · exact ⟨rest, by simpa using h⟩
        · rw [String.intercalate_cons_cons, String.intercalate_singleton, String.toList_append,
            String.toList_append, List.append_assoc] at h
          rcases List.append_eq_append_iff.mp h with ⟨more, hmore, hrest⟩ | ⟨more, hmore, hrest⟩
          · rcases more with - | ⟨first, more⟩
            · exact absurd (List.cons.inj hrest).1 (by decide)
            · exact absurd (hmore ▸ List.mem_append_right _ (List.mem_cons.mpr
                (Or.inl (List.cons.inj hrest).1))) hname
          · rcases more with - | ⟨first, more⟩
            · exact absurd (List.cons.inj hrest).1 (by decide)
            · exact ⟨more, (List.cons.inj hrest).1 ▸ hmore⟩
      obtain ⟨more, hmore⟩ := hbeyond
      exact List.cons_lt_cons_iff.mpr (Or.inl (bytes_lt_of_toList_eq hmore))
    · rw [String.intercalate_cons_cons, String.toList_append, String.toList_append] at h
      rcases names' with - | ⟨second', names'⟩
      · have hmem : '/' ∈ name'.toList := by
          rw [String.intercalate_singleton] at h
          simp [h]
        exact absurd hmem hname'
      · have hsplit : name'.toList ++ '/' :: ("/".intercalate (second' :: names')).toList =
            name.toList ++ '/' :: (("/".intercalate (second :: names)).toList ++ '\n' :: rest) := by
          rw [String.intercalate_cons_cons, String.toList_append, String.toList_append,
            List.append_assoc, List.append_assoc, List.append_assoc] at h
          exact h
        have hsame : name'.toList = name.toList :=
          (Listing.prefix_of_append_eq hname' hsplit).eq_of_length_le
            (Listing.prefix_of_append_eq hname hsplit.symm).length_le
        obtain rfl := String.toList_injective hsame
        refine List.cons_lt_cons_iff.mpr (Or.inr ⟨rfl, ?_⟩)
        exact ih (List.cons_ne_nil _ _) (List.cons_ne_nil _ _) hnames hnames'
          (List.cons.inj (List.append_cancel_left hsplit)).2

/-! ## The listing of an accepted package -/

/-- The path of a file and its content. -/
abbrev Listed : Type := List String × List UInt8

section Listing

variable {sha256 : List UInt8 → List UInt8}

/-- What the digest says of a file. -/
def tagged (sha256 : List UInt8 → List UInt8) (file : Listed) : Tagged Char :=
  (("/".intercalate file.1).toList, (sha256File sha256 file.2).toList)

theorem lineFeed_notMem_tagged (file : Listed) : '\n' ∉ (tagged sha256 file).2 := by
  intro hmem
  rw [tagged, sha256File, String.toList_ofList] at hmem
  exact absurd (Hex.isDigit_of_mem_encode hmem) (by decide)

theorem eq_textPath_of_mapM {relative : OsPath} {names : List String}
    (hnames : relative.mapM OsName.toStr = some names) : relative = textPath names := by
  induction relative generalizing names with
  | nil =>
    obtain rfl := Option.some.inj hnames
    rfl
  | cons first relative ih =>
    rw [List.mapM_cons] at hnames
    obtain ⟨text, htext, hnames⟩ := Option.bind_eq_some_iff.mp hnames
    obtain ⟨texts, htexts, hnames⟩ := Option.bind_eq_some_iff.mp hnames
    obtain rfl := Option.some.inj hnames
    rcases first with own | bytes
    · obtain rfl := Option.some.inj htext
      rw [ih htexts]
      rfl
    · nomatch htext

theorem eq_textPath_of_pathStr {relative : OsPath} {name : String}
    (h : pathStr relative = some name) :
    ∃ names, relative = textPath names ∧ name = "/".intercalate names := by
  obtain ⟨names, hnames, rfl⟩ := Option.map_eq_some_iff.mp h
  exact ⟨names, eq_textPath_of_mapM hnames, rfl⟩

/-- The loop writes one entry of the listing after the other. -/
theorem digestFiles_eq_ok {package : DirEntry} {files : List OsPath} {totalBytes : ℕ}
    {digest text : String} (h : digestFiles sha256 package files totalBytes digest = .ok text) :
    ∃ listing : List Listed, files = listing.map (fun file ↦ textPath file.1) ∧
      (∀ file ∈ listing, ∃ links, package.at (textPath file.1) = some (.file file.2 links)) ∧
      text.toList = digest.toList ++ Listing.text '\n' (listing.map (tagged sha256)) := by
  induction files generalizing totalBytes digest with
  | nil =>
    rw [digestFiles] at h
    obtain rfl := Except.ok.inj h
    exact ⟨[], rfl, by rintro _ ⟨⟩, (List.append_nil _).symm⟩
  | cons relative files ih =>
    rw [digestFiles] at h
    split at h
    next content links hfile =>
      split_ifs at h
      split at h
      · cases h
      next name hname =>
        obtain ⟨listing, rfl, hfiles, htext⟩ := ih h
        obtain ⟨names, rfl, rfl⟩ := eq_textPath_of_pathStr hname
        refine ⟨(names, content) :: listing, rfl, ?_, ?_⟩
        · exact List.forall_mem_cons.mpr ⟨⟨links, hfile⟩, hfiles⟩
        · have hentry : (digest ++ "/".intercalate names ++ "\n" ++ sha256File sha256 content ++
              "\n").toList = digest.toList ++
                (Listing.spelling '\n' (tagged sha256 (names, content)) ++ ['\n']) := by
            simp [Listing.spelling, tagged]
          rw [htext, hentry, List.map_cons, Listing.text_cons, List.append_assoc, List.append_assoc]
          rfl
    · cases h

/-- The files of a package in the order of their paths. -/
structure IsListing (package : DirEntry) (listing : List Listed) : Prop where
  sorted : listing.Pairwise fun file other ↦
    pathKey (textPath file.1) < pathKey (textPath other.1)
  covers : ∀ path content, Covers package path content ↔
    ∃ names, path = textPath names ∧ (names, content) ∈ listing
  named : ∀ file ∈ listing, file.1 ≠ [] ∧ ∀ name ∈ file.1, name ≠ "" ∧ '/' ∉ name.toList

theorem pathKey_textPath_injective : Function.Injective fun names ↦ pathKey (textPath names) := by
  intro names names' h
  have hbytes : Function.Injective fun text ↦ (OsName.utf8 text).bytes := by
    intro text text' hbytes
    have hutf8 : SelfDelimiting.utf8 text = SelfDelimiting.utf8 text' :=
      List.map_injective_iff.mpr (fun _ _ ↦ UInt8.toNat_inj.mp) hbytes
    exact String.toByteArray_inj.mp (ByteArray.ext (Array.toList_inj.mp hutf8))
  refine List.map_injective_iff.mpr hbytes ?_
  simpa [pathKey, textPath, Function.comp_def] using h

/-- The names on the way to something are proper. -/
theorem DirEntry.Proper.names {entry : DirEntry} (hproper : entry.Proper) {path : OsPath}
    {found : DirEntry} (h : entry.at path = some found) {text : String}
    (hmem : .utf8 text ∈ path) : text ≠ "" ∧ '/' ∉ text.toList := by
  induction path generalizing entry with
  | nil => nomatch hmem
  | cons name path ih =>
    rcases entry with ⟨_, _⟩ | entries | _ | _
    · nomatch h
    · obtain ⟨below, hbelow, hfound⟩ := (at_cons_eq_some hproper.distinct).mp h
      rcases List.mem_cons.mp hmem with rfl | hmem
      · exact (hproper [] entries rfl).2 text (List.mem_map_of_mem hbelow)
      · exact ih (hproper.of_mem hbelow) hfound hmem
    · nomatch h
    · nomatch h

/-- The digest of an accepted package is the text of its listing. -/
theorem exists_listing {package : UnixPackage} {digest : String}
    (h : pluginPackageDigest sha256 package.root = .ok digest) :
    ∃ listing, IsListing package.root listing ∧
      digest.toList = Listing.text '\n' (listing.map (tagged sha256)) := by
  obtain ⟨root, hproper⟩ := package
  change pluginPackageDigest sha256 root = .ok digest at h
  change ∃ listing, IsListing root listing ∧ _
  rcases root with ⟨_, _⟩ | entries | _ | _
  · nomatch h
  rw [pluginPackageDigest] at h
  split at h
  · nomatch h
  next files hcollect =>
    split_ifs at h
    obtain ⟨listing, hfiles, hcontents, htext⟩ := digestFiles_eq_ok h
    obtain ⟨found, hfound, hnodup, hmem⟩ :=
      adds_collectPluginFiles hproper.distinct (fun _ _ ↦ hproper.of_mem) hcollect
    obtain rfl : files = found := hfound
    have hlisted : ∀ path, path ∈ files ↔ ∃ file ∈ listing, textPath file.1 = path := by
      intro path
      rw [← (sortByKey_perm pathKey files).mem_iff, hfiles, List.mem_map]
    refine ⟨listing, ⟨?_, ?_, ?_⟩, htext⟩
    · have hle := sortByKey_pairwise pathKey files
      have hne : (sortByKey pathKey files).Nodup :=
        ((sortByKey_perm pathKey files).nodup_iff).mpr hnodup
      rw [hfiles, List.pairwise_map] at hle
      rw [hfiles, List.Nodup, List.pairwise_map] at hne
      refine (hle.and hne).imp fun {file other} hboth ↦ lt_of_le_of_ne hboth.1 fun heq ↦ ?_
      exact hboth.2 (congrArg textPath (pathKey_textPath_injective heq))
    · intro path content
      constructor
      · rintro ⟨hhead, links, hfile⟩
        have hpath : path ∈ files := by
          refine (hmem path).mpr ?_
          rcases path with - | ⟨name, below⟩
          · nomatch hfile
          · exact ⟨name, below, rfl, fun heq ↦ hhead (congrArg List.head? heq), content, links,
              hfile⟩
        obtain ⟨⟨names, listed⟩, hlisting, rfl⟩ := (hlisted path).mp hpath
        obtain ⟨links', hsame⟩ := hcontents _ hlisting
        obtain ⟨rfl, -⟩ := DirEntry.file.inj (Option.some.inj (hfile.symm.trans hsame))
        exact ⟨names, rfl, hlisting⟩
      · rintro ⟨names, rfl, hlisting⟩
        obtain ⟨links, hfile⟩ := hcontents _ hlisting
        obtain ⟨name, below, hpath, hkeep, -⟩ :=
          (hmem _).mp ((hlisted _).mpr ⟨_, hlisting, rfl⟩)
        refine ⟨fun hhead ↦ hkeep ?_, links, hfile⟩
        rw [hpath] at hhead
        exact congrArg (fun first ↦ [first]) (Option.some.inj hhead)
    · rintro ⟨names, content⟩ hlisting
      obtain ⟨links, hfile⟩ := hcontents _ hlisting
      refine ⟨?_, fun name hname ↦ hproper.names hfile (List.mem_map_of_mem hname)⟩
      rintro rfl
      nomatch hfile
  · nomatch h
  · nomatch h

end Listing

end PluginPackage

end TokenStation
