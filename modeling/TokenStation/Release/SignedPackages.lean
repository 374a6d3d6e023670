import Mathlib.Data.Set.Function
import TokenStation.Release.PackageFiles

/-!
# What a package signature says

A name may have line breaks, and then the text of one package may be the text of another one. That
is the only way: packages with one digest have the same files if and only if no name in one of them
goes on with a line break and the hash after the path of a file that it does not have.
-/

namespace TokenStation

namespace PluginPackage

open Library

/-- The same paths, with the same content at each, but for the signature. -/
def SameFiles (package package' : DirEntry) : Prop :=
  ∀ path content, Covers package path content ↔ Covers package' path content

/-- No file of two packages has the hash of another content. -/
def CollisionFree (sha256 : List UInt8 → List UInt8) (package package' : DirEntry) : Prop :=
  Set.InjOn sha256 {content | ∃ path, Covers package path content ∨ Covers package' path content}

/-- No name in the second package begins with the path of a file that it does not have, a line break
and the hash of that file in the first package. -/
def Unmistakable (sha256 : List UInt8 → List UInt8) (package package' : DirEntry) : Prop :=
  ∀ file other : Listed, Covers package (textPath file.1) file.2 →
    Covers package' (textPath other.1) other.2 →
    (∀ content, ¬ Covers package' (textPath file.1) content) →
      ¬ Listing.Swallows '\n' (tagged sha256 file) (tagged sha256 other)

section Digests

variable {sha256 : List UInt8 → List UInt8} {package package' : DirEntry}

theorem IsListing.covers_of_mem {listing : List Listed} (h : IsListing package listing)
    {file : Listed} (hmem : file ∈ listing) : Covers package (textPath file.1) file.2 :=
  (h.covers _ _).mpr ⟨file.1, rfl, hmem⟩

theorem textPath_injective : Function.Injective textPath :=
  fun _ _ h ↦ pathKey_textPath_injective (congrArg pathKey h)

theorem IsListing.mem_of_covers {listing : List Listed} (h : IsListing package listing)
    {names : List String} {content : List UInt8}
    (hcovers : Covers package (textPath names) content) :
    (names, content) ∈ listing := by
  obtain ⟨names', hsame, hmem⟩ := (h.covers _ _).mp hcovers
  obtain rfl := textPath_injective hsame
  exact hmem

/-- At the first difference of two listings, the swallowed path is missing in the other package. -/
theorem IsListing.mistaken {common rest rest' : List Listed} {file other : Listed}
    (h : IsListing package (common ++ file :: rest))
    (h' : IsListing package' (common ++ other :: rest'))
    (hswallows : Listing.Swallows '\n' (tagged sha256 file) (tagged sha256 other)) :
    ¬ Unmistakable sha256 package package' := by
  have hfile : file ∈ common ++ file :: rest := List.mem_append_right _ List.mem_cons_self
  have hother : other ∈ common ++ other :: rest' := List.mem_append_right _ List.mem_cons_self
  intro hunmistakable
  refine hunmistakable file other (h.covers_of_mem hfile) (h'.covers_of_mem hother)
    (fun content hcontent ↦ ?_) hswallows
  have hsorted := List.pairwise_append.mp h.sorted
  have hsorted' := List.pairwise_append.mp h'.sorted
  have hlater : pathKey (textPath file.1) < pathKey (textPath other.1) := by
    obtain ⟨more, hmore⟩ := hswallows
    have hspelled : ("/".intercalate other.1).toList = ("/".intercalate file.1).toList ++
        '\n' :: ((tagged sha256 file).2 ++ more) := by
      rw [Listing.spelling, List.append_assoc] at hmore
      exact hmore.symm
    exact pathKey_lt (h.named file hfile).1 (h'.named other hother).1
      (fun name hname ↦ ((h.named file hfile).2 name hname).2)
      (fun name hname ↦ ((h'.named other hother).2 name hname).2) hspelled
  rcases List.mem_append.mp (h'.mem_of_covers hcontent) with hmem | hmem
  · -- what comes before the first difference comes before the file
    exact lt_irrefl _ (hsorted.2.2 _ hmem file List.mem_cons_self)
  · rcases List.mem_cons.mp hmem with heq | hmem
    · exact hswallows.name_ne (by rw [← heq]; rfl)
    · exact lt_asymm hlater ((List.pairwise_cons.mp hsorted'.2.1).1 (file.1, content) hmem)

theorem sameFiles_of_listing {listing : List Listed} (h : IsListing package listing)
    (h' : IsListing package' listing) : SameFiles package package' :=
  fun path content ↦ (h.covers path content).trans (h'.covers path content).symm

theorem hash_injective (content content' : List UInt8)
    (h : (sha256File sha256 content).toList = (sha256File sha256 content').toList) :
    sha256 content = sha256 content' := by
  rw [sha256File, sha256File, String.toList_ofList, String.toList_ofList] at h
  exact Option.some.inj
    ((Hex.decode_encode _).symm.trans ((congrArg Hex.decode h).trans (Hex.decode_encode _)))

/-- A path is known by its spelling. -/
theorem names_eq_of_spelling {names names' : List String} (hne : names ≠ []) (hne' : names' ≠ [])
    (hslash : ∀ name ∈ names, '/' ∉ name.toList) (hslash' : ∀ name ∈ names', '/' ∉ name.toList)
    (h : ("/".intercalate names).toList = ("/".intercalate names').toList) : names = names' := by
  have hsplit : ∀ {names : List String}, names ≠ [] → (∀ name ∈ names, '/' ∉ name.toList) →
      (("/".intercalate names).toList).splitOn '/' = names.map String.toList := by
    intro names hne hslash
    rw [String.toList_intercalate]
    exact List.splitOn_intercalate '/' (List.forall_mem_map.mpr hslash)
      (fun hnil ↦ hne (List.map_eq_nil_iff.mp hnil))
  refine List.map_injective_iff.mpr (fun _ _ ↦ String.toList_injective) ?_
  rw [← hsplit hne hslash, ← hsplit hne' hslash', h]

variable {listing listing' : List Listed}

/-- Entries of two listings with the same texts are the same files. -/
theorem IsListing.eq_of_tagged_eq (h : IsListing package listing)
    (h' : IsListing package' listing') (hhash : CollisionFree sha256 package package')
    {file other : Listed} (hfile : file ∈ listing) (hother : other ∈ listing')
    (htagged : tagged sha256 file = tagged sha256 other) : file = other := by
  obtain ⟨hspelled, hhashed⟩ := Prod.mk.inj htagged
  refine Prod.ext ?_ (hhash ⟨_, Or.inl (h.covers_of_mem hfile)⟩
    ⟨_, Or.inr (h'.covers_of_mem hother)⟩ (hash_injective _ _ hhashed))
  exact names_eq_of_spelling (h.named file hfile).1 (h'.named other hother).1
    (fun name hname ↦ ((h.named file hfile).2 name hname).2)
    (fun name hname ↦ ((h'.named other hother).2 name hname).2) hspelled

/-- Two listings with one text are the same, or one of the packages can be mistaken for the
other. -/
theorem IsListing.eq_or_mistaken (h : IsListing package listing) (h' : IsListing package' listing')
    (hhash : CollisionFree sha256 package package')
    (htext : Listing.text '\n' (listing.map (tagged sha256)) =
      Listing.text '\n' (listing'.map (tagged sha256))) :
    listing = listing' ∨ ¬ Unmistakable sha256 package package' ∨
      ¬ Unmistakable sha256 package' package := by
  have hsame : ∀ {files files' : List Listed}, files ⊆ listing → files' ⊆ listing' →
      files.map (tagged sha256) = files'.map (tagged sha256) → files = files' := by
    intro files files' hfiles hfiles' hmap
    induction files generalizing files' with
    | nil => exact (List.map_eq_nil_iff.mp hmap.symm).symm
    | cons file files ih =>
      obtain ⟨other, others, rfl, hother, hothers⟩ := List.map_eq_cons_iff.mp hmap.symm
      obtain ⟨hfile, hrest⟩ := List.cons_subset.mp hfiles
      obtain ⟨hmem, hrest'⟩ := List.cons_subset.mp hfiles'
      rw [h.eq_of_tagged_eq h' hhash hfile hmem hother.symm, ih hrest hrest' hothers.symm]
  have hfree : ∀ {files : List Listed}, ∀ entry ∈ files.map (tagged sha256), '\n' ∉ entry.2 :=
    List.forall_mem_map.mpr fun file _ ↦ lineFeed_notMem_tagged file
  rcases Listing.eq_or_first_difference hfree hfree htext with hmap |
    ⟨common, entry, rest, other, rest', hentries, hentries', hswallows⟩
  · exact Or.inl (hsame (List.Subset.refl _) (List.Subset.refl _) hmap)
  · obtain ⟨files, more, rfl, hfiles, hmore⟩ := List.map_eq_append_iff.mp hentries
    obtain ⟨files', more', rfl, hfiles', hmore'⟩ := List.map_eq_append_iff.mp hentries'
    obtain ⟨file, more, rfl, rfl, rfl⟩ := List.map_eq_cons_iff.mp hmore
    obtain ⟨file', more', rfl, rfl, rfl⟩ := List.map_eq_cons_iff.mp hmore'
    obtain rfl := hsame (List.subset_append_left _ _) (List.subset_append_left _ _)
      (hfiles.trans hfiles'.symm)
    rcases hswallows with hswallows | hswallows
    · exact Or.inr (Or.inl (h.mistaken h' hswallows))
    · exact Or.inr (Or.inr (h'.mistaken h hswallows))

end Digests

/-- Packages with one digest have the same files if and only if none of them can be mistaken for the
other. -/
theorem sameFiles_iff {sha256 : List UInt8 → List UInt8} {package package' : UnixPackage}
    (hhash : CollisionFree sha256 package.root package'.root) {digest : String}
    (h : pluginPackageDigest sha256 package.root = .ok digest)
    (h' : pluginPackageDigest sha256 package'.root = .ok digest) :
    SameFiles package.root package'.root ↔
      Unmistakable sha256 package.root package'.root ∧
        Unmistakable sha256 package'.root package.root := by
  obtain ⟨listing, hlisting, htext⟩ := exists_listing h
  obtain ⟨listing', hlisting', htext'⟩ := exists_listing h'
  constructor
  · intro hsame
    refine ⟨fun file other hfile _ hlacks _ ↦ ?_, fun file other hfile _ hlacks _ ↦ ?_⟩
    · exact hlacks file.2 ((hsame _ _).mp hfile)
    · exact hlacks file.2 ((hsame _ _).mpr hfile)
  · rintro ⟨hunmistakable, hunmistakable'⟩
    rcases hlisting.eq_or_mistaken hlisting' hhash (htext.symm.trans htext') with
      rfl | hmistaken | hmistaken
    · exact sameFiles_of_listing hlisting hlisting'
    · exact absurd hunmistakable hmistaken
    · exact absurd hunmistakable' hmistaken

/-! ## Signatures -/

section Signatures

variable (sha256 : List UInt8 → List UInt8) (ed25519 : Ed25519) (display : OsPath → String)
  (readSignature : Option DirEntry → Except String PluginSignature)

/-- Only what was signed verifies: the digests of these packages. -/
def Unforgeable (signed : List UnixPackage) : Prop :=
  ∀ message raw, ed25519.verify message raw = true → ∃ package ∈ signed, ∃ digest,
    pluginPackageDigest sha256 package.root = .ok digest ∧ SelfDelimiting.utf8 digest = message

variable {sha256 ed25519 display readSignature}

theorem utf8_injective : Function.Injective SelfDelimiting.utf8 :=
  fun _ _ h ↦ String.toByteArray_inj.mp (ByteArray.ext (Array.toList_inj.mp h))

/-- An accepted package has the digest of a signed one. -/
theorem exists_signed {signed : List UnixPackage} (hsigned : Unforgeable sha256 ed25519 signed)
    {package : DirEntry}
    (h : verifyPluginPackage sha256 ed25519 display readSignature package = .ok ()) :
    ∃ origin ∈ signed, ∃ digest, pluginPackageDigest sha256 origin.root = .ok digest ∧
      pluginPackageDigest sha256 package = .ok digest := by
  rw [verifyPluginPackage] at h
  split at h
  · nomatch h
  next parsed _ =>
    split_ifs at h
    split at h
    · nomatch h
    next digest hdigest =>
      rw [verifyBytes] at h
      split at h
      · nomatch h
      next raw _ =>
        split_ifs at h with _ hverify
        obtain ⟨origin, hmem, digest', horigin, hsame⟩ := hsigned _ _ hverify
        obtain rfl := utf8_injective hsame
        exact ⟨origin, hmem, digest', horigin, hdigest⟩

end Signatures

/-! ## A name with line breaks -/

/-- The hashes of an empty file and of the letter b. -/
def sampleSha256 (content : List UInt8) : List UInt8 :=
  if content.isEmpty then
    [227, 176, 196, 66, 152, 252, 28, 20, 154, 251, 244, 200, 153, 111, 185, 36, 39,
    174, 65, 228, 100, 155, 147, 76, 164, 149, 153, 27, 120, 82, 184, 85]
  else
    [62, 35, 232, 22, 0, 57, 89, 74, 51, 137, 79, 101, 100, 225, 177, 52, 139,
    189, 122, 0, 136, 212, 44, 74, 203, 115, 238, 174, 213, 156, 0, 157]

/-- A directory that has files only. -/
structure FlatDirectory where
  files : List (OsName × List UInt8)
  distinct : DistinctKeys Prod.fst files
  named : ∀ text, .utf8 text ∈ files.map Prod.fst → text ≠ "" ∧ '/' ∉ text.toList

namespace FlatDirectory

variable (directory : FlatDirectory)

def entries : List (OsName × DirEntry) :=
  directory.files.map fun file ↦ (file.1, .file file.2 1)

theorem fst_entries : directory.entries.map Prod.fst = directory.files.map Prod.fst := by
  rw [entries, List.map_map]
  rfl

theorem distinct_entries : DistinctKeys Prod.fst directory.entries := by
  rw [DistinctKeys, fst_entries]
  exact directory.distinct

theorem exists_of_at {name : OsName} {below : OsPath} {found : DirEntry}
    (h : (DirEntry.directory directory.entries).at (name :: below) = some found) :
    below = [] ∧ ∃ content, (name, content) ∈ directory.files ∧ found = .file content 1 := by
  obtain ⟨entry, hmem, hfound⟩ := (at_cons_eq_some directory.distinct_entries).mp h
  obtain ⟨⟨name', content⟩, hfile, heq⟩ := List.mem_map.mp hmem
  obtain ⟨rfl, rfl⟩ := Prod.mk.inj heq
  rcases below with - | ⟨_, _⟩
  · exact ⟨rfl, content, hfile, (Option.some.inj hfound).symm⟩
  · nomatch hfound

def package : UnixPackage where
  root := .directory directory.entries
  proper path entries h := by
    rcases path with - | ⟨name, below⟩
    · obtain rfl := DirEntry.directory.inj (Option.some.inj h)
      exact ⟨directory.distinct_entries, directory.fst_entries ▸ directory.named⟩
    · obtain ⟨-, _, -, hfile⟩ := directory.exists_of_at h
      nomatch hfile

theorem exists_of_covers {path : OsPath} {content : List UInt8}
    (h : Covers directory.package.root path content) :
    ∃ name, (name, content) ∈ directory.files := by
  obtain ⟨-, links, hfile⟩ := h
  rcases path with - | ⟨name, below⟩
  · nomatch hfile
  · obtain ⟨-, content', hmem, heq⟩ := directory.exists_of_at hfile
    obtain ⟨rfl, -⟩ := DirEntry.file.inj heq
    exact ⟨name, hmem⟩

end FlatDirectory

/-- Two files. -/
def twoFiles : FlatDirectory where
  files := [(.utf8 "a", []), (.utf8 "b", [98])]
  distinct := by
    rw [DistinctKeys]
    decide
  named := by simp

/-- The same, read in another order and after the signature was written. -/
def signedFiles : FlatDirectory where
  files := [(.utf8 "b", [98]), (pluginSignatureFile, []), (.utf8 "a", [])]
  distinct := by
    rw [DistinctKeys]
    decide
  named := by simp [pluginSignatureFile]

/-- One file, whose name is all but the last line of the digest of the others. -/
def oneFile : FlatDirectory where
  files := [(.utf8 "a\ne3b0c44298fc1c149afbf4c8996fb92427ae41e4649b934ca495991b7852b855\nb", [98])]
  distinct := by
    rw [DistinctKeys]
    decide
  named := by simp

theorem collisionFree_samples {directory directory' : FlatDirectory}
    (h : ∀ file ∈ directory.files ++ directory'.files, file.2 = [] ∨ file.2 = [98]) :
    CollisionFree sampleSha256 directory.package.root directory'.package.root := by
  have hcontents : ∀ content, (∃ path, Covers directory.package.root path content ∨
      Covers directory'.package.root path content) → content = [] ∨ content = [98] := by
    rintro content ⟨path, hcovers | hcovers⟩
    · obtain ⟨name, hmem⟩ := directory.exists_of_covers hcovers
      exact h _ (List.mem_append_left _ hmem)
    · obtain ⟨name, hmem⟩ := directory'.exists_of_covers hcovers
      exact h _ (List.mem_append_right _ hmem)
  intro content hcontent content' hcontent' hsame
  rcases hcontents content hcontent with rfl | rfl <;>
    rcases hcontents content' hcontent' with rfl | rfl
  · rfl
  · exact absurd hsame (by decide)
  · exact absurd hsame (by decide)
  · rfl

def sampleDigest : String :=
  "a\ne3b0c44298fc1c149afbf4c8996fb92427ae41e4649b934ca495991b7852b855\n" ++
    "b\n3e23e8160039594a33894f6564e1b1348bbd7a0088d42c4acb73eeaed59c009d\n"

theorem digest_twoFiles :
    pluginPackageDigest sampleSha256 twoFiles.package.root = .ok sampleDigest := by
  rfl

theorem digest_signedFiles :
    pluginPackageDigest sampleSha256 signedFiles.package.root = .ok sampleDigest := by
  rfl

theorem digest_oneFile :
    pluginPackageDigest sampleSha256 oneFile.package.root = .ok sampleDigest := by
  rfl

/-- A key with which the two files were signed, and nothing else. -/
def sampleEd25519 : Ed25519 where
  sign _ := List.replicate 64 0
  verify message raw :=
    decide (message = SelfDelimiting.utf8 sampleDigest ∧ raw = List.replicate 64 0)

def sampleSignature (_ : Option DirEntry) : Except String PluginSignature :=
  .ok { formatVersion := 1, algorithm := "ed25519"
        signature := String.ofList (List.replicate 128 '0') }

set_option maxRecDepth 4000 in
theorem verify_signedFiles : verifyPluginPackage sampleSha256 sampleEd25519 (fun _ ↦ "")
    sampleSignature signedFiles.package.root = .ok () := by
  rfl

/-- What the digest and the signature of a package say about its files, whatever order a directory
is read in. -/
theorem signature_determines_package (sha256 : List UInt8 → List UInt8) (ed25519 : Ed25519)
    (display : OsPath → String) (readSignature : Option DirEntry → Except String PluginSignature)
    (signed : List UnixPackage) (package' : UnixPackage) :
    (∀ {package : UnixPackage} {digest : String},
      CollisionFree sha256 package.root package'.root →
      pluginPackageDigest sha256 package.root = .ok digest →
      pluginPackageDigest sha256 package'.root = .ok digest →
        (SameFiles package.root package'.root ↔
          Unmistakable sha256 package.root package'.root ∧
            Unmistakable sha256 package'.root package.root)) ∧
    ((∀ package ∈ signed, CollisionFree sha256 package.root package'.root) →
      Unforgeable sha256 ed25519 signed →
      verifyPluginPackage sha256 ed25519 display readSignature package'.root = .ok () →
        ∃ package ∈ signed,
          (∃ signature, signPluginPackage sha256 ed25519 display package.root = .ok signature) ∧
          (SameFiles package.root package'.root ↔
            Unmistakable sha256 package.root package'.root ∧
              Unmistakable sha256 package'.root package.root)) := by
  refine ⟨fun hhash h h' ↦ sameFiles_iff hhash h h', fun hhash hsigned hverify ↦ ?_⟩
  obtain ⟨package, hmem, digest, h, h'⟩ := exists_signed hsigned hverify
  refine ⟨package, hmem, ?_, sameFiles_iff (hhash package hmem) h h'⟩
  rw [signPluginPackage, h]
  exact ⟨_, rfl⟩

/-- The same two files in another order, first by their digests and then by the signature. -/
theorem signature_determines_samples :
    (SameFiles twoFiles.package.root signedFiles.package.root ↔
      Unmistakable sampleSha256 twoFiles.package.root signedFiles.package.root ∧
        Unmistakable sampleSha256 signedFiles.package.root twoFiles.package.root) ∧
    ∃ package ∈ [twoFiles.package],
      (∃ signature, signPluginPackage sampleSha256 sampleEd25519 (fun _ ↦ "") package.root =
        .ok signature) ∧
      (SameFiles package.root signedFiles.package.root ↔
        Unmistakable sampleSha256 package.root signedFiles.package.root ∧
          Unmistakable sampleSha256 signedFiles.package.root package.root) := by
  have hhash : CollisionFree sampleSha256 twoFiles.package.root signedFiles.package.root :=
    collisionFree_samples (by decide)
  obtain ⟨hdigest, hsigned⟩ := signature_determines_package sampleSha256 sampleEd25519 (fun _ ↦ "")
    sampleSignature [twoFiles.package] signedFiles.package
  refine ⟨hdigest hhash digest_twoFiles digest_signedFiles,
    hsigned (List.forall_mem_singleton.mpr hhash) ?_ verify_signedFiles⟩
  intro message raw hverify
  exact ⟨_, List.mem_singleton_self _, sampleDigest, digest_twoFiles,
    (of_decide_eq_true hverify).1.symm⟩

/-- Two files, and one file with a name of three lines: the digests are the same. -/
theorem not_sameFiles_oneFile :
    CollisionFree sampleSha256 twoFiles.package.root oneFile.package.root ∧
    (∃ digest, pluginPackageDigest sampleSha256 twoFiles.package.root = .ok digest ∧
      pluginPackageDigest sampleSha256 oneFile.package.root = .ok digest) ∧
    ¬ SameFiles twoFiles.package.root oneFile.package.root := by
  refine ⟨collisionFree_samples (by decide),
    ⟨sampleDigest, digest_twoFiles, digest_oneFile⟩, fun h ↦ ?_⟩
  have hcovers : Covers twoFiles.package.root [.utf8 "a"] [] := ⟨by decide, 1, rfl⟩
  obtain ⟨name, hmem⟩ := oneFile.exists_of_covers ((h _ _).mp hcovers)
  have hcontent : ([] : List UInt8) = [98] := congrArg Prod.snd (List.mem_singleton.mp hmem)
  exact absurd hcontent (by decide)

end PluginPackage

end TokenStation
