import TokenStation.Client.ConfigState
import TokenStation.Library.Runs

/-!
# Revisions identify contents

Sessions come and go on one directory. A session loads the configuration, observes drafts and saves
them: it journals the save, replaces the file and finishes. Every step can fail, a session can end
after any step, and between sessions the file can be edited by others.

A revision belongs to one content for good, unless a save's journal cannot be written: `prepareSave`
changes the memory first, and does not take it back. `identifies_iff` says that nothing else can go
wrong.
-/

namespace TokenStation

open Library

/-! ## Sessions on one directory -/

/-- How far a save has come. -/
inductive SavePhase where
  | idle
  | prepared (draft : JsonValue)
  | written (draft : JsonValue)

structure ConfigDirectory where
  /-- The content of the configuration file. -/
  file : Option JsonValue
  sidecar : Option RevisionLedger
  session : Option (ConfigState × SavePhase)

inductive ConfigStep where
  /-- A session starts; whatever session there was is gone. -/
  | load (fallback : JsonValue) (writes : Bool)
  | observe (draft : JsonValue) (writes : Bool)
  | prepare (draft : JsonValue) (reserves writes : Bool)
  | writeConfig (succeeds : Bool)
  | finish (writes : Bool)
  | crash
  /-- Someone else changes the file while no session is running. -/
  | edit (content : Option JsonValue)

/-- The contents a step brings in. -/
def ConfigStep.contents : ConfigStep → List JsonValue
  | load fallback _ => [fallback]
  | observe draft _ => [draft]
  | prepare draft _ _ => [draft]
  | edit content => content.toList
  | writeConfig _ | finish _ | crash => []

namespace ConfigDirectory

section Steps

variable (hash : JsonValue → String)

/-- One step. A step that the session is not ready for changes nothing. -/
def next (directory : ConfigDirectory) : ConfigStep → ConfigDirectory
  | .load fallback writes =>
    match ConfigState.load hash (directory.file.getD fallback) directory.file.isSome writes
        directory.sidecar with
    | (.ok state, sidecar) => { directory with sidecar, session := some (state, .idle) }
    | (.error _, sidecar) => { directory with sidecar, session := none }
  | .observe draft writes =>
    match directory.session with
    | some (state, .idle) =>
      let (_, state, sidecar) := state.observeDraft hash draft writes directory.sidecar
      { directory with sidecar, session := some (state, .idle) }
    | _ => directory
  | .prepare draft reserves writes =>
    match directory.session with
    | some (state, .idle) =>
      match state.prepareSave hash draft reserves writes directory.sidecar with
      | (.ok _, state, sidecar) =>
        { directory with sidecar, session := some (state, .prepared draft) }
      | (.error _, state, sidecar) => { directory with sidecar, session := some (state, .idle) }
    | _ => directory
  | .writeConfig succeeds =>
    match directory.session with
    | some (state, .prepared draft) =>
      if succeeds then
        { directory with file := some draft, session := some (state, .written draft) }
      else { directory with session := some (state, .idle) }
    | _ => directory
  | .finish writes =>
    match directory.session with
    | some (state, .written draft) =>
      let (_, state, sidecar) := state.finishSave draft writes directory.sidecar
      { directory with sidecar, session := some (state, .idle) }
    | _ => directory
  | .crash => { directory with session := none }
  | .edit content =>
    match directory.session with
    | none => { directory with file := content }
    | some _ => directory

/-- Whether a step gives out a new revision. -/
def reserves (directory : ConfigDirectory) : ConfigStep → Bool
  | .load _ writes =>
    match directory.file with
    | none => false
    | some content =>
      let ledger := (readLedger directory.sidecar).getD {}
      let found := ConfigState.fingerprint hash content
      writes && ledger.pendingFingerprint != some found && ledger.committedFingerprint != found
  | .observe draft writes =>
    match directory.session with
    | some (state, .idle) =>
      let found := ConfigState.fingerprint hash draft
      writes && found != state.draftFingerprint && found != state.savedFingerprint
    | _ => false
  | .prepare draft reserves _ =>
    match directory.session with
    | some (state, .idle) =>
      let found := ConfigState.fingerprint hash draft
      if found = state.draftFingerprint then state.draftRevision == 0
      else if found = state.savedFingerprint then state.savedRevision == 0
      else reserves
    | _ => false
  | .writeConfig _ | .finish _ | .crash | .edit _ => false

/-- The state before and after a call that returned an error. -/
def refused (directory : ConfigDirectory) : ConfigStep → Option (ConfigState × ConfigState)
  | .observe draft writes =>
    match directory.session with
    | some (state, .idle) =>
      match state.observeDraft hash draft writes directory.sidecar with
      | (.error _, after, _) => some (state, after)
      | (.ok _, _, _) => none
    | _ => none
  | .prepare draft reserves writes =>
    match directory.session with
    | some (state, .idle) =>
      match state.prepareSave hash draft reserves writes directory.sidecar with
      | (.error _, after, _) => some (state, after)
      | (.ok _, _, _) => none
    | _ => none
  | .load _ _ | .writeConfig _ | .finish _ | .crash | .edit _ => none

end Steps

/-- No session has been there yet. -/
def fresh (file : Option JsonValue) : ConfigDirectory := { file, sidecar := none, session := none }

/-- In memory, the revision stands for the content. -/
def Carries (directory : ConfigDirectory) (revision : UInt64) (content : JsonValue) : Prop :=
  revision ≠ 0 ∧ ∃ state phase, directory.session = some (state, phase) ∧
    ((revision, content) = (state.draftRevision, state.draft) ∨
      (revision, content) = (state.savedRevision, state.saved))

/-- The last revision the sidecar allocated. -/
def top (directory : ConfigDirectory) : UInt64 :=
  (directory.sidecar.map RevisionLedger.lastAllocatedRevision).getD 0

end ConfigDirectory

/-! ## What the revisions promise -/

section Promise

variable (hash : JsonValue → String) (file : Option JsonValue) (steps : List ConfigStep)

/-- The directory after some steps. -/
def configRun (before : List ConfigStep) : ConfigDirectory :=
  runSteps (ConfigDirectory.next hash) (.fresh file) before

/-- Fewer than `2 ^ 64` revisions: none is reserved once the last word is allocated. -/
def Roomy : Prop := ∀ before step, before ++ [step] <+: steps →
  (configRun hash file before).reserves hash step = true →
    (configRun hash file before).top.toNat < 2 ^ 64 - 1

/-- The contents that occur in a history. -/
def Occurs (content : JsonValue) : Prop :=
  file = some content ∨ ∃ step ∈ steps, content ∈ step.contents

/-- The digest tells apart the contents that occur. -/
structure Recognizes : Prop where
  length : ∀ c, Occurs file steps c → (ConfigState.fingerprint hash c).utf8ByteSize = 64
  injective : ∀ a, Occurs file steps a → ∀ b, Occurs file steps b →
    ConfigState.fingerprint hash a = ConfigState.fingerprint hash b → SameContent a b

/-- Revisions identify contents, over a whole history of sessions. -/
structure Identifies : Prop where
  /-- Two contents never carry the same revision, in whatever sessions. -/
  distinct : ∀ before, before <+: steps → ∀ before', before' <+: steps → ∀ revision a b,
    (configRun hash file before).Carries revision a →
      (configRun hash file before').Carries revision b → SameContent a b
  /-- A revision that is new to a content is greater than all the earlier ones. -/
  increasing : ∀ before step, before ++ [step] <+: steps → ∀ revision content,
    (configRun hash file (before ++ [step])).Carries revision content →
      (∃ earlier, earlier <+: before ∧ ∃ same, SameContent content same ∧
        (configRun hash file earlier).Carries revision same) ∨
      ∀ earlier, earlier <+: before → ∀ other otherContent,
        (configRun hash file earlier).Carries other otherContent → other < revision
  /-- What was loaded has the saved revision, and the committed one. -/
  loaded : ∀ before fallback writes, before ++ [.load fallback writes] <+: steps → ∀ content,
    (configRun hash file before).file = some content → ∀ state phase,
      (configRun hash file (before ++ [.load fallback writes])).session = some (state, phase) →
        state.saved = content ∧ state.savedRevision ≠ 0 ∧
          state.ledger.committedRevision = state.savedRevision ∧
          state.ledger.committedFingerprint = ConfigState.fingerprint hash content
  /-- What a session saved, and the next one loads unchanged, keeps its revision. -/
  kept : ∀ before middle fallback writes,
    before ++ [.writeConfig true] ++ middle ++ [.load fallback writes] <+: steps →
    (∀ step ∈ middle, step ≠ .writeConfig true ∧ ∀ fallback writes, step ≠ .load fallback writes) →
    ∀ saver draft, (configRun hash file before).session = some (saver, .prepared draft) →
    ∀ content, (configRun hash file (before ++ [.writeConfig true] ++ middle)).file =
        some content → SameContent content draft →
    ∀ state phase,
      (configRun hash file (before ++ [.writeConfig true] ++ middle ++
        [.load fallback writes])).session = some (state, phase) →
      state.savedRevision = saver.draftRevision
  /-- A call that returns an error leaves the memory. -/
  refused : ∀ before step, before ++ [step] <+: steps → ∀ state after,
    (configRun hash file before).refused hash step = some (state, after) →
      after.draft = state.draft ∧ after.draftRevision = state.draftRevision ∧
        after.ledger = state.ledger

/-- The journal of a save is written, or the save stops before it, or it is written already. -/
def JournalKept (directory : ConfigDirectory) : ConfigStep → Prop
  | .prepare draft reserves writes => ∀ state, directory.session = some (state, .idle) →
      writes = true ∨
      reserves = false ∧ ConfigState.fingerprint hash draft ≠ state.draftFingerprint ∧
        ConfigState.fingerprint hash draft ≠ state.savedFingerprint ∨
      ConfigState.fingerprint hash draft = state.draftFingerprint ∧ state.draftRevision ≠ 0 ∧
        state.ledger.pendingRevision = some state.draftRevision ∧
        state.ledger.pendingFingerprint = some state.draftFingerprint
  | _ => True

end Promise

end TokenStation
