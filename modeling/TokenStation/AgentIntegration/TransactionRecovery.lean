import TokenStation.AgentIntegration.TransactionSteps

/-!
# The way back

Recovery puts files back one at a time and reads each one back before it counts it as restored. A
file that is put back later does not disturb one that was counted: it is another file, or the same
one, which is then counted again.
-/

namespace TokenStation

open Library TransactionEngine

variable {Document W V : Type} (engine : TransactionEngine Document W)

/-- Some files may have been written since the start, and of these some have the revision that they
had. -/
structure Partly (start : String → ConfigSource) (ownership : OwnershipIndex)
    (touched restored : List String) (keep : V → Prop) (now : Disk V) : Prop where
  ownership : now.ownership = ownership
  untouched : ∀ target, target ∉ touched → now.files target = start target
  restored : ∀ target ∈ restored, SameRevision engine now.files start target
  snapshots : keep now.snapshots

variable {engine} {disk : W → Disk V} {placed : Placing} (contract : Contract engine disk placed)
  {start : String → ConfigSource} {ownership : OwnershipIndex}
  {touched restored : List String} {keep : V → Prop}

/-- After a write nothing is known about its target. -/
theorem Partly.write {now : Disk V} (h : Partly engine start ownership touched restored keep now)
    {target : String} (htarget : target ∈ touched) (source : ConfigSource) :
    Partly engine start ownership touched (restored.filter (· ≠ target)) keep
      { now with files := Function.update now.files target source } where
  ownership := h.ownership
  untouched other hother := by
    have hne : other ≠ target := fun heq ↦ hother (heq ▸ htarget)
    exact (Function.update_of_ne hne _ _).trans (h.untouched other hother)
  restored other hother := by
    obtain ⟨hmem, hne⟩ := List.mem_filter.mp hother
    have hsame : Function.update now.files target source other = now.files other :=
      Function.update_of_ne (of_decide_eq_true hne) _ _
    exact (congrArg (engine.revisionHash other) hsame).trans (h.restored other hmem)
  snapshots := h.snapshots

theorem Partly.forget {now : Disk V} (h : Partly engine start ownership touched restored keep now) :
    Partly engine start ownership touched [] keep now :=
  ⟨h.ownership, h.untouched, fun _ hmem ↦ (nomatch hmem), h.snapshots⟩

theorem Partly.mono {now : Disk V} (h : Partly engine start ownership touched restored keep now)
    {others : List String} (hsub : others ⊆ restored) :
    Partly engine start ownership touched others keep now :=
  ⟨h.ownership, h.untouched, fun target hmem ↦ h.restored target (hsub hmem), h.snapshots⟩

theorem partly_of_effect {target : String} (htarget : target ∈ touched) {source : ConfigSource}
    {call : W → Except AtomicWriteFailure Unit × W} (heffect : WriteEffect disk target source call)
    (world : W) (h : Partly engine start ownership touched restored keep (disk world)) :
    Partly engine start ownership touched (restored.filter (· ≠ target)) keep
      (disk (call world).2) := by
  have hwritten := h.write htarget source
  have hsame := h.mono (List.filter_sublist (p := fun other ↦ other ≠ target)).subset
  rw [heffect world]
  split
  · exact hwritten
  · split
    · exact hwritten
    · exact hsame

include contract in
/-- A file that was put back is counted if it has the hash that it had. -/
theorem restoreProjection_partly {target snapshotId expectedAfterHash expectedBeforeHash : String}
    {normalizeNewOwner : Bool} (htarget : target ∈ touched)
    (hbefore : engine.revisionHash target (start target) = expectedBeforeHash) :
    Triple (OnDisk disk (Partly engine start ownership touched restored keep))
      (engine.restoreProjection target snapshotId expectedAfterHash expectedBeforeHash
        normalizeNewOwner)
      fun ok ↦ OnDisk disk (Partly engine start ownership touched
        (if ok then target :: restored else []) keep) := by
  have hfail : Triple (OnDisk disk (Partly engine start ownership touched
        (restored.filter (· ≠ target)) keep)) (pure false : StateM (EngineState W) Bool)
      fun ok ↦ OnDisk disk (Partly engine start ownership touched
        (if ok then target :: restored else []) keep) :=
    Triple.pure fun _ h ↦ h.forget
  refine Triple.bind (triple_quiet (contract.loadSnapshot _)) fun result ↦ ?_
  obtain error | snapshot := result
  · exact Triple.pure fun _ h ↦ h.forget
  · refine Triple.bind (R := fun _ ↦ OnDisk disk (Partly engine start ownership touched
        (restored.filter (· ≠ target)) keep)) (triple_query fun world hworld ↦ ?_) fun result ↦ ?_
    · by_cases hexisted : snapshot.record.originalExisted = true
      · rw [if_pos hexisted]
        exact partly_of_effect htarget (contract.replace _ _ _ _ _ _) world hworld
      · rw [if_neg hexisted]
        exact partly_of_effect htarget (contract.remove _ _ _) world hworld
    · obtain error | ⟨⟩ := result
      · exact hfail
      · refine Triple.bind (R := fun result ↦ OnDisk disk fun now ↦
            Partly engine start ownership touched (restored.filter (· ≠ target)) keep now ∧
              ∀ source, result = .ok source → source = now.files target)
          (triple_query fun world hworld ↦ ?_) fun result ↦ ?_
        · rw [contract.readConfigSource target world]
          exact ⟨hworld, fun source hsource ↦ contract.read_ok hsource⟩
        · obtain error | source := result
          · exact Triple.pure fun _ h ↦ h.1.forget
          · refine Triple.pure fun state hstate ↦ ?_
            obtain ⟨hpartly, hread⟩ := hstate
            obtain rfl := hread source rfl
            by_cases hhash : engine.revisionHash target ((disk state.world).files target) =
              expectedBeforeHash
            · -- the target is counted, and what was counted before is still so
              rw [OnDisk, beq_iff_eq.mpr hhash, if_pos rfl]
              refine ⟨hpartly.ownership, hpartly.untouched, ?_, hpartly.snapshots⟩
              intro other hother
              by_cases heq : other = target
              · rw [heq, SameRevision, hhash, hbefore]
              · have hin := (List.mem_cons.mp hother).resolve_left heq
                exact hpartly.restored other (List.mem_filter.mpr ⟨hin, decide_eq_true heq⟩)
            · rw [OnDisk, beq_eq_false_iff_ne.mpr hhash]
              exact hpartly.forget

include contract in
theorem restoreCompanions_partly
    {companions : List (PreparedFileProjection × SnapshotCreateResult)}
    (htouched : ∀ companion ∈ companions, companion.1.targetPath ∈ touched)
    (hbefore : ∀ companion ∈ companions,
      engine.revisionHash companion.1.targetPath (start companion.1.targetPath) =
        companion.1.beforeHash) :
    Triple (OnDisk disk (Partly engine start ownership touched restored keep))
      (engine.restoreCompanions companions)
      fun ok ↦ OnDisk disk (Partly engine start ownership touched
        (if ok then companions.map (fun companion ↦ companion.1.targetPath) ++ restored else [])
        keep) := by
  induction companions generalizing restored with
  | nil => exact Triple.pure fun _ h ↦ h
  | cons companion companions ih =>
    obtain ⟨hfirst, hrest⟩ := List.forall_mem_cons.mp htouched
    obtain ⟨hfirstHash, hrestHash⟩ := List.forall_mem_cons.mp hbefore
    refine Triple.bind (restoreProjection_partly contract hfirst hfirstHash) fun ok ↦ ?_
    refine Triple.bind (ih hrest hrestHash) fun others ↦ Triple.pure fun state hstate ↦ ?_
    obtain _ | _ := ok
    · exact Partly.forget hstate
    · obtain _ | _ := others
      · exact Partly.forget hstate
      · refine Partly.mono hstate fun target hmem ↦ ?_
        simp only [Bool.and_self, if_true, List.map_cons, List.cons_append, List.mem_cons,
          List.mem_append] at hmem ⊢
        exact hmem.elim (fun heq ↦ Or.inr (Or.inl heq)) fun hmem ↦
          hmem.elim Or.inl fun hmem ↦ Or.inr (Or.inr hmem)

/-! ## Unpinning -/

/-- Only the snapshots changed. -/
theorem Partly.resnapshot {keep' : V → Prop} {now next : Disk V}
    (h : Partly engine start ownership touched restored keep now)
    (hfiles : next.files = now.files) (hownership : next.ownership = now.ownership)
    (hkeep : keep' next.snapshots) :
    Partly engine start ownership touched restored keep' next where
  ownership := hownership.trans h.ownership
  untouched target htarget := by rw [hfiles, h.untouched target htarget]
  restored target htarget := by
    rw [SameRevision, hfiles]
    exact h.restored target htarget
  snapshots := hkeep

variable {plan : PreparedChangePlan} {ofTarget : String → SnapshotRecord → Prop}
  {strong base : List SnapshotRecord → V → Prop}
  (keeping : Keeping engine disk plan ofTarget strong base) {made : List SnapshotRecord}

include contract keeping in
theorem unpin_partly {snapshotId : String} (hmade : snapshotId ∈ made.map (·.snapshotId)) :
    Triple (OnDisk disk (Partly engine start ownership touched restored (base made)))
      (query (engine.setPinned snapshotId false))
      fun _ ↦ OnDisk disk (Partly engine start ownership touched restored (base made)) := by
  refine triple_query fun world hworld ↦ ?_
  obtain ⟨hfiles, hownership⟩ := contract.setPinned snapshotId false world
  exact hworld.resnapshot hfiles hownership (keeping.unpin hmade hworld.snapshots)

include contract keeping in
theorem unpinFailed_partly {primary : String} {companions : List SnapshotCreateResult}
    (hprimary : primary ∈ made.map (·.snapshotId))
    (hcompanions : ∀ snapshot ∈ companions, snapshot.record ∈ made) :
    Triple (OnDisk disk (Partly engine start ownership touched restored (base made)))
      (engine.unpinFailedConnectionSnapshots plan primary companions)
      fun _ ↦ OnDisk disk (Partly engine start ownership touched restored (base made)) := by
  refine Triple.ite (fun _ ↦ ?_) fun _ ↦ Triple.pure fun _ h ↦ h
  refine Triple.bind (unpin_partly contract keeping hprimary) fun _ ↦ ?_
  induction companions with
  | nil => exact Triple.pure fun _ h ↦ h
  | cons snapshot companions ih =>
    obtain ⟨hfirst, hrest⟩ := List.forall_mem_cons.mp hcompanions
    refine Triple.bind (Triple.bind (unpin_partly contract keeping ?_)
      fun _ ↦ Triple.pure fun _ h ↦ h) fun _ ↦ ih hrest
    exact List.mem_map_of_mem hfirst

/-! ## Recovery as a whole -/

variable (engine plan start ownership base) in
/-- How a transaction that fails leaves the disk. -/
structure Undone (error : TransactionFailure) (now : Disk V) : Prop where
  ownership : now.ownership = ownership
  notRequired : error.recovery = .notRequired → now.files = start
  restored : error.recovery = .restored →
    (∀ target, SameRevision engine now.files start target) ∧
      ∀ projection ∈ plan.files, engine.revisionHash projection.targetPath
        (start projection.targetPath) = projection.beforeHash
  snapshots : ∃ made, base made now.snapshots

theorem Partly.files_eq {now : Disk V} (h : Partly engine start ownership [] restored keep now) :
    now.files = start :=
  funext fun target ↦ h.untouched target List.not_mem_nil

/-- A failure before anything was written. -/
theorem Partly.undone {now : Disk V} {error : TransactionFailure}
    (h : Partly engine start ownership [] restored (base made) now)
    (herror : error.recovery = .notRequired) :
    Undone engine start ownership plan base error now where
  ownership := h.ownership
  notRequired _ := h.files_eq
  restored hrestored := by rw [herror] at hrestored; nomatch hrestored
  snapshots := ⟨made, h.snapshots⟩

/-- The snapshots that a transaction made. -/
def TransactionSnapshots.records (snapshots : TransactionSnapshots) : List SnapshotRecord :=
  snapshots.primary.record :: snapshots.companions.map (·.record)

theorem primary_mem_records (snapshots : TransactionSnapshots) :
    snapshots.primary.record.snapshotId ∈ snapshots.records.map (·.snapshotId) :=
  List.mem_cons_self

theorem companion_mem_records {snapshots : TransactionSnapshots} {snapshot : SnapshotCreateResult}
    (h : snapshot ∈ snapshots.companions) : snapshot.record ∈ snapshots.records :=
  List.mem_cons_of_mem _ (List.mem_map_of_mem h)

section Recover

variable (hbefore : ∀ projection ∈ plan.files, engine.revisionHash projection.targetPath
    (start projection.targetPath) = projection.beforeHash)
  {snapshots : TransactionSnapshots}
  (hlength : snapshots.companions.length = plan.companions.length)

include contract keeping hbefore hlength in
/-- Recovery after the target and the first `written` companions were written. -/
theorem recoverFiles_undone {written : ℕ} {error : TransactionFailure} :
    Triple (OnDisk disk (Partly engine start ownership
        ((plan.primary :: plan.companions.take written).map (·.targetPath)) []
        (base snapshots.records)))
      (engine.recoverFiles plan snapshots written error)
      fun error ↦ OnDisk disk (Undone engine start ownership plan base error) := by
  set touched := (plan.primary :: plan.companions.take written).map (·.targetPath) with htouched
  set pairs := ((plan.companions.zip snapshots.companions).take written).reverse with hpairs
  have hfirst : pairs.map Prod.fst = (plan.companions.take written).reverse := by
    rw [hpairs, List.map_reverse, List.map_take, List.map_fst_zip hlength.ge]
  have hpair : ∀ pair ∈ pairs, pair.1 ∈ plan.companions.take written := by
    intro pair hpair
    have hmem : pair.1 ∈ pairs.map Prod.fst := List.mem_map_of_mem hpair
    rwa [hfirst, List.mem_reverse] at hmem
  have hcompanion : ∀ pair ∈ pairs, pair.1 ∈ plan.files := fun pair hmem ↦
    List.mem_cons_of_mem _ (List.mem_of_mem_take (hpair pair hmem))
  have hall : ∀ target ∈ touched,
      target ∈ plan.view.targetConfigPath :: (pairs.map fun pair ↦ pair.1.targetPath) := by
    intro target htarget
    obtain ⟨projection, hmem, rfl⟩ := List.mem_map.mp htarget
    rcases List.mem_cons.mp hmem with rfl | hmem
    · exact List.mem_cons_self
    · refine List.mem_cons_of_mem _ (List.mem_map.mpr ?_)
      rw [← List.mem_reverse, ← hfirst] at hmem
      obtain ⟨pair, hpairmem, rfl⟩ := List.mem_map.mp hmem
      exact ⟨pair, hpairmem, rfl⟩
  refine Triple.bind (restoreCompanions_partly contract
    (fun pair hmem ↦ List.mem_map_of_mem (List.mem_cons_of_mem _ (hpair pair hmem)))
    fun pair hmem ↦ hbefore _ (hcompanion pair hmem)) fun companions ↦ ?_
  refine Triple.bind (restoreProjection_partly contract (List.mem_map_of_mem List.mem_cons_self)
    (hbefore plan.primary List.mem_cons_self)) fun primary ↦ ?_
  refine Triple.bind (unpinFailed_partly contract keeping (primary_mem_records snapshots)
    fun snapshot ↦ companion_mem_records) fun _ ↦ Triple.pure fun state hstate ↦ ?_
  have hownership := hstate.ownership
  have hsnapshots : ∃ made, base made (disk state.world).snapshots := ⟨_, hstate.snapshots⟩
  obtain _ | _ := primary
  · obtain _ | _ := companions
    · exact ⟨hownership, fun h ↦ (nomatch h), fun h ↦ (nomatch h), hsnapshots⟩
    · exact ⟨hownership, fun h ↦ (nomatch h), fun h ↦ (nomatch h), hsnapshots⟩
  · obtain _ | _ := companions
    · exact ⟨hownership, fun h ↦ (nomatch h), fun h ↦ (nomatch h), hsnapshots⟩
    · refine ⟨hownership, fun h ↦ (nomatch h), fun _ ↦ ⟨fun target ↦ ?_, hbefore⟩, hsnapshots⟩
      by_cases htarget : target ∈ touched
      · apply hstate.restored
        simpa [hpairs] using hall target htarget
      · rw [SameRevision, hstate.untouched target htarget]

end Recover

end TokenStation
