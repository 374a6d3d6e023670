import TokenStation.Library.Outcome
import TokenStation.Library.PartialRuns
import TokenStation.Library.Saturating
import Mathlib.Data.List.AList

/-!
# The serving lifecycle of the desktop

One lock protects the state of the proxy. A start reserves a generation under the lock and leaves
the rest to a background task, which takes the lock again, three or four times, to complete the
start; a stop keeps the generation, and leaves it to another task to drain the server and to say so.
What happens between two sections under the lock (the preparation of a server, the binding of its
listener, the transition of agent metadata) enters a section as its outcome.

A server is a value: the state holds it, or a task does, or it has been handed to a drain. `start`
tells the values apart. Beside the state, `Supervisor` keeps what the sections did: the accepted
starts, and the servers that were prepared, discarded, published and handed to a drain.
-/

namespace TokenStation

open Library

/-! ## Servers -/

/-- The limit of a detail, in characters. -/
def errorDetailLimit : ℕ := 512

structure StartFailure where
  stage : String
  detail : String
  deriving DecidableEq

namespace StartFailure

def new (stage detail : String) : StartFailure where
  stage
  detail :=
    if detail.length > errorDetailLimit then
      String.ofList (detail.toList.take errorDetailLimit) ++ "…"
    else detail

def publicMessage (failure : StartFailure) : String :=
  failure.stage ++ ": " ++ failure.detail

end StartFailure

/-- The credential epoch of each upstream. -/
abbrev UpstreamEpochs := AList fun _ : String ↦ ℕ

/-- A prepared server that has not occupied its public listener yet, or has only reserved it. -/
structure PreparedServer where
  /-- The generation of the start that prepared it. -/
  start : ℕ
  listen : String
  deriving DecidableEq

/-- The published proxy instance. -/
structure RunningServer where
  /-- The generation of the start that prepared it. -/
  start : ℕ
  listen : String
  runningRevision : ℕ
  upstreamEpochs : UpstreamEpochs
  /-- Whether it accepts on its listener. -/
  accepting : Bool
  deriving DecidableEq

namespace RunningServer

/-- Release the listener. -/
def stopAccepting (server : RunningServer) : RunningServer :=
  { server with accepting := false }

/-- Serve again, on a listener that was bound meanwhile. -/
def resumeAccepting (server : RunningServer) (outcome : Except StartFailure Unit) :
    Except StartFailure RunningServer :=
  outcome.map fun _ ↦ { server with accepting := true }

end RunningServer

/-- Publish a prepared server on its reserved socket, whose local address the outcome reports. -/
def PreparedServer.publish (prepared : PreparedServer) (revision : ℕ)
    (upstreamEpochs : UpstreamEpochs) (outcome : Except StartFailure String) :
    Except StartFailure RunningServer :=
  outcome.map fun publishedListen ↦
    { start := prepared.start, listen := publishedListen, runningRevision := revision,
      upstreamEpochs, accepting := true }

/-! ## The state -/

/-- Where the proxy is in its life. -/
inductive ServerLifecycle where
  | stopped (generation : ℕ)
  | starting (generation : ℕ) (listen : String) (revision : ℕ)
  | applying (generation revision : ℕ) (old : RunningServer)
  | stopping (generation : ℕ) (listen : String) (draining : Bool)
  | running (generation : ℕ) (server : RunningServer) (applyError : Option String)
  | failed (generation : ℕ) (listen error : String)
  deriving DecidableEq

def ServerLifecycle.generation : ServerLifecycle → ℕ
  | stopped generation | starting generation _ _ | applying generation _ _
  | stopping generation _ _ | running generation _ _ | failed generation _ _ => generation

/-- What the completion of a start has come to. -/
inductive StartPhase where
  /-- The server is being prepared. -/
  | preparing
  /-- It was seen whether the generation is being applied. -/
  | observed (result : Except StartFailure PreparedServer) (applying : Bool)
  /-- The old server was asked to release the listener, where that is the same. -/
  | handedOff (result : Except StartFailure PreparedServer) (resumeListen : Option String)
  /-- The server is published, and the agent metadata are to be refreshed. -/
  | published
  deriving DecidableEq

/-- The task that completes a start. -/
structure StartTask where
  upstreamEpochs : UpstreamEpochs
  phase : StartPhase
  deriving DecidableEq

/-- What an accepted start reserved. -/
structure Reservation where
  generation : ℕ
  revision : ℕ
  upstreamEpochs : UpstreamEpochs
  deriving DecidableEq

/-- The state of the proxy, the tasks on their way, and what happened so far. -/
structure Supervisor where
  server : ServerLifecycle
  /-- The task of each generation. -/
  starts : ℕ → Option StartTask
  /-- The generations whose server is being drained by a stop. -/
  stops : List ℕ
  accepted : List Reservation
  prepared : List PreparedServer
  discarded : List PreparedServer
  published : List RunningServer
  drained : List RunningServer

namespace Supervisor

/-- A desktop that just came up. -/
def new : Supervisor where
  server := .stopped 0
  starts := fun _ ↦ none
  stops := []
  accepted := []
  prepared := []
  discarded := []
  published := []
  drained := []

def setTask (s : Supervisor) (generation : ℕ) (task : Option StartTask) : Supervisor :=
  { s with starts := Function.update s.starts generation task }

end Supervisor

/-! ## Starts -/

/-- What the menu offers for the proxy. -/
inductive ProxyMenuAction where
  | none
  | start
  | stop
  deriving DecidableEq

/-- The offered action, given whether the task of a running server is alive. -/
def lifecycleProxyAction (taskAlive : Bool) : ServerLifecycle → ProxyMenuAction
  | .stopped _ | .failed _ _ _ => .start
  | .running _ _ _ => if taskAlive then .stop else .start
  | .starting _ _ _ | .applying _ _ _ | .stopping _ _ _ => .none

def menuActionExpectationMatches (expectedGeneration currentGeneration : ℕ)
    (requested current : ProxyMenuAction) : Bool :=
  decide (expectedGeneration = currentGeneration) && decide (requested = current)

/-- The state a start was asked for in. -/
inductive ServeStartExpectation where
  | stopped (generation : ℕ)
  | running (generation : ℕ)
  deriving DecidableEq

/-- A call that starts the proxy, with what the steps before the reservation come to. -/
structure StartCall where
  expectation : Option ServeStartExpectation
  taskAlive : Bool
  ensureEditable : Except String Unit
  /-- The listen address of the materialized configuration. -/
  materialize : Except String String
  saveDraft : Except String ℕ
  upstreamEpochs : UpstreamEpochs

/-- Whether the state is the expected one. -/
def StartCall.matchesExpectation (call : StartCall) (server : ServerLifecycle) : Bool :=
  match call.expectation with
  | none => true
  | some (.stopped expected) =>
    menuActionExpectationMatches expected server.generation .start
      (lifecycleProxyAction call.taskAlive server)
  | some (.running expected) => match server with
    | .running generation _ _ => decide (generation = expected)
    | _ => false

/-- A start is refused while another start or a stop is on its way. -/
def ServerLifecycle.refuseInFlight : ServerLifecycle → Except String Unit
  | starting _ _ _ | applying _ _ _ => .error "apply_in_progress: 已有配置正在应用"
  | stopping _ _ _ => .error "startup_cleanup_in_progress: 上一次代理正在停止，请稍后重试"
  | stopped _ | running _ _ _ | failed _ _ _ => .ok ()

namespace Supervisor

/-- Reserve the next generation, and spawn its task. -/
def reserve (s : Supervisor) (generation : ℕ) (listen : String) (revision : ℕ)
    (upstreamEpochs : UpstreamEpochs) : Supervisor :=
  { s.setTask generation (some ⟨upstreamEpochs, .preparing⟩) with
    server := match s.server with
      | .running _ old _ => .applying generation revision old
      | _ => .starting generation listen revision
    accepted := s.accepted ++ [⟨generation, revision, upstreamEpochs⟩] }

/-- The state after an accepted start, and nothing for a start that is stale. -/
def beginServeStartInner (s : Supervisor) (call : StartCall) :
    Except String (Option Supervisor) :=
  if !call.matchesExpectation s.server then .ok none
  else do
    call.ensureEditable
    s.server.refuseInFlight
    let listen ← call.materialize
    let revision ← call.saveDraft
    if s.server.generation + 1 < 2 ^ 64 then
      .ok (some (s.reserve (s.server.generation + 1) listen revision call.upstreamEpochs))
    else .error "代理启动 generation 已耗尽，请重启 App"

/-! ## Stops -/

/-- The state after an accepted stop. A call may expect the menu to offer it for a generation. -/
def beginServeStopInner (s : Supervisor) (expectedRunningGeneration : Option ℕ)
    (taskAlive : Bool) : Option Supervisor :=
  let generation := s.server.generation
  if expectedRunningGeneration.any fun expected ↦
      !menuActionExpectationMatches expected generation .stop
        (lifecycleProxyAction taskAlive s.server) then none
  else match s.server with
    | .running _ server _ | .applying _ _ server => some
      { s with
        server := .stopping generation server.listen true
        stops := s.stops ++ [generation]
        drained := s.drained ++ [server.stopAccepting] }
    | .starting _ listen _ => some { s with server := .stopping generation listen false }
    | .stopping _ _ _ => some s
    | .failed _ _ _ => some { s with server := .stopped generation }
    | .stopped _ => some s

/-- The server of a generation is drained. -/
def completeServeStop (s : Supervisor) (generation : ℕ) : Supervisor :=
  { s with
    server := match s.server with
      | .stopping current _ _ => if current = generation then .stopped generation else s.server
      | _ => s.server
    stops := s.stops.erase generation }

end Supervisor

/-! ## The completion of a start -/

/-- An error of an agent command. -/
structure AgentCommandError where
  code : String
  message : String
  deriving DecidableEq

/-- What the transition of the agent metadata comes to: the present runtime, the runtime between the
two configurations, and the refresh. -/
structure Metadata where
  runtimeFromApp : Except AgentCommandError Unit
  transition : Except String Unit
  refresh : Except AgentCommandError Unit

/-- Agents see both configurations before a server is replaced, unless there is no local auth. -/
def Metadata.outcome (metadata : Metadata) : Except StartFailure Unit :=
  match metadata.runtimeFromApp with
  | .error error =>
    if error.code = "local_auth_disabled" then .ok ()
    else .error (.new "agent_metadata_transition" error.message)
  | .ok () => match metadata.transition with
    | .error error => .error (.new "agent_metadata_transition" error)
    | .ok () => match metadata.refresh with
      | .error error => .error (.new "agent_metadata_transition" error.message)
      | .ok () => .ok ()

/-- A candidate for a running server is dropped when the transition fails. -/
def Metadata.transitioned (metadata : Metadata) (applying : Bool)
    (result : Except StartFailure PreparedServer) : Except StartFailure PreparedServer :=
  result.bind fun prepared ↦
    if applying then metadata.outcome.map fun _ ↦ prepared else .ok prepared

/-- What the calls around the last section of a start come to. -/
structure StartOutcomes where
  /-- The candidate's listener. -/
  bind : Except StartFailure Unit
  /-- The old listener, when the candidate's could not be bound. -/
  bindListener : Except StartFailure Unit
  /-- The local address that the candidate is published at. -/
  publish : Except StartFailure String
  resumeAccepting : Except StartFailure Unit

/-- What the last section of a start does: the new state, the server that is discarded or dropped by
a failing call, the one that is handed to a drain, and the one that is published. -/
structure StartSettlement where
  server : ServerLifecycle
  discard : Option PreparedServer := none
  retire : Option RunningServer := none
  published : Option RunningServer := none

/-- A candidate is dropped when its listener cannot be bound. -/
def StartOutcomes.bound (outcomes : StartOutcomes) (result : Except StartFailure PreparedServer) :
    Except StartFailure PreparedServer :=
  result.bind fun prepared ↦ outcomes.bind.map fun _ ↦ prepared

namespace ServerLifecycle

/-- The old server keeps running, and says why the configuration is not applied. -/
def notApplied (generation : ℕ) (old : RunningServer) (message : String) : ServerLifecycle :=
  .running generation old (some ("已保存尚未应用：" ++ message))

/-- A server could not be published in place of `old`. The listener of `old` is restored if it was
the candidate's too, from the socket that was reserved for it. -/
def settleUnpublished (generation : ℕ) (old : RunningServer) (prepared : PreparedServer)
    (resumeListener : Option (Except StartFailure Unit)) (outcomes : StartOutcomes)
    (failure : StartFailure) : StartSettlement :=
  if old.listen = prepared.listen then
    let listener := resumeListener.getD (.error (.new "listen_restore" "旧 listener 未能预留"))
    match listener.bind fun _ ↦ old.resumeAccepting outcomes.resumeAccepting with
    | .error restore =>
      { server := .failed generation old.listen
          ("切换失败且旧 listener 恢复失败：" ++ failure.publicMessage ++ "; " ++
            restore.publicMessage)
        retire := some old.stopAccepting
        discard := some prepared }
    | .ok resumed =>
      { server := notApplied generation resumed failure.publicMessage, discard := some prepared }
  else { server := notApplied generation old failure.publicMessage, discard := some prepared }

/-- The `match` of the last section. Every arm but the last two is of a state that carries the
generation of the completion. -/
def settle (server : ServerLifecycle) (generation : ℕ) (upstreamEpochs : UpstreamEpochs)
    (result : Except StartFailure PreparedServer)
    (resumeListener : Option (Except StartFailure Unit)) (outcomes : StartOutcomes) :
    StartSettlement :=
  if server.generation ≠ generation then { server, discard := result.toOption }
  else match server, result with
    | .starting _ listen revision, .ok prepared =>
      match prepared.publish revision upstreamEpochs outcomes.publish with
      | .ok server => { server := .running generation server none, published := some server }
      | .error failure =>
        { server := .failed generation listen failure.publicMessage, discard := some prepared }
    | .applying _ revision old, .ok prepared =>
      match prepared.publish revision upstreamEpochs outcomes.publish with
      | .ok server =>
        { server := .running generation server none
          retire := some old.stopAccepting
          published := some server }
      | .error failure => settleUnpublished generation old prepared resumeListener outcomes failure
    | .starting _ listen _, .error failure =>
      { server := .failed generation listen failure.publicMessage }
    | .applying _ _ old, .error failure =>
      { server := notApplied generation old failure.publicMessage }
    | .stopping _ listen draining, result =>
      { server := if draining then .stopping generation listen draining else .stopped generation
        discard := result.toOption }
    | server, result => { server, discard := result.toOption }

/-- The address that the old server of the generation shares with a candidate. -/
def sharedListen (server : ServerLifecycle) (generation : ℕ)
    (result : Except StartFailure PreparedServer) : Option String :=
  match server, result with
  | .applying current _ old, .ok prepared =>
    if current = generation ∧ old.listen = prepared.listen then some old.listen else none
  | _, _ => none

/-- The old server releases its listener. -/
def releaseListener : ServerLifecycle → ServerLifecycle
  | applying generation revision old => applying generation revision old.stopAccepting
  | server => server

end ServerLifecycle

namespace Supervisor

/-- The preparation ended, by a panic perhaps, and it is seen whether the generation is being
applied. -/
def observe (s : Supervisor) (generation : ℕ) (upstreamEpochs : UpstreamEpochs)
    (prepare : Option (Except StartFailure String)) : Supervisor :=
  let result : Except StartFailure PreparedServer :=
    match prepare with
    | none => .error (.new "startup_task" "后台启动任务异常退出")
    | some outcome => outcome.map fun listen ↦ { start := generation, listen }
  let applying := match s.server with
    | .applying current _ _ => decide (current = generation)
    | _ => false
  { s.setTask generation (some ⟨upstreamEpochs, .observed result applying⟩) with
    prepared := s.prepared ++ result.toOption.toList }

/-- Agent metadata are moved to the transition where the generation was being applied; then the old
server is asked to release its listener, if the candidate needs it. -/
def handOff (s : Supervisor) (generation : ℕ) (upstreamEpochs : UpstreamEpochs)
    (result : Except StartFailure PreparedServer) (applying : Bool) (metadata : Metadata) :
    Supervisor :=
  let transitioned := metadata.transitioned applying result
  let resumeListen := s.server.sharedListen generation transitioned
  { s.setTask generation (some ⟨upstreamEpochs, .handedOff transitioned resumeListen⟩) with
    server := if resumeListen.isSome then s.server.releaseListener else s.server
    discarded := s.discarded ++
      if transitioned.toOption.isNone then result.toOption.toList else [] }

/-- The candidate's listener is bound, or the old one again, and the last section settles the
generation. -/
def commit (s : Supervisor) (generation : ℕ) (upstreamEpochs : UpstreamEpochs)
    (result : Except StartFailure PreparedServer) (resumeListen : Option String)
    (outcomes : StartOutcomes) : Supervisor :=
  let boundResult := outcomes.bound result
  let resumeListener := if boundResult.toOption.isNone then
      resumeListen.map fun _ ↦ outcomes.bindListener
    else none
  let settlement := s.server.settle generation upstreamEpochs boundResult resumeListener outcomes
  let task := settlement.published.map fun _ ↦ ⟨upstreamEpochs, .published⟩
  { s.setTask generation task with
    server := settlement.server
    discarded := s.discarded ++
      (if boundResult.toOption.isNone then result.toOption.toList else []) ++
      settlement.discard.toList
    published := s.published ++ settlement.published.toList
    drained := s.drained ++ settlement.retire.toList }

/-- After the publication the agent metadata are refreshed; a failure is noted. -/
def refresh (s : Supervisor) (generation : ℕ) (failure : Option String) : Supervisor :=
  { s.setTask generation none with
    server := match s.server, failure with
      | .running current server applyError, some message =>
        if current = generation then
          .running current server (some ("代理已启动，但 Agent 模型元数据刷新失败：" ++ message))
        else .running current server applyError
      | server, _ => server }

end Supervisor

/-! ## Interleavings -/

/-- A section under the lock: a call, or the next section of a task. -/
inductive ServeOp where
  | start (call : StartCall)
  | stop (expectedRunningGeneration : Option ℕ) (taskAlive : Bool)
  | observe (generation : ℕ) (prepare : Option (Except StartFailure String))
  | handOff (generation : ℕ) (metadata : Metadata)
  | commit (generation : ℕ) (outcomes : StartOutcomes)
  | refresh (generation : ℕ) (failure : Option String)
  | completeStop (generation : ℕ)

/-- The generation of the completion that a section belongs to. -/
def ServeOp.completes : ServeOp → Option ℕ
  | start _ | stop _ _ => none
  | observe generation _ | handOff generation _ | commit generation _ | refresh generation _
  | completeStop generation => some generation

namespace Supervisor

/-- One section. A section of a task is possible when the task has come to it. -/
def step (s : Supervisor) : ServeOp → Option Supervisor
  | .start call => match s.beginServeStartInner call with
    | .ok (some s') => some s'
    | .ok none | .error _ => some s
  | .stop expected taskAlive => some ((s.beginServeStopInner expected taskAlive).getD s)
  | .observe generation prepare => match s.starts generation with
    | some ⟨upstreamEpochs, .preparing⟩ => some (s.observe generation upstreamEpochs prepare)
    | _ => none
  | .handOff generation metadata => match s.starts generation with
    | some ⟨upstreamEpochs, .observed result applying⟩ =>
      some (s.handOff generation upstreamEpochs result applying metadata)
    | _ => none
  | .commit generation outcomes => match s.starts generation with
    | some ⟨upstreamEpochs, .handedOff result resumeListen⟩ =>
      some (s.commit generation upstreamEpochs result resumeListen outcomes)
    | _ => none
  | .refresh generation failure => match s.starts generation with
    | some ⟨_, .published⟩ => some (s.refresh generation failure)
    | _ => none
  | .completeStop generation =>
    if generation ∈ s.stops then some (s.completeServeStop generation) else none

end Supervisor

end TokenStation
