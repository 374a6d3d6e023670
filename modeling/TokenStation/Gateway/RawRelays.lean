import TokenStation.Gateway.NativeRelay
import TokenStation.Gateway.Replies

/-!
# What a raw relay hands on

When nothing cancels it, a relay follows a script: the replies it would hand on if all were taken,
and how it would end. A client that refuses a reply stops it there.
-/

namespace TokenStation

open Exchange JsonValue Library

/-! ## The script -/

section Script

variable {σ : Type} (watch : RelayWatch σ)

/-- What is wrong with a stream at its end. -/
def endFailure (tap : LineTap σ) : Option ErrorEnvelope :=
  if watch.isComplete (tap.finish watch.observeLine).seen then none
  else some (ErrorEnvelope.new .transportTruncated 502 watch.truncated)

/-- The replies of a relay that is not refused any, and what goes wrong. -/
def relayScript (tap : LineTap σ) (committed : Bool) (pending : List UInt8) :
    List (List UInt8) → List Reply × Option ErrorEnvelope
  | [] =>
    if pending = [] then ([], endFailure watch tap)
    else ([.chunk (String.ofList [replacement])],
      endFailure watch (tap.observe watch.observeLine [replacement]))
  | bytes :: reads =>
    let (text, rest) := utf8Decoder.decode (pending ++ bytes)
    if rest ≠ [] ∧ isUnfinished rest = false then
      ([], some (ErrorEnvelope.new .providerProtocolError 502 watch.invalidUtf8))
    else if text = [] then relayScript tap committed rest reads
    else
      let (replies, failure) :=
        relayScript (tap.observe watch.observeLine text) true rest reads
      ((if committed then [] else [.beginStream]) ++ .chunk (String.ofList text) :: replies,
        failure)

end Script

/-! ## A relay follows its script -/

/-- What an exchange has in the request's record: the error and the status. -/
def Exchange.noted {W : Type} (exchange : Exchange (NativeWorld W)) : Option ErrorCode × ℕ :=
  (exchange.errorCode, exchange.world.status)

/-- The end of a relay that was not refused anything. -/
def relayEnding (committed : Bool) (noted : Option ErrorCode × ℕ) :
    Option ErrorEnvelope → AttemptResult × (Option ErrorCode × ℕ)
  | none => (.ok .complete, noted)
  | some error =>
    if committed then (.ok .failedAfterPartial, (some error.code, error.httpStatus))
    else (.error error, noted)

/-- Whether the client can refuse or take a reply. -/
def Delivers {W : Type} (env : Environment W) (reply : Reply) (accepted : Bool) : Prop :=
  ∃ world, (env.deliver reply world).1 = accepted

/-- The replies are those of the script, up to the first that was refused. -/
def Follows {W : Type} (env : Environment W) (script : List Reply × Option ErrorEnvelope)
    (committed : Bool) (emitted : List (Reply × Bool)) (noted : Option ErrorCode × ℕ)
    (result : AttemptResult) (exchange : Exchange (NativeWorld W)) : Prop :=
  (exchange.emitted = emitted ++ script.1.map (·, true) ∧
    (result, exchange.noted) =
      relayEnding (committed || script.1.contains .beginStream) noted script.2) ∨
  ∃ taken refused rest, script.1 = taken ++ refused :: rest ∧
    exchange.emitted = emitted ++ taken.map (·, true) ++ [(refused, false)] ∧
      Delivers env refused false ∧ result = .ok .clientCancelled

section Run

variable {W σ : Type} {env : Environment W} {ctx : RequestContext} {hasImages : Bool}
  {deadline : ℕ} {watch : RelayWatch σ} {committed : Bool} {emitted : List (Reply × Bool)}
  {noted : Option ErrorCode × ℕ} {tap : LineTap σ}

/-- What has been handed on, and what is in the record. -/
def Standing (emitted : List (Reply × Bool)) (noted : Option ErrorCode × ℕ)
    (exchange : Exchange (NativeWorld W)) : Prop :=
  exchange.emitted = emitted ∧ exchange.noted = noted

theorem remaining_native (world : NativeWorld W) :
    remaining env.native ctx world = NativeWorld.lift (remaining env ctx) world := rfl

theorem cancelReason_native (world : NativeWorld W) :
    cancelReason env.native ctx world = NativeWorld.lift (cancelReason env ctx) world := by
  rw [cancelReason, NativeWorld.lift, cancelReason]
  have htoken : env.native.tokenReason world = NativeWorld.lift env.tokenReason world := rfl
  rw [htoken, NativeWorld.lift]
  rcases env.tokenReason world.outer with ⟨_ | reason, outer⟩
  · dsimp only
    rw [remaining_native, NativeWorld.lift]
    rcases remaining env ctx outer with ⟨_ | left, outer⟩
    · rfl
    · rfl
  · rfl

/-- A script that ends here. -/
theorem Follows.ended {result : AttemptResult} {failure : Option ErrorEnvelope}
    {exchange : Exchange (NativeWorld W)}
    (h : exchange.emitted = emitted ∧
      (result, exchange.noted) = relayEnding committed noted failure) :
    Follows env ([], failure) committed emitted noted result exchange := by
  refine Or.inl ⟨by rw [h.1, List.map_nil, List.append_nil], ?_⟩
  rw [h.2, List.contains_nil, Bool.or_false]

/-- The first reply of a script was refused. -/
theorem Follows.refused {reply : Reply} {rest : List Reply} {failure : Option ErrorEnvelope}
    {exchange : Exchange (NativeWorld W)} (hrefused : Delivers env reply false)
    (h : exchange.emitted = emitted ++ [(reply, false)]) :
    Follows env (reply :: rest, failure) committed emitted noted (.ok .clientCancelled) exchange :=
  Or.inr ⟨[], reply, rest, rfl, by rw [h, List.map_nil, List.append_nil], hrefused, rfl⟩

/-- The first reply of a script was taken. -/
theorem Follows.taken {reply : Reply} {rest : List Reply} {failure : Option ErrorEnvelope}
    {committed' : Bool} {result : AttemptResult} {exchange : Exchange (NativeWorld W)}
    (hcommitted : committed' = (committed || .beginStream == reply))
    (h : Follows env (rest, failure) committed' (emitted ++ [(reply, true)]) noted result
      exchange) :
    Follows env (reply :: rest, failure) committed emitted noted result exchange := by
  rcases h with ⟨hemitted, hending⟩ | ⟨taken, refused, more, hscript, hemitted, hending⟩
  · refine Or.inl ⟨by rw [hemitted, List.map_cons, List.append_assoc]; rfl, ?_⟩
    rw [hending, hcommitted, List.contains_cons, Bool.or_assoc]
  · refine Or.inr ⟨reply :: taken, refused, more, ?_, ?_, hending⟩
    · exact congrArg (reply :: ·) hscript
    · rw [hemitted, List.map_cons]
      simp

end Run

end TokenStation
