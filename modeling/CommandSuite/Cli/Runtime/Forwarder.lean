import CommandSuite.Core.MessageDelivery.Ledger

/-! # The runner's message loop

`packages/cli/src/runtime/forwarder.ts`: what a runner does with one message of its member's
stream. Context controls are told by a field of the message's data, whoever sent it.
-/

namespace CommandSuite.Forwarder

structure ContextControlEvent where
  requestId : String
  verb : ContextControlVerb
  target : String
  requestedBy : String
  reason : Option String
  deriving DecidableEq

def nonemptyString (data : JsonObject) (property : String) : Option String :=
  ((data.get property).bind Json.asString).filter fun text => text ≠ ""

def parseContextControl (data : JsonObject) : Option ContextControlEvent := do
  if (data.get "kind").bind Json.asString ≠ some "context_control" then none
  let requestId ← nonemptyString data "requestId"
  let verb ← ((data.get "verb").bind Json.asString).bind ContextControlVerb.ofText
  let target ← nonemptyString data "target"
  let requestedBy ← nonemptyString data "requestedBy"
  return { requestId, verb, target, requestedBy, reason := nonemptyString data "reason" }

/-- Which handlers the runner has; the last tells on which controls its handler throws. -/
structure Handlers where
  onObjectiveEvent : Bool
  onToolSourceEvent : Bool
  onInstructionsEvent : Bool
  onEnvironmentEvent : Bool
  onContextControlEvent : Option (ContextControlEvent → Bool)

inductive Call where
  | objective (message : Message)
  | toolSource (message : Message)
  | instructions (message : Message)
  | environment (message : Message)
  | contextControl (control : ContextControlEvent)
  | forwardMessage (message : Message)

/-- What the loop settles itself. `forwardMessage` settles what it forwards. -/
structure Settlement where
  disposition : Disposition
  reason : Option DispositionReason

def refused (code : ReasonCode) (detail : String) : Settlement := ⟨.refused, some ⟨code, detail⟩⟩

def observe (present : Bool) (dataKind : Option String) (kind : String) (call : Call) : List Call :=
  if dataKind = some kind && present then [call] else []

/-- The body of the loop over the stream of the member `name`. -/
def receive (name : String) (handlers : Handlers) (message : Message) : List Call × Option Settlement :=
  let dataKind := (message.data.get "kind").bind Json.asString
  let observed :=
    observe handlers.onObjectiveEvent dataKind "objective" (.objective message) ++
      observe handlers.onToolSourceEvent dataKind "tool_source" (.toolSource message) ++
      observe handlers.onInstructionsEvent dataKind "instructions" (.instructions message) ++
      observe handlers.onEnvironmentEvent dataKind "environment" (.environment message)
  if dataKind = some "environment" then (observed, some ⟨.handled, none⟩)
  else if dataKind = some "context_control" then
    match parseContextControl message.data with
    | none => (observed, some (refused .unsupported "malformed context control"))
    | some control =>
      if control.target ≠ name then
        (observed, some (refused .operatorPolicy "context control addressed elsewhere"))
      else
        match handlers.onContextControlEvent with
        | none => (observed, some (refused .unsupported "context control unsupported"))
        | some throws =>
          (observed ++ [.contextControl control],
            some (if throws control then ⟨.deferred, some ⟨.turnFailed, "context control handler failed"⟩⟩
              else ⟨.handled, none⟩))
  else if message.fromName = some name then (observed, some ⟨.handled, none⟩)
  else (observed ++ [.forwardMessage message], none)

theorem not_mem_observe {present : Bool} {dataKind : Option String} {kind : String} {call other : Call}
    (h : call ≠ other) : other ∉ observe present dataKind kind call := by
  unfold observe
  split <;> simp [h.symm]

theorem parsed_of_executed {name : String} {handlers : Handlers} {message : Message} {control : ContextControlEvent}
    (h : .contextControl control ∈ (receive name handlers message).1) :
    parseContextControl message.data = some control ∧ control.target = name := by
  have hObserved : Call.contextControl control ∉
      observe handlers.onObjectiveEvent ((message.data.get "kind").bind Json.asString) "objective" (.objective message) ++
        observe handlers.onToolSourceEvent ((message.data.get "kind").bind Json.asString) "tool_source"
          (.toolSource message) ++
        observe handlers.onInstructionsEvent ((message.data.get "kind").bind Json.asString) "instructions"
          (.instructions message) ++
        observe handlers.onEnvironmentEvent ((message.data.get "kind").bind Json.asString) "environment"
          (.environment message) := by
    simp only [List.mem_append, not_or]
    exact ⟨⟨⟨not_mem_observe (by simp), not_mem_observe (by simp)⟩, not_mem_observe (by simp)⟩, not_mem_observe (by simp)⟩
  unfold receive at h
  dsimp only at h
  generalize observe _ _ "objective" _ ++ _ ++ _ ++ _ = observed at h hObserved
  split at h
  · exact absurd h hObserved
  · split at h
    · split at h
      · exact absurd h hObserved
      · rename_i parsed hParse
        split at h
        · exact absurd h hObserved
        · rename_i hTarget
          split at h
          · exact absurd h hObserved
          · rcases List.mem_append.mp h with hMem | hMem
            · exact absurd hMem hObserved
            · cases List.mem_singleton.mp hMem
              exact ⟨hParse, not_not.mp hTarget⟩
    · split at h
      · exact absurd h hObserved
      · rcases List.mem_append.mp h with hMem | hMem
        · exact absurd hMem hObserved
        · cases List.mem_singleton.mp hMem

end CommandSuite.Forwarder
