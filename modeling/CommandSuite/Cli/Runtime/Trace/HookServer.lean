import CommandSuite.Cli.Runtime.Trace.Busy
import CommandSuite.Core.Message
import CommandSuite.Library.KeyedMap

/-! # The hook server

`startHookServer` of `packages/cli/src/runtime/trace/hook-server.ts`. The agent posts its hook events, and the server opens and
finishes handles of the activity signal. A turn is open from its `UserPromptSubmit` to its `Stop`, unless the signal finishes the
handle itself.
-/

namespace CommandSuite.HookServer

open Library Busy Program Transcript

/-! ## Requests -/

structure HookRequest where
  method : String
  url : String
  /-- What the body parses to. Nothing, when it is too long or is not JSON. An empty one is an empty object. -/
  body : Option Json

inductive Response where
  | notFound
  | badRequest
  | ignored (reason : String)
  | accepted
  deriving DecidableEq

def textOf (body : JsonObject) (property : String) : Option String :=
  ((body.get property).bind Json.asString).filter fun text => text ≠ ""

def turnKey (body : JsonObject) : String := ((textOf body "prompt_id").or (textOf body "session_id")).getD "__turn__"

def BLOCKING_NOTIFICATION_TYPES : List String := ["permission_prompt", "agent_needs_input", "elicitation_dialog"]

def UNBLOCKING_NOTIFICATION_TYPES : List String := ["idle_prompt"]

inductive HookEvent where
  | preToolUse (toolUseId : String)
  | postToolUse (toolUseId : String)
  | userPromptSubmit (key : String)
  | stop (key : String)
  | notification (type : Option String)
  | sessionStart (source : String)
  | other
  deriving DecidableEq

def eventOf (body : JsonObject) : Except String HookEvent :=
  match textOf body "hook_event_name" with
  | none => .error "missing hook_event_name"
  | some event =>
    if event ∈ ["PreToolUse", "PostToolUse", "PostToolUseFailure", "PostToolBatch"] then
      match textOf body "tool_use_id" with
      | none => .error "missing tool_use_id"
      | some toolUseId => .ok (if event = "PreToolUse" then .preToolUse toolUseId else .postToolUse toolUseId)
    else if event = "UserPromptSubmit" then .ok (.userPromptSubmit (turnKey body))
    else if event = "Stop" then .ok (.stop (turnKey body))
    else if event = "Notification" then .ok (.notification ((body.get "notification_type").bind Json.asString))
    else if event = "SessionStart" then .ok (.sessionStart (((body.get "source").bind Json.asString).getD ""))
    else .ok .other

def HookRequest.read (request : HookRequest) : Except Response JsonObject :=
  if request.method ≠ "POST" ∨ request.url ≠ "/hook/tool-event" then .error .notFound
  else
    match request.body with
    | some (.object body) => .ok body
    | _ => .error .badRequest

/-! ## The server -/

structure Server where
  busy : ActivitySignal
  handles : KeyedMap String Nat
  turnHandles : KeyedMap String Nat
  lastTranscriptPath : Option String

def Server.started : Server := ⟨.created, .empty, .empty, none⟩

inductive Note where
  | activity (note : Busy.Note)
  | onTranscriptPath (path : String)
  | onSessionStart (source : String)

abbrev Action := Program Server Note

def onSignal (action : Busy.Action) : Action := fun server =>
  ({ server with busy := (action server.busy).1 }, (action server.busy).2.map .activity)

def relayTranscriptPath (body : JsonObject) : Action := fun server =>
  match textOf body "transcript_path" with
  | none => (server, [])
  | some path =>
    if some path = server.lastTranscriptPath then (server, [])
    else ({ server with lastTranscriptPath := some path }, [.onTranscriptPath path])

def preToolUse (toolUseId : String) : Action := fun server =>
  if (server.handles.get toolUseId).isSome then (server, [])
  else
    ((onSignal (start .toolInflight none)).andThen
      (update fun later => { later with handles := later.handles.set toolUseId server.busy.handles.length })) server

def postToolUse (toolUseId : String) : Action := fun server =>
  match server.handles.get toolUseId with
  | none => (server, [])
  | some handle =>
    ((onSignal (finish .normal handle)).andThen
      (update fun server => { server with handles := server.handles.remove toolUseId })) server

def userPromptSubmit (key : String) : Action := fun server =>
  if (server.turnHandles.get key).isSome then (server, [])
  else
    ((onSignal (start .turnActive none)).andThen
      (update fun later => { later with turnHandles := later.turnHandles.set key server.busy.handles.length })) server

def endTurn (key : String) : Action := fun server =>
  match server.turnHandles.get key with
  | some handle =>
    ((onSignal (finish .normal handle)).andThen
      (update fun server => { server with turnHandles := server.turnHandles.remove key })) server
  | none =>
    ((onSignal (each server.turnHandles.values (finish .normal))).andThen
      (update fun server => { server with turnHandles := .empty })) server

def stop (key : String) : Action := (onSignal (setBlocked false)).andThen (endTurn key)

def notification (type : Option String) : Action :=
  if type.any fun type => type ∈ BLOCKING_NOTIFICATION_TYPES then onSignal (setBlocked true)
  else if type.any fun type => type ∈ UNBLOCKING_NOTIFICATION_TYPES then onSignal (setBlocked false)
  else skip

def HookEvent.action : HookEvent → Action
  | .preToolUse toolUseId => HookServer.preToolUse toolUseId
  | .postToolUse toolUseId => HookServer.postToolUse toolUseId
  | .userPromptSubmit key => HookServer.userPromptSubmit key
  | .stop key => HookServer.stop key
  | .notification type => HookServer.notification type
  | .sessionStart source => emit (.onSessionStart source)
  | .other => skip

def handle (request : HookRequest) (server : Server) : Server × Response × List Note :=
  match request.read with
  | .error response => (server, response, [])
  | .ok body =>
    let (server, relayed) := relayTranscriptPath body server
    match eventOf body with
    | .error reason => (server, .ignored reason, relayed)
    | .ok event =>
      let (server, notes) := event.action server
      (server, .accepted, relayed ++ notes)

inductive Input where
  | hook (request : HookRequest)
  | timeout (id : Nat)
  | forceFinishAll

def next (server : Server) : Input → Server × Option Response × List Note
  | .hook request =>
    let (server, response, notes) := handle request server
    (server, some response, notes)
  | .timeout id =>
    let (server, notes) := onSignal (Busy.timeout id) server
    (server, none, notes)
  | .forceFinishAll =>
    let (server, notes) := onSignal Busy.forceFinishAll server
    (server, none, notes)

/-! ## What is asked of it -/

def HookRequest.event (request : HookRequest) : Option HookEvent := request.read.toOption.bind fun body => (eventOf body).toOption

/-- What is known of the turn: begun until a stop, a timeout or a force, and ended until a prompt. -/
inductive Turn where
  | unknown
  | begun
  | ended
  deriving DecidableEq

def TurnTimer (signal : ActivitySignal) (id : Nat) : Bool :=
  signal.handles[id]?.any fun handle => handle.timer.isSome && handle.source = .turnActive

def turnAfter (server : Server) (turn : Turn) : Input → Turn
  | .hook request =>
    match request.event with
    | some (.userPromptSubmit _) => .begun
    | some (.stop _) => .ended
    | _ => turn
  | .timeout id => if turn = .begun ∧ TurnTimer server.busy id then .unknown else turn
  | .forceFinishAll => if turn = .begun then .unknown else turn

structure Watched where
  server : Server
  turn : Turn

def watch : Machine Watched Input (Option Response × List Note) := fun watched input =>
  (⟨(next watched.server input).1, turnAfter watched.server watched.turn input⟩, (next watched.server input).2)

structure Follows (watched : Watched) : Prop where
  begun : watched.turn = .begun → (∃ id, Open .turnActive watched.server.busy id) ∧ watched.server.busy.deriveState ≠ .idle
  ended : watched.turn = .ended → ∀ id, ¬ Open .turnActive watched.server.busy id

/-- A prompt whose key is there finds a turn that is open. A stop whose key is there finds no other. -/
def Matched (server : Server) : HookEvent → Prop
  | .userPromptSubmit key => (server.turnHandles.get key).isSome → ∃ id, Open .turnActive server.busy id
  | .stop key => ∀ handle, server.turnHandles.get key = some handle → ∀ id, Open .turnActive server.busy id → id = handle
  | _ => True

def InputMatched (server : Server) : Input → Prop
  | .hook request => ∀ event, request.event = some event → Matched server event
  | _ => True

/-! ## Who holds the handles -/

structure Owned (server : Server) : Prop where
  tracked : ∃ past, Tracks server.busy past
  turns : ∀ id, Open .turnActive server.busy id → ∃ key, server.turnHandles.get key = some id
  tools : ∀ toolUseId id, server.handles.get toolUseId = some id → id < server.busy.handles.length ∧ ¬ Open .turnActive server.busy id

theorem owned_started : Owned .started := ⟨⟨[], tracks_created⟩, fun _ hOpen => (nomatch hOpen), fun _ _ hNone => nomatch hNone⟩

variable {server : Server}

theorem Owned.onSignal (h : Owned server) {action : Busy.Action} (hTracks : Extends Tracks action)
    (hLength : (action server.busy).1.handles.length = server.busy.handles.length)
    (hOpen : ∀ id, Open .turnActive (action server.busy).1 id → Open .turnActive server.busy id) :
    Owned (onSignal action server).1 := by
  obtain ⟨⟨past, hPast⟩, hTurns, hTools⟩ := h
  refine ⟨⟨_, hTracks server.busy past hPast⟩, fun id hId => hTurns id (hOpen id hId), fun toolUseId id hHeld => ?_⟩
  obtain ⟨hLess, hClosed⟩ := hTools toolUseId id hHeld
  exact ⟨hLength.symm ▸ hLess, fun hId => hClosed (hOpen id hId)⟩

theorem Owned.finish (h : Owned server) (id : Nat) : Owned (HookServer.onSignal (finish .normal id) server).1 :=
  h.onSignal (tracks_finish .normal id) (length_finish .normal id server.busy) fun _ hOpen => (open_finish.mp hOpen).1

theorem Owned.setBlocked (h : Owned server) (blocked : Bool) : Owned (HookServer.onSignal (setBlocked blocked) server).1 := by
  have hHandles := handles_setBlocked blocked server.busy
  refine h.onSignal (tracks_setBlocked blocked) (congrArg List.length hHandles) fun id hOpen => ?_
  unfold Open at hOpen ⊢
  rwa [hHandles] at hOpen

theorem open_setBlocked (blocked : Bool) (id : Nat) :
    Open .turnActive (onSignal (setBlocked blocked) server).1.busy id ↔ Open .turnActive server.busy id := by
  change Open .turnActive (setBlocked blocked server.busy).1 id ↔ _
  unfold Open
  rw [handles_setBlocked]

section

variable (h : Owned server)
include h

theorem open_action (event : HookEvent) (id : Nat) :
    Open .turnActive (event.action server).1.busy id ↔
      match event with
      | .userPromptSubmit key =>
        Open .turnActive server.busy id ∨ server.turnHandles.get key = none ∧ id = server.busy.handles.length
      | .stop key => Open .turnActive server.busy id ∧ ∃ handle, server.turnHandles.get key = some handle ∧ id ≠ handle
      | _ => Open .turnActive server.busy id := by
  cases event with
  | preToolUse toolUseId =>
    change Open .turnActive (preToolUse toolUseId server).1.busy id ↔ _
    unfold preToolUse
    split
    · rfl
    · change Open .turnActive (start .toolInflight none server.busy).1 id ↔ _
      rw [open_start]
      exact ⟨fun hOpen => hOpen.resolve_right fun hSame => (nomatch hSame.2), .inl⟩
  | postToolUse toolUseId =>
    change Open .turnActive (postToolUse toolUseId server).1.busy id ↔ _
    unfold postToolUse
    split
    · rfl
    · rename_i handle hHandle
      change Open .turnActive (finish .normal handle server.busy).1 id ↔ _
      rw [open_finish]
      exact ⟨And.left, fun hOpen => ⟨hOpen, fun hSame => (h.tools toolUseId handle hHandle).2 (hSame ▸ hOpen)⟩⟩
  | userPromptSubmit key =>
    change Open .turnActive (userPromptSubmit key server).1.busy id ↔ _
    unfold userPromptSubmit
    cases hKey : server.turnHandles.get key with
    | some handle => simp [hKey]
    | none =>
      change Open .turnActive (start .turnActive none server.busy).1 id ↔ _
      rw [open_start]
      simp [hKey]
  | stop key =>
    have hMaps : (onSignal (setBlocked false) server).1.turnHandles = server.turnHandles := rfl
    change Open .turnActive (endTurn key (onSignal (setBlocked false) server).1).1.busy id ↔ _
    unfold endTurn
    rw [hMaps]
    cases hKey : server.turnHandles.get key with
    | some handle =>
      change Open .turnActive (finish .normal handle (onSignal (setBlocked false) server).1.busy).1 id ↔ _
      rw [open_finish, open_setBlocked]
      simp [hKey]
    | none =>
      change Open .turnActive (each server.turnHandles.values (finish .normal) (onSignal (setBlocked false) server).1.busy).1 id ↔ _
      rw [open_each_finish, open_setBlocked]
      refine iff_of_false (fun hOpen => hOpen.2 ?_) fun hOpen => ?_
      · obtain ⟨key, hHeld⟩ := h.turns id hOpen.1
        exact List.mem_map_of_mem (KeyedMap.get_eq_some_iff.mp hHeld)
      · obtain ⟨_, handle, hSome, _⟩ := hOpen
        rw [hKey] at hSome
        cases hSome
  | notification type =>
    change Open .turnActive (notification type server).1.busy id ↔ _
    unfold notification
    split
    · exact open_setBlocked true id
    · split
      · exact open_setBlocked false id
      · rfl
  | sessionStart source => rfl
  | other => rfl

theorem Owned.start (source : ActivitySource) : ∃ past, Tracks (start source none server.busy).1 past := by
  obtain ⟨past, hPast⟩ := h.tracked
  exact ⟨_, tracks_start source none server.busy past hPast⟩

theorem Owned.tools_start (source : ActivitySource) {toolUseId : String} {id : Nat}
    (hHeld : server.handles.get toolUseId = some id) :
    id < (Busy.start source none server.busy).1.handles.length ∧ ¬ Open .turnActive (Busy.start source none server.busy).1 id := by
  obtain ⟨hLess, hClosed⟩ := h.tools toolUseId id hHeld
  rw [handles_start, List.length_append, open_start]
  exact ⟨Nat.lt_add_right 1 hLess, not_or.mpr ⟨hClosed, fun hSame => Nat.ne_of_lt hLess hSame.1⟩⟩

theorem owned_preToolUse (toolUseId : String) : Owned (preToolUse toolUseId server).1 := by
  have hOpen := open_action h (.preToolUse toolUseId)
  change ∀ id, Open .turnActive (preToolUse toolUseId server).1.busy id ↔ _ at hOpen
  unfold preToolUse at hOpen ⊢
  split
  · exact h
  · rename_i hKey
    rw [if_neg hKey] at hOpen
    refine ⟨h.start .toolInflight, fun id hId => h.turns id ((hOpen id).mp hId), fun other id hHeld => ?_⟩
    change (server.handles.set toolUseId server.busy.handles.length).get other = some id at hHeld
    rw [KeyedMap.get_set] at hHeld
    split at hHeld
    · obtain rfl := Option.some.inj hHeld
      change _ < (start .toolInflight none server.busy).1.handles.length ∧ _
      rw [handles_start, List.length_append]
      refine ⟨Nat.lt_succ_self _, fun hId => ?_⟩
      obtain ⟨_, hSome, _⟩ := open_iff.mp ((hOpen _).mp hId)
      rw [List.getElem?_eq_none (Nat.le_refl _)] at hSome
      cases hSome
    · exact h.tools_start .toolInflight hHeld

theorem owned_postToolUse (toolUseId : String) : Owned (postToolUse toolUseId server).1 := by
  unfold postToolUse
  split
  · exact h
  · rename_i handle hHandle
    have hFinished := h.finish handle
    refine ⟨hFinished.tracked, hFinished.turns, fun other id hHeld => hFinished.tools other id ?_⟩
    change (server.handles.remove toolUseId).get other = some id at hHeld
    rw [KeyedMap.get_remove] at hHeld
    split at hHeld
    · cases hHeld
    · exact hHeld

theorem owned_userPromptSubmit (key : String) : Owned (userPromptSubmit key server).1 := by
  unfold userPromptSubmit
  split
  · exact h
  · rename_i hKey
    have hNone : server.turnHandles.get key = none := Option.not_isSome_iff_eq_none.mp hKey
    refine ⟨h.start .turnActive, fun id hId => ?_, fun _ _ hHeld => h.tools_start .turnActive hHeld⟩
    change ∃ other, (server.turnHandles.set key server.busy.handles.length).get other = some id
    rcases open_start.mp hId with hOpen | hSame
    · obtain ⟨other, hOther⟩ := h.turns id hOpen
      refine ⟨other, ?_⟩
      rw [KeyedMap.get_set, if_neg fun hSame => ?_, hOther]
      rw [← hSame, hNone] at hOther
      cases hOther
    · exact ⟨key, by rw [KeyedMap.get_set, if_pos rfl, hSame.1]⟩

theorem owned_endTurn (key : String) : Owned (endTurn key server).1 := by
  unfold endTurn
  split
  · rename_i handle hHandle
    have hFinished := h.finish handle
    refine ⟨hFinished.tracked, fun id hId => ?_, hFinished.tools⟩
    obtain ⟨hOpen, hOther⟩ := open_finish.mp hId
    obtain ⟨other, hHeld⟩ := h.turns id hOpen
    refine ⟨other, ?_⟩
    change (server.turnHandles.remove key).get other = some id
    rw [KeyedMap.get_remove, if_neg fun hSame => ?_, hHeld]
    rw [← hSame, hHandle] at hHeld
    exact hOther (Option.some.inj hHeld).symm
  · have hFinished : Owned (onSignal (each server.turnHandles.values (finish .normal)) server).1 := by
      refine h.onSignal (fun signal past hTracks => ?_) (length_each_finish .normal _ server.busy) fun _ hOpen => (open_each_finish.mp hOpen).1
      exact extends_each (fun id _ => tracks_finish .normal id) signal past hTracks
    refine ⟨hFinished.tracked, fun id hId => ?_, hFinished.tools⟩
    obtain ⟨hOpen, hOther⟩ := open_each_finish.mp hId
    obtain ⟨other, hHeld⟩ := h.turns id hOpen
    exact absurd (List.mem_map_of_mem (KeyedMap.get_eq_some_iff.mp hHeld)) hOther

theorem owned_action (event : HookEvent) : Owned (event.action server).1 := by
  cases event with
  | preToolUse toolUseId => exact owned_preToolUse h toolUseId
  | postToolUse toolUseId => exact owned_postToolUse h toolUseId
  | userPromptSubmit key => exact owned_userPromptSubmit h key
  | stop key => exact owned_endTurn (h.setBlocked false) key
  | notification type =>
    change Owned (notification type server).1
    unfold notification
    split
    · exact h.setBlocked true
    · split
      · exact h.setBlocked false
      · exact h
  | sessionStart source => exact h
  | other => exact h

theorem Owned.relayed (path : Option String) : Owned { server with lastTranscriptPath := path } := ⟨h.tracked, h.turns, h.tools⟩

end

/-! ## Steps and runs -/

theorem handle_fst (request : HookRequest) (server : Server) : ∃ path, (handle request server).1 =
    match request.event with
    | some event => (event.action { server with lastTranscriptPath := path }).1
    | none => { server with lastTranscriptPath := path } := by
  have hRelay : ∀ body, ∃ path, (relayTranscriptPath body server).1 = { server with lastTranscriptPath := path } := by
    intro body
    unfold relayTranscriptPath
    split
    · exact ⟨server.lastTranscriptPath, rfl⟩
    · split
      · exact ⟨server.lastTranscriptPath, rfl⟩
      · exact ⟨_, rfl⟩
  unfold handle HookRequest.event
  cases request.read with
  | error response => exact ⟨server.lastTranscriptPath, rfl⟩
  | ok body =>
    obtain ⟨path, hPath⟩ := hRelay body
    refine ⟨path, ?_⟩
    rw [← hPath]
    change (match eventOf body with
      | .error reason => ((relayTranscriptPath body server).1, Response.ignored reason, (relayTranscriptPath body server).2)
      | .ok event => _).1 = match (eventOf body).toOption with
        | some event => (event.action (relayTranscriptPath body server).1).1
        | none => (relayTranscriptPath body server).1
    cases eventOf body <;> rfl

theorem owned_next (h : Owned server) (input : Input) : Owned (next server input).1 := by
  cases input with
  | hook request =>
    obtain ⟨path, hServer⟩ := handle_fst request server
    change Owned (handle request server).1
    rw [hServer]
    cases request.event with
    | none => exact h.relayed path
    | some event => exact owned_action (h.relayed path) event
  | timeout id =>
    refine h.onSignal (fun signal past hTracks => ?_) (length_timeout id server.busy) fun _ hOpen => open_timeout hOpen
    exact tracks_action (.timeout id) signal past hTracks
  | forceFinishAll => exact h.onSignal tracks_forceFinishAll (length_forceFinishAll server.busy) fun _ hOpen => open_forceFinishAll hOpen

/-- A turn that is open is that of a prompt, and the `Stop` with the prompt's key ends it. -/
def TurnsEnd (server : Server) : Prop :=
  ∀ id, Open .turnActive server.busy id → ∃ key, server.turnHandles.get key = some id ∧
    ¬ Open .turnActive (HookEvent.action (.stop key) server).1.busy id

theorem turns_end (inputs : List Input) : TurnsEnd (final next .started inputs) := by
  intro id hOpen
  have h := final_invariant (P := Owned) (fun _ input hOwned => owned_next hOwned input) owned_started inputs
  obtain ⟨key, hKey⟩ := h.turns id hOpen
  refine ⟨key, hKey, fun hLeft => ?_⟩
  obtain ⟨-, handle, hHandle, hOther⟩ := (open_action h (.stop key) id).mp hLeft
  exact hOther (Option.some.inj (hKey.symm.trans hHandle))

theorem follows_iff (h : Owned server) (turn : Turn) : Follows ⟨server, turn⟩ ↔
    match turn with
    | .unknown => True
    | .begun => ∃ id, Open .turnActive server.busy id
    | .ended => ∀ id, ¬ Open .turnActive server.busy id := by
  obtain ⟨past, hPast⟩ := h.tracked
  cases turn with
  | unknown => exact iff_of_true ⟨fun hTurn => (nomatch hTurn), fun hTurn => nomatch hTurn⟩ trivial
  | begun =>
    exact ⟨fun hFollows => (hFollows.begun rfl).1, fun ⟨id, hOpen⟩ =>
      ⟨fun _ => ⟨⟨id, hOpen⟩, not_idle_of_open hPast.counted hOpen⟩, fun hTurn => nomatch hTurn⟩⟩
  | ended => exact ⟨fun hFollows => hFollows.ended rfl, fun hNone => ⟨fun hTurn => (nomatch hTurn), fun _ => hNone⟩⟩

theorem open_timeout_iff {signal : ActivitySignal} {id : Nat} (h : ¬ TurnTimer signal id = true) (other : Nat) :
    Open .turnActive (Busy.timeout id signal).1 other ↔ Open .turnActive signal other := by
  unfold Busy.timeout
  split
  · rename_i hArmed
    rw [open_finish]
    refine ⟨And.left, fun hOpen => ⟨hOpen, fun hSame => h ?_⟩⟩
    obtain ⟨handle, hHandle, _, hSource⟩ := open_iff.mp (hSame ▸ hOpen)
    rw [hHandle, Option.any_some] at hArmed
    rw [TurnTimer, hHandle, Option.any_some, hArmed, hSource]
    rfl
  · rfl

theorem follows_congr {other : Server} (h : Owned server) (hOther : Owned other)
    (hOpen : ∀ id, Open .turnActive other.busy id ↔ Open .turnActive server.busy id) (turn : Turn) :
    Follows ⟨other, turn⟩ ↔ Follows ⟨server, turn⟩ := by
  rw [follows_iff h, follows_iff hOther]
  simp only [hOpen]

theorem follows_event_iff (h : Owned server) {turn : Turn} (hFollows : Follows ⟨server, turn⟩) (event : HookEvent) :
    Follows ⟨(event.action server).1, match event with | .userPromptSubmit _ => .begun | .stop _ => .ended | _ => turn⟩ ↔
      Matched server event := by
  have hOwned := owned_action h event
  have hOpen := open_action h event
  have hSame : (∀ id, Open .turnActive (event.action server).1.busy id ↔ Open .turnActive server.busy id) →
      (Follows ⟨(event.action server).1, turn⟩ ↔ True) :=
    fun hOpen => (follows_congr h hOwned hOpen turn).trans (iff_true_intro hFollows)
  cases event with
  | userPromptSubmit key =>
    rw [follows_iff hOwned]
    simp only [hOpen, Matched]
    cases hKey : server.turnHandles.get key with
    | none => simp
    | some handle => simp
  | stop key =>
    rw [follows_iff hOwned]
    simp only [hOpen, Matched]
    constructor
    · intro hNone handle hHandle id hId
      by_contra hOther
      exact hNone id ⟨hId, handle, hHandle, hOther⟩
    · rintro hOnly id ⟨hId, handle, hHandle, hOther⟩
      exact hOther (hOnly handle hHandle id hId)
  | preToolUse toolUseId | postToolUse toolUseId | notification type | sessionStart source | other => exact hSame hOpen

theorem follows_watch_iff {watched : Watched} (h : Owned watched.server) (hFollows : Follows watched) (input : Input) :
    Follows (watch watched input).1 ↔ InputMatched watched.server input := by
  obtain ⟨server, turn⟩ := watched
  dsimp only at h
  cases input with
  | hook request =>
    obtain ⟨path, hServer⟩ := handle_fst request server
    have hRelayed := h.relayed path
    have hBefore : Follows ⟨{ server with lastTranscriptPath := path }, turn⟩ := (follows_congr h hRelayed (fun _ => Iff.rfl) turn).mpr hFollows
    change Follows ⟨(handle request server).1, turnAfter server turn (.hook request)⟩ ↔ ∀ event, request.event = some event → _
    rw [hServer, turnAfter]
    cases request.event with
    | none => exact iff_of_true hBefore fun _ hNone => nomatch hNone
    | some event =>
      have hEvent := follows_event_iff hRelayed hBefore event
      simp only [Option.some.injEq, forall_eq']
      refine Iff.trans ?_ hEvent
      cases event <;> rfl
  | timeout id =>
    refine iff_of_true ?_ trivial
    have hOwned := owned_next h (.timeout id)
    change Follows ⟨(next server (.timeout id)).1, if turn = .begun ∧ TurnTimer server.busy id then .unknown else turn⟩
    have hLess : ∀ other, Open .turnActive (next server (.timeout id)).1.busy other → Open .turnActive server.busy other :=
      fun _ hOpen => open_timeout hOpen
    rw [follows_iff hOwned]
    rw [follows_iff h] at hFollows
    cases turn with
    | unknown => trivial
    | ended => exact fun other hOpen => hFollows other (hLess other hOpen)
    | begun =>
      by_cases hTimer : TurnTimer server.busy id = true
      · rw [if_pos ⟨rfl, hTimer⟩]
        trivial
      · rw [if_neg fun hBoth => hTimer hBoth.2]
        obtain ⟨other, hOpen⟩ := hFollows
        exact ⟨other, (open_timeout_iff hTimer other).mpr hOpen⟩
  | forceFinishAll =>
    refine iff_of_true ?_ trivial
    have hOwned := owned_next h .forceFinishAll
    change Follows ⟨(next server .forceFinishAll).1, if turn = .begun then .unknown else turn⟩
    rw [follows_iff hOwned]
    rw [follows_iff h] at hFollows
    cases turn with
    | unknown | begun => trivial
    | ended => exact fun other hOpen => hFollows other (open_forceFinishAll hOpen)

/-- Presence follows the turns in every state of a run exactly when every prompt and every stop is matched. -/
theorem presence_follows_turns_iff (inputs : List Input) :
    (∀ step ∈ run watch ⟨.started, .unknown⟩ inputs, Follows step.after) ↔
      ∀ step ∈ run watch ⟨.started, .unknown⟩ inputs, InputMatched step.before.server step.input :=
  forall_after_iff (P := fun watched : Watched => Owned watched.server) (fun _ input h => owned_next h input)
    (fun _ input h hFollows => follows_watch_iff h hFollows input) owned_started
    (show Follows ⟨.started, .unknown⟩ from (follows_iff owned_started .unknown).mpr trivial) inputs

def post (properties : JsonObject) : Input := .hook ⟨"POST", "/hook/tool-event", some (.object properties)⟩

def promptOfSession : Input := post [("hook_event_name", .string "UserPromptSubmit"), ("session_id", .string "s")]

/-- A prompt without a prompt id is kept under its session. Once its handle timed out the next prompt of the session opens nothing. -/
theorem prompt_after_timeout_idle :
    (final watch ⟨.started, .unknown⟩ [promptOfSession, .timeout 0, promptOfSession]).server.busy.deriveState = .idle ∧
      ¬ Follows (final watch ⟨.started, .unknown⟩ [promptOfSession, .timeout 0, promptOfSession]) := by
  have hIdle : (final watch ⟨.started, .unknown⟩ [promptOfSession, .timeout 0, promptOfSession]).server.busy.deriveState =
      .idle := by decide +kernel
  exact ⟨hIdle, fun hFollows => (hFollows.begun (by decide +kernel)).2 hIdle⟩

end CommandSuite.HookServer
